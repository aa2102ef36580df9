import Reckon.Proofs.Agreement
import Reckon.Proofs.Rounding
import Reckon.Proofs.Signs
import Reckon.Proofs.Writing

/-!
# Literals

The numbers in a parsed tree are read from number tokens, or are constants. A number token is a numeral,
and as it has no more characters than a token may have, what it stands for is less than 10²⁵⁶. That is
far below the greatest magnitude. So every literal is finite and has no sign, although the reader of
numbers takes what is too large to be infinite; and a numeral of this length, as a source, has the value
that it stands for, rounded correctly.
-/
namespace Reckon
open Text Binary64 Number

namespace Numeral

/-- The number that a numeral stands for. -/
def value (n : Numeral) : ℚ :=
  (Nat.ofDigitChars 10 (n.whole ++ n.places) 0 : ℕ) / 10 ^ n.places.length

theorem value_decimal (n : Numeral) : n.decimal.value = n.value := by
  rw [Decimal.value, decimal, value, zpow_neg, zpow_natCast, div_eq_mul_inv]

theorem ofDigitChars_lt {digits : List Char} (h : ∀ c ∈ digits, c.isDigit) (start : Nat) :
    Nat.ofDigitChars 10 digits start < (start + 1) * 10 ^ digits.length := by
  induction digits generalizing start with
  | nil => simp
  | cons c digits ih =>
    obtain ⟨hc, hdigits⟩ := List.forall_mem_cons.mp h
    have hrange := isDigit_iff.mp hc
    have hdigit : 10 * start + (c.toNat - '0'.toNat) + 1 ≤ (start + 1) * 10 := by
      have hzero : '0'.toNat = 48 := rfl
      omega
    rw [Nat.ofDigitChars_cons, List.length_cons, pow_succ', ← Nat.mul_assoc]
    exact (ih hdigits _).trans_le (Nat.mul_le_mul_right _ hdigit)

/-- A numeral stands for a number with no more digits in front of the point than it has characters. -/
theorem value_lt (n : Numeral) : n.value < 10 ^ n.chars.length := by
  have hdigits := ofDigitChars_lt (List.forall_mem_append.mpr ⟨n.whole_digits, n.places_digits⟩) 0
  have hlength : n.whole.length ≤ n.chars.length := by
    unfold chars
    split <;> simp
  rw [Nat.zero_add, Nat.one_mul, List.length_append, pow_add] at hdigits
  have hpos : (0 : ℚ) < 10 ^ n.places.length := by positivity
  calc n.value < 10 ^ n.whole.length := by
        rw [value, div_lt_iff₀ hpos]
        exact_mod_cast hdigits
    _ ≤ 10 ^ n.chars.length := pow_le_pow_right₀ (by norm_num) hlength

/-- A numeral that is short enough is rounded correctly, to a finite number without a sign. -/
theorem rounded (n : Numeral) (hlength : n.chars.length ≤ lexemeLimit) :
    Plain (ofRank false n.decimal.nearestRank) ∧
      IsNearest n.value (rank (ofRank false n.decimal.nearestRank)) := by
  have hvalue : n.decimal.value < 10 ^ lexemeLimit := by
    rw [n.value_decimal]
    exact n.value_lt.trans_le (pow_le_pow_right₀ (by norm_num) hlength)
  obtain ⟨hfinite, hnearest⟩ := Decimal.isNearest_nearestRank hvalue
  rw [n.value_decimal] at hnearest
  rw [Plain, rank_ofRank false hfinite, isNegative_ofRank false hfinite]
  exact ⟨⟨hfinite, rfl⟩, hnearest⟩

theorem calculate_text (n : Numeral) (hlength : n.chars.length ≤ lexemeLimit) (env : Environment) :
    calculate n.text env = .ok (ofRank false n.decimal.nearestRank) := by
  have hwritten := Phrase.Written.number n.isNumeralStart n.getLast?_chars hlength n.read?_text
  have htext : n.text.toList = n.chars := String.toList_ofList
  have hexpression := hwritten.expression
  rw [← htext] at hexpression
  obtain ⟨tokens, htokens, hparse, -⟩ := Expr.parse_of_written hexpression
  rw [calculate_eq_eval (readExpr_eq_ok_iff.mpr ⟨tokens, htokens, hparse (Nat.zero_le _)⟩)]
  rfl

end Numeral

section Tokens
variable {l : Language} {run text : List Char} {p : Nat} {tokens : List Token} {source : String}

theorem Language.eq_numeral_of_kind (h : l.Has run) (hkind : (l.token run p).kind = .number) :
    l = .numeral := by
  rw [← ofLexeme_kind h, Token.ofLexeme] at hkind
  unfold kind at hkind
  dsimp only at hkind
  cases l with
  | numeral => rfl
  | name => split at hkind <;> [skip; split at hkind] <;> cases hkind
  | symbol kind =>
    obtain ⟨c, -, hsymbol⟩ := h
    have hmem := symbolKind_mem hsymbol
    split at hkind
    · cases hkind
    · split at hkind
      · cases hkind
      · rw [show kind = .number from hkind] at hmem
        exact absurd hmem (by decide)

theorem Munch.numerals (h : Munch p text (.ok tokens)) :
    ∀ t ∈ tokens, t.kind = .number →
      ∃ n : Numeral, n.text = t.lexeme ∧ n.chars.length ≤ lexemeLimit := by
  induction h using Munch.ok_induction with
  | done p =>
    intro t ht hkind
    cases List.mem_singleton.mp ht
    cases hkind
  | blank p c text tokens _ _ ih => exact ih
  | token p l run rest tokens htakes hlength hlast _ ih =>
    refine List.forall_mem_cons.mpr ⟨fun hkind => ?_, ih⟩
    have hhas := htakes.has
    cases Language.eq_numeral_of_kind hhas hkind
    obtain ⟨n, rfl⟩ := Numeral.exists_chars_eq hhas hlast
    rw [hhas.token_eq nofun]
    exact ⟨n, rfl, hlength⟩

end Tokens

section Trees
variable {phrase : Phrase} {nodes nodes' : List Expr} {node : Expr} {ts us tokens : List Token}
  {k : Nat} {t : Token} {x : Float}

def Token.Denotes (t : Token) (x : Float) : Prop :=
  t.kind = .number ∧ Number.read? t.lexeme = some x ∨
    t.kind = .constant ∧ Vocabulary.constant? t.lexeme = some x

/-- Each number among the nodes is read from one of the tokens. -/
def ReadFrom (ts : List Token) (nodes : List Expr) : Prop :=
  ∀ x, .number x ∈ nodes → ∃ t ∈ ts, t.Denotes x

theorem ReadFrom.mono (us : List Token) (h : ReadFrom ts nodes) (hsub : ∀ t ∈ ts, t ∈ us) :
    ReadFrom us nodes := by
  intro x hx
  obtain ⟨t, ht, hdenotes⟩ := h x hx
  exact ⟨t, hsub t ht, hdenotes⟩

theorem ReadFrom.append (h : ReadFrom ts nodes) (h' : ReadFrom ts nodes') :
    ReadFrom ts (nodes ++ nodes') :=
  fun x hx => (List.mem_append.mp hx).elim (h x) (h' x)

theorem readFrom_leaf (h : t.Denotes x) : ReadFrom [t] [.number x] := by
  intro y hy
  cases List.mem_singleton.mp hy
  exact ⟨t, List.mem_singleton_self t, h⟩

theorem readFrom_node (ts : List Token) (h : ∀ x, node ≠ .number x) : ReadFrom ts [node] :=
  fun x hx => absurd (List.mem_singleton.mp hx).symm (h x)

theorem ReadFrom.binary {op : String} {left right : Expr} (h : ReadFrom ts left.postorder)
    (h' : ReadFrom us right.postorder) (t : Token) :
    ReadFrom (ts ++ t :: us) (Expr.binary op left right).postorder :=
  ((h.mono _ (by simp +contextual)).append (h'.mono _ (by simp +contextual))).append
    (readFrom_node _ nofun)

theorem Spells.readFrom (h : Spells phrase ts k) : ReadFrom ts phrase.nodes := by
  induction h with
  | number hk hx => exact readFrom_leaf (.inl ⟨hk, hx⟩)
  | constant hk hx => exact readFrom_leaf (.inr ⟨hk, hx⟩)
  | name => exact readFrom_node _ (by simp)
  | negation _ _ ih =>
    simp only [Phrase.nodes, Phrase.trees, List.flatMap_singleton] at ih ⊢
    exact (ih.mono _ (by simp +contextual)).append (readFrom_node _ (by simp))
  | group _ _ _ ih => exact ih.mono _ (by simp +contextual)
  | call _ _ _ _ ih =>
    simp only [Phrase.nodes, Phrase.trees, List.flatMap_singleton, Expr.postorder,
      Expr.postorderAll_eq_flatMap] at ih ⊢
    exact (ih.mono _ (by simp +contextual)).append (readFrom_node _ (by simp))
  | first _ ih | base _ ih | ofPower _ ih | term _ ih | single _ ih => exact ih
  | next _ _ _ ih ih' =>
    rw [Phrase.nodes, Phrase.trees, List.flatMap_append]
    exact (ih.mono _ (by simp +contextual)).append (ih'.mono _ (by simp +contextual))
  | raised _ _ _ ih ih' | link _ _ _ ih ih' =>
    simp only [Phrase.nodes, Phrase.trees, List.flatMap_singleton] at ih ih' ⊢
    exact ih.binary ih' _

theorem Vocabulary.plain_of_constant {word : String} (h : constant? word = some x) :
    Number.Plain x := by
  have htable : ∀ entry ∈ constantTable, Number.Plain entry.2 := by
    intro entry hentry
    simp only [constantTable, List.mem_cons, List.not_mem_nil, or_false] at hentry
    rcases hentry with rfl | rfl <;> exact ⟨by decide +kernel, by decide +kernel⟩
  obtain ⟨before, after, hlookup, -⟩ := List.lookup_eq_some_iff.mp h
  exact htable (lower word, x) (by rw [hlookup]; simp)

/-- A number in a parsed tree is read from one of the tokens. -/
theorem Expr.readFrom_of_parse {tree : Expr} (h : Expr.parse tokens = .ok tree) :
    ReadFrom tokens tree.postorder := by
  obtain ⟨i, n, hs, -⟩ := exists_spells_of_parse h
  have hread := hs.readFrom
  simp only [Phrase.nodes, Phrase.trees, List.flatMap_singleton] at hread
  exact hread.mono _ fun t ht => (List.takeWhile_sublist _).subset ht

end Trees

/-- The literals of a source are finite and have no sign. Its number tokens are numerals with no more
characters than a token may have, and stand for less than 10²⁵⁶. If the source itself is such a numeral,
its value is the number nearest to what it stands for, whatever the environment. -/
theorem literals_finite (source : String) :
    (∀ tree, readExpr source = .ok tree → ∀ x, .number x ∈ tree.postorder →
      x.isFinite ∧ isNegative x = false) ∧
    (∀ tokens, tokenize source = .ok tokens → ∀ t ∈ tokens, t.kind = .number →
      t.lexeme.length ≤ lexemeLimit ∧
        ∃ n : Numeral, n.text = t.lexeme ∧ n.value < 10 ^ lexemeLimit) ∧
    ∀ n : Numeral, n.text = source → source.length ≤ lexemeLimit →
      ∃ x, (∀ env, calculate source env = .ok x) ∧ x.isFinite ∧ isNegative x = false ∧
        IsNearest n.value (rank x) := by
  refine ⟨fun tree htree x hx => ?_, fun tokens htokens t ht hkind => ?_, ?_⟩
  · obtain ⟨tokens, htokens, hparse⟩ := readExpr_eq_ok_iff.mp htree
    have hplain : Plain x := by
      obtain ⟨t, ht, ⟨hkind, hread⟩ | ⟨-, hconstant⟩⟩ := Expr.readFrom_of_parse hparse x hx
      · obtain ⟨n, htext, hlength⟩ := (munch_of_tokenize htokens).numerals t ht hkind
        rw [← htext, n.read?_text] at hread
        cases hread
        exact (n.rounded hlength).1
      · exact Vocabulary.plain_of_constant hconstant
    exact ⟨isFinite_of_rank_lt hplain.1, hplain.2⟩
  · obtain ⟨n, htext, hlength⟩ := (munch_of_tokenize htokens).numerals t ht hkind
    rw [← htext, n.length_text]
    exact ⟨hlength, n, rfl, n.value_lt.trans_le (pow_le_pow_right₀ (by norm_num) hlength)⟩
  · rintro n rfl hlength
    rw [n.length_text] at hlength
    obtain ⟨hplain, hnearest⟩ := n.rounded hlength
    exact ⟨_, n.calculate_text hlength, isFinite_of_rank_lt hplain.1, hplain.2, hnearest⟩

/-- With all the digits that a token may have, the greatest numeral is finite. -/
theorem literals_finite_greatest :
    ∃ n : Numeral, n.text = String.ofList (List.replicate lexemeLimit '9') ∧
      ∃ x, (∀ env, calculate n.text env = .ok x) ∧ x.isFinite ∧ isNegative x = false ∧
        IsNearest n.value (rank x) := by
  have hdigits : ∀ c ∈ List.replicate lexemeLimit '9', c.isDigit := by
    intro c hc
    rw [List.eq_of_mem_replicate hc]
    rfl
  obtain ⟨n, hn⟩ : ∃ n : Numeral, n.chars = List.replicate lexemeLimit '9' :=
    ⟨⟨_, [], List.cons_ne_nil _ _, hdigits, nofun⟩, if_pos rfl⟩
  obtain ⟨-, -, hvalue⟩ := literals_finite n.text
  refine ⟨n, congrArg String.ofList hn, hvalue n rfl ?_⟩
  rw [n.length_text, hn, List.length_replicate]

end Reckon
