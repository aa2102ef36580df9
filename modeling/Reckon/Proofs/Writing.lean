import Reckon.Proofs.Acceptance
import Reckon.Proofs.MaximalMunch

/-!
# Writing phrases

A phrase is written by a text if the text is scanned, from whatever position on, into tokens that
spell the phrase. What follows the text may not go on with its last run; a symbol and a blank are
never gone on with, so behind them anything may follow. Texts of phrases are put together in the way
that the grammar puts phrases together, with the levels added up in the same way, and a written
expression is parsed within the limit and refused beyond it.
-/
namespace Reckon
open Text

/-- No run goes on into the text. -/
def Parted (text : List Char) : Prop := ∀ c ∈ text.head?, ¬ isNamePart c ∧ c ≠ '.'

/-- At this position the text is scanned into the tokens, if no run goes on behind it. -/
def Scans (text : List Char) (p : Nat) (ts : List Token) : Prop :=
  ∀ rest answer, Parted rest → Munch (p + text.length) rest answer →
    Munch p (text ++ rest) (answer.map (ts ++ ·))

/-- At this position the text is scanned into the tokens, whatever follows. -/
def Separates (text : List Char) (p : Nat) (ts : List Token) : Prop :=
  ∀ rest answer, Munch (p + text.length) rest answer → Munch p (text ++ rest) (answer.map (ts ++ ·))

section Scanning
variable {text text' : List Char} {p : Nat} {ts us : List Token} {c : Char}

theorem map_append_map (ts us : List Token) (answer : Except LexError (List Token)) :
    (answer.map (us ++ ·)).map (ts ++ ·) = answer.map (ts ++ us ++ ·) := by
  cases answer <;> simp [Except.map]

theorem parted_cons (h : ¬ isNamePart c ∧ c ≠ '.') : Parted (c :: text) := by
  intro d hd
  cases hd
  exact h

theorem Scans.tokenize_eq (h : Scans text 0 ts) :
    tokenize (String.ofList text) = .ok (ts ++ [.endAt text.length]) := by
  have hmunch := h [] _ (by simp [Parted]) .done
  rw [List.append_nil, Nat.zero_add] at hmunch
  apply Munch.tokenize_eq
  rwa [String.toList_ofList]

theorem Separates.scans (h : Separates text p ts) : Scans text p ts :=
  fun rest answer _ => h rest answer

theorem Separates.append (h : Separates text p ts) (h' : Separates text' (p + text.length) us) :
    Separates (text ++ text') p (ts ++ us) := by
  intro rest answer hrest
  rw [List.append_assoc, ← map_append_map]
  apply h
  apply h'
  rwa [List.length_append, ← Nat.add_assoc] at hrest

theorem Separates.append_scans (h : Separates text p ts) (h' : Scans text' (p + text.length) us) :
    Scans (text ++ text') p (ts ++ us) := by
  intro rest answer hparted hrest
  rw [List.append_assoc, ← map_append_map]
  apply h
  apply h' _ _ hparted
  rwa [List.length_append, ← Nat.add_assoc] at hrest

theorem Scans.append_separates (h : Scans text p ts) (hparted : ∀ rest, Parted (text' ++ rest))
    (h' : Separates text' (p + text.length) us) : Separates (text ++ text') p (ts ++ us) := by
  intro rest answer hrest
  rw [List.append_assoc, ← map_append_map]
  apply h _ _ (hparted rest)
  apply h'
  rwa [List.length_append, ← Nat.add_assoc] at hrest

theorem separates_blank (h : isBlank c) : Separates [c] p [] := by
  intro rest answer hrest
  cases answer <;> exact .blank h hrest

theorem separates_blanks {blanks : List Char} (h : ∀ c ∈ blanks, isBlank c) :
    Separates blanks p [] := by
  induction blanks generalizing p with
  | nil =>
    intro rest answer hrest
    cases answer <;> exact hrest
  | cons c blanks ih =>
    have hfirst : Separates [c] p [] := separates_blank (h c List.mem_cons_self)
    exact hfirst.append (ih fun d hd => h d (List.mem_cons_of_mem c hd))

theorem not_part_of_isBlank (h : isBlank c) : ¬ isNamePart c ∧ c ≠ '.' := by
  constructor
  · intro hpart
    exact not_isBlank_of_isNamePart hpart h
  · rintro rfl
    exact absurd h (by decide)

theorem Scans.append_blanks {blanks : List Char} (h : Scans text p ts)
    (hblanks : ∀ c ∈ blanks, isBlank c) : Scans (text ++ blanks) p ts := by
  intro rest answer hparted hrest
  rw [List.append_assoc]
  have hbehind := separates_blanks (p := p + text.length) hblanks rest answer
  rw [List.length_append, ← Nat.add_assoc] at hrest
  have hanswer := h (blanks ++ rest) _ ?_ (hbehind hrest)
  · rwa [map_append_map, List.append_nil] at hanswer
  · cases blanks with
    | nil => exact hparted
    | cons c blanks => exact parted_cons (not_part_of_isBlank (hblanks c List.mem_cons_self))

theorem separates_symbol {kind : TokenKind} (h : symbolKind c = some kind) :
    Separates [c] p [⟨kind, String.ofList [c], ⟨p, p + 1⟩⟩] := by
  have hhas : (Language.symbol kind).Has [c] := ⟨c, rfl, h⟩
  have htakes : ∀ rest, (Language.symbol kind).Takes [c] rest := by
    intro rest
    apply hhas.takes
    rintro d - ⟨e, he, -⟩
    cases he
  have htoken : (Language.symbol kind).token [c] p = ⟨kind, String.ofList [c], ⟨p, p + 1⟩⟩ :=
    hhas.token_eq nofun p
  have hpoint : [c].getLast? ≠ some '.' := by
    have hfacts := symbol_facts (Option.isSome_of_eq_some h)
    simpa using hfacts.2.2.2.2
  intro rest answer hrest
  rw [← htoken]
  exact .token (htakes rest) (by simp [lexemeLimit]) hpoint hrest

/-- A text in parentheses is scanned with its tokens between those of the parentheses. -/
theorem Scans.parenthesised (h : Scans text (p + 1) ts) :
    Separates ('(' :: (text ++ [')'])) p
      (⟨.lparen, "(", ⟨p, p + 1⟩⟩ ::
        (ts ++ [⟨.rparen, ")", ⟨p + 1 + text.length, p + 1 + text.length + 1⟩⟩])) := by
  have hopen : symbolKind '(' = some .lparen := rfl
  have hclose : symbolKind ')' = some .rparen := rfl
  have hparted : ∀ rest, Parted ([')'] ++ rest) := fun rest => parted_cons (by decide)
  exact (separates_symbol hopen).append (h.append_separates hparted (separates_symbol hclose))

/-- A run that is short enough and finished is scanned if no run goes on behind it. -/
theorem Language.Has.scans {l : Language} {run : List Char} (h : l.Has run)
    (hlength : run.length ≤ lexemeLimit) (hlast : run.getLast? ≠ some '.') (p : Nat) :
    Scans run p [l.token run p] := by
  intro rest answer hparted hrest
  exact .token (h.takes fun c hc => h.not_grown (hparted c hc)) hlength hlast hrest

end Scanning

theorem word_facts : ∀ name ∈ Vocabulary.functionNames,
    isName name.toList ∧ name.toList.length ≤ lexemeLimit ∧ lower name = name := by
  decide +kernel

/-- A text between two phrases that is scanned into one token. -/
structure Separator (text : List Char) (kind : TokenKind) (lexeme : String) : Prop where
  parted : ∀ rest, Parted (text ++ rest)
  separates : ∀ p, ∃ t : Token, t.kind = kind ∧ t.lexeme = lexeme ∧ Separates text p [t]

theorem separator_operator {op : String} (h : op ∈ ["+", "-", "*", "/", "^"]) :
    Separator (' ' :: op.toList ++ [' ']) .operator op := by
  obtain ⟨c, rfl, hc⟩ : ∃ c, op = String.ofList [c] ∧ symbolKind c = some .operator := by
    simp only [List.mem_cons, List.not_mem_nil, or_false] at h
    rcases h with rfl | rfl | rfl | rfl | rfl <;> exact ⟨_, rfl, rfl⟩
  constructor
  · exact fun rest => parted_cons (by decide)
  · intro p
    have hblank : isBlank ' ' := by decide
    have hscan := ((separates_blank (p := p) hblank).append (separates_symbol hc)).append
      (separates_blank hblank)
    exact ⟨_, rfl, rfl, by simpa using hscan⟩

theorem separator_comma : Separator [',', ' '] .comma "," := by
  constructor
  · exact fun rest => parted_cons (by decide)
  · intro p
    have hcomma : symbolKind ',' = some .comma := rfl
    have hblank : isBlank ' ' := by decide
    have hscan := (separates_symbol (p := p) hcomma).append (separates_blank hblank)
    exact ⟨_, rfl, rfl, by simpa using hscan⟩

/-- The text is scanned into tokens that spell the phrase with this many levels. -/
def Phrase.Written (phrase : Phrase) (text : List Char) (n : Nat) : Prop :=
  ∀ p, ∃ ts, Spells phrase ts n ∧ Scans text p ts

namespace Phrase.Written
variable {phrase phrase' phrase'' : Phrase} {text text' sep : List Char} {k m n : Nat}

theorem imp (h : phrase.Written text n) (hspells : ∀ ts, Spells phrase ts n → Spells phrase' ts m) :
    phrase'.Written text m := by
  intro p
  obtain ⟨ts, hts, hscans⟩ := h p
  exact ⟨ts, hspells ts hts, hscans⟩

theorem behind_blanks {blanks : List Char} (h : phrase.Written text n)
    (hblanks : ∀ c ∈ blanks, isBlank c) : phrase.Written (blanks ++ text) n := by
  intro p
  obtain ⟨ts, hts, hscans⟩ := h (p + blanks.length)
  exact ⟨ts, hts, (separates_blanks hblanks).append_scans hscans⟩

theorem joined {kind : TokenKind} {lexeme : String} (h : phrase.Written text m)
    (hsep : Separator sep kind lexeme) (h' : phrase'.Written text' n)
    (hspells : ∀ (t : Token) ts us, t.kind = kind → t.lexeme = lexeme → Spells phrase ts m →
      Spells phrase' us n → Spells phrase'' (ts ++ t :: us) k) :
    phrase''.Written (text ++ sep ++ text') k := by
  intro p
  obtain ⟨ts, hts, hscans⟩ := h p
  obtain ⟨t, hkind, hlexeme, hseparates⟩ := hsep.separates (p + text.length)
  obtain ⟨us, hus, hscans'⟩ := h' (p + (text ++ sep).length)
  refine ⟨ts ++ t :: us, hspells t ts us hkind hlexeme hts hus, ?_⟩
  rw [List.append_cons]
  exact (hscans.append_separates hsep.parted hseparates).append_scans hscans'

variable {e e' left right : Expr} {es : List Expr} {c : Chain} {i : Nat}

theorem number {x : Float} (h : IsNumeralStart text) (hlast : text.getLast? ≠ some '.')
    (hlength : text.length ≤ lexemeLimit) (hread : Number.read? (String.ofList text) = some x) :
    (factor (.number x)).Written text 0 := by
  intro p
  have hhas : Language.numeral.Has text := h
  have hscans := hhas.scans hlength hlast p
  rw [hhas.token_eq nofun] at hscans
  exact ⟨_, .number (t := ⟨.number, String.ofList text, _⟩) rfl hread, hscans⟩

theorem name {name : String} (h : isName name.toList) (hlength : name.length ≤ lexemeLimit)
    (hfunction : ¬ Vocabulary.isFunctionName name) (hconstant : Vocabulary.constant? name = none) :
    (factor (.var name)).Written name.toList 0 := by
  intro p
  have hhas : Language.name.Has name.toList := h
  have hscans := hhas.scans (by rwa [String.length_toList]) (getLast?_name_ne_point h) p
  rw [Language.token, String.ofList_toList, if_neg hfunction, hconstant,
    Option.isSome_none, if_neg Bool.false_ne_true] at hscans
  exact ⟨_, .name (t := ⟨.identifier, name, _⟩) rfl, hscans⟩

theorem operand (c : Chain) (h : (factor e).Written text n) : (operand c e).Written text n := by
  have hproduct : (Phrase.operand .product e).Written text n := h.imp fun _ hs => .ofPower (.base hs)
  cases c with
  | product => exact hproduct
  | sum => exact hproduct.imp fun _ hs => .term (.single hs)

theorem expression (h : (factor e).Written text n) : (chain .sum 0 e).Written text n :=
  (h.operand .sum).imp fun _ hs => .single hs

theorem link {op : String} (h : (chain c i left).Written text m) (hop : op ∈ c.operators)
    (h' : (Phrase.operand c right).Written text' n) :
    (chain c (i + 1) (.binary op left right)).Written (text ++ (' ' :: op.toList ++ [' ']) ++ text')
      (max m (i + 1 + n)) := by
  refine h.joined (separator_operator ?_) h' ?_
  · cases c <;> simp [Chain.operators] at hop <;> rcases hop with rfl | rfl <;> simp
  · rintro t ts us hkind rfl hts hus
    exact .link hts ⟨hkind, hop⟩ hus

theorem raised (h : (factor e).Written text m) (h' : (power e').Written text' n) :
    (power (.binary "^" e e')).Written (text ++ (' ' :: "^".toList ++ [' ']) ++ text')
      (max m (1 + n)) := by
  refine h.joined (separator_operator (by simp)) h' ?_
  intro t ts us hkind hlexeme hts hus
  rw [← hlexeme]
  exact .raised hts ⟨hkind, by simp [hlexeme]⟩ hus

/-- An operation on two factors is an expression, whatever its operator. -/
theorem operation {op : String} (h : (factor left).Written text m)
    (hop : op ∈ ["+", "-", "*", "/", "^"]) (h' : (factor right).Written text' n) :
    ∃ i, (chain .sum i (.binary op left right)).Written
      (text ++ (' ' :: op.toList ++ [' ']) ++ text') (max m (1 + n)) := by
  have hproduct : (chain .product 0 left).Written text m := (h.operand .product).imp fun _ => .single
  have hpower : (power right).Written text' n := h'.imp fun _ => .base
  have hsum : ∀ {e text k}, (Phrase.operand .product e).Written text k →
      (chain .sum 0 e).Written text k :=
    fun h => h.imp fun _ hs => .single (.term (.single hs))
  simp only [List.mem_cons, List.not_mem_nil, or_false] at hop
  rcases hop with rfl | rfl | rfl | rfl | rfl
  · exact ⟨_, h.expression.link (by simp [Chain.operators]) (h'.operand .sum)⟩
  · exact ⟨_, h.expression.link (by simp [Chain.operators]) (h'.operand .sum)⟩
  · exact ⟨0, (hproduct.link (by simp [Chain.operators]) (h'.operand .product)).imp
      fun _ hs => .single (.term hs)⟩
  · exact ⟨0, (hproduct.link (by simp [Chain.operators]) (h'.operand .product)).imp
      fun _ hs => .single (.term hs)⟩
  · exact ⟨0, hsum ((h.raised hpower).imp fun _ => .ofPower)⟩

theorem next (h : (arguments es).Written text m) (h' : (chain .sum i e).Written text' n) :
    (arguments (es ++ [e])).Written (text ++ [',', ' '] ++ text') (max m n) :=
  h.joined separator_comma h' fun _ _ _ hkind _ hts hus => .next hts hkind hus

theorem negation (h : (factor e).Written text n) :
    (factor (.unary "-" e)).Written ('-' :: text) (1 + n) := by
  intro p
  have hminus : symbolKind '-' = some .operator := rfl
  obtain ⟨ts, hts, hscans⟩ := h (p + 1)
  refine ⟨_, .negation (t := ⟨.operator, "-", ⟨p, p + 1⟩⟩) ⟨rfl, by simp⟩ hts, ?_⟩
  exact (separates_symbol hminus).append_scans hscans

theorem parenthesised (h : phrase.Written text n) (p : Nat) :
    ∃ l ts r, l.kind = .lparen ∧ Spells phrase ts n ∧ r.kind = .rparen ∧
      Separates ('(' :: (text ++ [')'])) p (l :: (ts ++ [r])) := by
  obtain ⟨ts, hts, hscans⟩ := h (p + 1)
  exact ⟨_, ts, _, rfl, hts, rfl, hscans.parenthesised⟩

theorem group (h : (chain .sum i e).Written text n) :
    (factor e).Written ('(' :: (text ++ [')'])) (1 + n) := by
  intro p
  obtain ⟨l, ts, r, hl, hts, hr, hseparates⟩ := h.parenthesised p
  exact ⟨_, .group hl hts hr, hseparates.scans⟩

theorem call {name : String} (hname : name ∈ Vocabulary.functionNames)
    (h : (arguments es).Written text n) :
    (factor (.call name es)).Written (name.toList ++ '(' :: (text ++ [')'])) (1 + n) := by
  intro p
  obtain ⟨hword, hlength, hlower⟩ := word_facts name hname
  obtain ⟨l, ts, r, hl, hts, hr, hseparates⟩ := h.parenthesised (p + name.toList.length)
  have hhas : Language.name.Has name.toList := hword
  have hfunction : Vocabulary.isFunctionName (String.ofList name.toList) := by
    rw [String.ofList_toList, Vocabulary.isFunctionName, hlower]
    exact List.contains_iff_mem.mpr hname
  have htoken : Language.name.token name.toList p =
      ⟨.function, name, ⟨p, p + name.toList.length⟩⟩ := by
    rw [Language.token, if_pos hfunction, String.ofList_toList, hlower]
  have hscans := hhas.scans hlength (getLast?_name_ne_point hword) p
  rw [htoken] at hscans
  refine ⟨_, .call (f := ⟨.function, name, ⟨p, p + name.toList.length⟩⟩) rfl hl hts hr, ?_⟩
  exact (hscans.append_separates (fun rest => parted_cons (by decide)) hseparates).scans

end Phrase.Written

namespace Expr
variable {text : String} {tree : Expr} {i n : Nat}

/-- A written expression is scanned, and parsed exactly if its levels are within the limit. -/
theorem parse_of_written (h : (Phrase.chain .sum i tree).Written text.toList n) :
    ∃ tokens, tokenize text = .ok tokens ∧
      (n ≤ depthLimit → Expr.parse tokens = .ok tree) ∧
      (depthLimit < n →
        ∃ position, Expr.parse tokens = .error (.nestingTooDeep depthLimit position)) := by
  obtain ⟨ts, hts, hscans⟩ := h 0
  have htokens := hscans.tokenize_eq
  rw [String.ofList_toList] at htokens
  have hbody : body (ts ++ [Token.endAt text.toList.length]) = ts :=
    body_append hts.ne_eof (by simp [Ended, Token.endAt])
  refine ⟨_, htokens, fun hn => ?_, fun hn => ?_⟩
  · exact parse_of_spells (hbody.symm ▸ hts) hn
  · exact parse_of_spells_of_lt (hbody.symm ▸ hts) hn

end Expr

end Reckon
