import Reckon.Proofs.Reading

/-!
# The grammar

Which lists of tokens spell which trees, and with how many levels. Chains are derived from the left,
so the tree of a chain grows with its links, and a phrase that is a chain says how many links it has.

The levels of a phrase are those that are open at once while it is read. A group, a call, a sign and
the exponent of a power add one to what they hold. The operand behind the `i`-th link of a chain adds
`i`, since the levels of a chain are left together: the levels of `o₀ op o₁ op … op oₙ` are the
greatest of `i` plus the levels of `oᵢ`.

The grammar knows no limit. That the parser accepts what it derives within the limit is stated in
`Reckon.Proofs.Acceptance`.
-/
namespace Reckon
open Text

/-- A symbol of the grammar with the tree or the trees that it stands for. -/
inductive Phrase where
  | chain (k : Chain) (links : Nat) (tree : Expr)
  | operand (k : Chain) (tree : Expr)
  | power (tree : Expr)
  | factor (tree : Expr)
  | arguments (trees : List Expr)

/-- The tokens spell the phrase with this many levels. -/
inductive Spells : Phrase → List Token → Nat → Prop
  | number {t : Token} {x : Float} :
      t.kind = .number → Number.read? t.lexeme = some x → Spells (.factor (.number x)) [t] 0
  | name {t : Token} : t.kind = .identifier → Spells (.factor (.var t.lexeme)) [t] 0
  | constant {t : Token} {x : Float} :
      t.kind = .constant → Vocabulary.constant? t.lexeme = some x →
      Spells (.factor (.number x)) [t] 0
  | negation {t : Token} {ts : List Token} {e : Expr} {n : Nat} :
      t.Among ["-"] → Spells (.factor e) ts n →
      Spells (.factor (.unary t.lexeme e)) (t :: ts) (1 + n)
  | group {l r : Token} {ts : List Token} {e : Expr} {i n : Nat} :
      l.kind = .lparen → Spells (.chain .sum i e) ts n → r.kind = .rparen →
      Spells (.factor e) (l :: (ts ++ [r])) (1 + n)
  | call {f l r : Token} {ts : List Token} {es : List Expr} {n : Nat} :
      f.kind = .function → l.kind = .lparen → Spells (.arguments es) ts n → r.kind = .rparen →
      Spells (.factor (.call f.lexeme es)) (f :: l :: (ts ++ [r])) (1 + n)
  | first {ts : List Token} {e : Expr} {i n : Nat} :
      Spells (.chain .sum i e) ts n → Spells (.arguments [e]) ts n
  | next {t : Token} {ts us : List Token} {es : List Expr} {e : Expr} {i m n : Nat} :
      Spells (.arguments es) ts n → t.kind = .comma → Spells (.chain .sum i e) us m →
      Spells (.arguments (es ++ [e])) (ts ++ t :: us) (max n m)
  | base {ts : List Token} {e : Expr} {n : Nat} :
      Spells (.factor e) ts n → Spells (.power e) ts n
  | raised {t : Token} {ts us : List Token} {b e : Expr} {m n : Nat} :
      Spells (.factor b) ts n → t.Among ["^"] → Spells (.power e) us m →
      Spells (.power (.binary t.lexeme b e)) (ts ++ t :: us) (max n (1 + m))
  | ofPower {ts : List Token} {e : Expr} {n : Nat} :
      Spells (.power e) ts n → Spells (.operand .product e) ts n
  | term {ts : List Token} {e : Expr} {i n : Nat} :
      Spells (.chain .product i e) ts n → Spells (.operand .sum e) ts n
  | single {k : Chain} {ts : List Token} {e : Expr} {n : Nat} :
      Spells (.operand k e) ts n → Spells (.chain k 0 e) ts n
  | link {k : Chain} {t : Token} {ts us : List Token} {left right : Expr} {i m n : Nat} :
      Spells (.chain k i left) ts n → t.Among k.operators → Spells (.operand k right) us m →
      Spells (.chain k (i + 1) (.binary t.lexeme left right)) (ts ++ t :: us) (max n (i + 1 + m))

namespace Spells
variable {phrase : Phrase} {ts : List Token} {n : Nat}

theorem ne_eof (h : Spells phrase ts n) : ∀ t ∈ ts, t.kind ≠ .eof := by
  induction h with
  | number hk | name hk | constant hk => simp [hk]
  | negation ht _ ih => simpa [ht.1] using ih
  | group hl _ hr ih => simpa [hl, hr, or_imp, forall_and] using ih
  | call hf hl _ hr ih => simpa [hf, hl, hr, or_imp, forall_and] using ih
  | next _ hk _ ih ih' => simpa [hk, or_imp, forall_and] using ⟨ih, ih'⟩
  | raised _ ht _ ih ih' | link _ ht _ ih ih' => simpa [ht.1, or_imp, forall_and] using ⟨ih, ih'⟩
  | first _ ih | base _ ih | ofPower _ ih | term _ ih | single _ ih => exact ih

theorem links_le {k : Chain} {i : Nat} {e : Expr} (h : Spells (.chain k i e) ts n) : i ≤ n := by
  cases h with
  | single => exact Nat.zero_le n
  | link => omega

end Spells

end Reckon
