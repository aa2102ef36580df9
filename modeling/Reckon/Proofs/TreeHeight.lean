import Reckon.Proofs.Levels
import Reckon.Proofs.Writing

/-!
# The height of parsed trees

The limit is on the levels that are open at once, and that is not a limit on the height of the tree,
which is the length of its longest path (`path_iff`).
An operand in front of a link ends up below it, but was read before the link entered its level, and
the levels of a chain are left when the chain ends. So with `n` levels a power is up to `n * n + n`
high, and the products and sums around it add `n` each. Those heights are all reached, already by
sources: a call as the base of a power, `n` links of a product behind it, `n` links of a sum behind
that, and all of it again as the argument of the next call.

The height stays within the number of levels allowed only as long as fifteen levels are not open at
once.

In the middle of a parse the levels that are left take the place of the limit: the expression that is
read there is as high as they allow, and no higher.
-/
namespace Reckon

namespace Expr

mutual

/-- The number of edges on the longest path from the root to a leaf. -/
def height : Expr → Nat
  | number _ | var _ => 0
  | unary _ e => e.height + 1
  | binary _ l r => max l.height r.height + 1
  | call _ args => heightAll args

def heightAll : List Expr → Nat
  | [] => 0
  | e :: rest => max (e.height + 1) (heightAll rest)

end

/-- A path of this many edges goes down from the root. -/
inductive Path : Expr → Nat → Prop
  | root {e : Expr} : Path e 0
  | down {e child : Expr} {n : Nat} : child ∈ e.children → Path child n → Path e (n + 1)

theorem height_eq_heightAll (e : Expr) : e.height = heightAll e.children := by
  cases e <;> simp [height, heightAll, children, Nat.add_max_add_right]

theorem lt_heightAll_iff {es : List Expr} {n : Nat} :
    n < heightAll es ↔ ∃ e ∈ es, n ≤ e.height := by
  induction es with
  | nil => simp [heightAll]
  | cons e es ih =>
    have hmax : n < max (e.height + 1) (heightAll es) ↔ n ≤ e.height ∨ n < heightAll es := by omega
    simp [heightAll, hmax, ih]

/-- The height is the greatest number of edges on a path. -/
theorem path_iff {e : Expr} {n : Nat} : Path e n ↔ n ≤ e.height := by
  induction n generalizing e with
  | zero => exact ⟨fun _ => Nat.zero_le _, fun _ => .root⟩
  | succ n ih =>
    rw [height_eq_heightAll, Nat.succ_le_iff, lt_heightAll_iff]
    constructor
    · rintro (_ | ⟨hchild, hpath⟩)
      exact ⟨_, hchild, ih.mp hpath⟩
    · rintro ⟨child, hchild, hn⟩
      exact .down hchild (ih.mpr hn)

theorem heightAll_append (es : List Expr) (e : Expr) :
    heightAll (es ++ [e]) = max (heightAll es) (e.height + 1) := by
  induction es with
  | nil => simp [heightAll]
  | cons e' es ih => rw [List.cons_append, heightAll, heightAll, ih, Nat.max_assoc]

/-- How high a power can be with this many levels. -/
def reach (levels : Nat) : Nat := levels * levels + levels

theorem reach_succ (n : Nat) : reach (1 + n) = reach n + 2 * n + 2 := by
  simp only [reach, Nat.add_mul, Nat.mul_add]
  omega

theorem reach_mono {m n : Nat} (h : m ≤ n) : reach m ≤ reach n :=
  Nat.add_le_add (Nat.mul_le_mul h h) h

end Expr

open Reckon.Expr

/-- A bound on the height of what a phrase with this many levels stands for. -/
def Phrase.Within (phrase : Phrase) (n : Nat) : Prop :=
  match phrase with
  | chain .product i e => e.height ≤ i + reach n
  | chain .sum i e => e.height ≤ i + (reach n + n)
  | operand .product e => e.height ≤ reach n
  | operand .sum e => e.height ≤ reach n + n
  | power e => e.height ≤ reach n
  | factor e => e.height ≤ reach n - 1
  | arguments es => heightAll es ≤ reach n + 2 * n + 1

theorem Spells.within {phrase : Phrase} {ts : List Token} {n : Nat} (h : Spells phrase ts n) :
    phrase.Within n := by
  induction h with
  | number | name | constant => exact Nat.zero_le _
  | @negation t ts e n _ _ ih =>
    simp only [Phrase.Within, height, reach_succ] at ih ⊢
    omega
  | @group l r ts e i n _ hs _ ih =>
    have hlinks := hs.links_le
    simp only [Phrase.Within, reach_succ] at ih ⊢
    omega
  | @call f l r ts es n _ _ _ _ ih =>
    simp only [Phrase.Within, height, reach_succ] at ih ⊢
    omega
  | @first ts e i n hs ih =>
    have hlinks := hs.links_le
    simp only [Phrase.Within, heightAll] at ih ⊢
    omega
  | @next t ts us es e i m n _ _ hs ih ih' =>
    have hlinks := hs.links_le
    have hm := reach_mono (Nat.le_max_right n m)
    have hn := reach_mono (Nat.le_max_left n m)
    simp only [Phrase.Within, heightAll_append] at ih ih' ⊢
    omega
  | base _ ih =>
    simp only [Phrase.Within] at ih ⊢
    omega
  | @raised t ts us b e m n _ _ _ ih ih' =>
    have hm := reach_mono (Nat.le_max_right n (1 + m))
    have hn := reach_mono (Nat.le_max_left n (1 + m))
    rw [reach_succ] at hm
    simp only [Phrase.Within, height] at ih ih' ⊢
    omega
  | ofPower _ ih => exact ih
  | @term ts e i n hs ih =>
    have hlinks := hs.links_le
    simp only [Phrase.Within] at ih ⊢
    omega
  | @single k ts e n _ ih =>
    cases k <;> simp only [Phrase.Within] at ih ⊢ <;> omega
  | @link k t ts us left right i m n _ _ _ ih ih' =>
    have hm := reach_mono (show m ≤ max n (i + 1 + m) by omega)
    have hn := reach_mono (Nat.le_max_left n (i + 1 + m))
    cases k <;> simp only [Phrase.Within, height] at ih ih' ⊢ <;> omega

namespace Phrase.Written
variable {e : Expr} {text : List Char} {i m n : Nat}

theorem unknown : (factor (.var "x")).Written ['x'] 0 :=
  .name rfl (by decide) (by decide +kernel) (by decide +kernel)

/-- Links make a chain higher by one each, for as long as a level is left. -/
theorem exists_links (c : Chain) (h : (Phrase.operand c e).Written text m) (hm : m ≤ n)
    (hi : i ≤ n) :
    ∃ e' text' k, (chain c i e').Written text' k ∧ k ≤ n ∧ e'.height = e.height + i := by
  induction i with
  | zero => exact ⟨e, text, m, h.imp fun _ => .single, hm, rfl⟩
  | succ i ih =>
    obtain ⟨e', text', k, hchain, hk, heq⟩ := ih (by omega)
    obtain ⟨op, hop⟩ : ∃ op, op ∈ c.operators := by cases c <;> exact ⟨_, List.mem_cons_self⟩
    refine ⟨_, _, _, hchain.link hop (unknown.operand c), by omega, ?_⟩
    simp only [height]
    omega

/-- Every height that the levels allow is reached. -/
theorem exists_height {high : Nat} (n : Nat) (hhigh : high ≤ reach n + 2 * n) :
    ∃ i e text m, (chain .sum i e).Written text m ∧ m ≤ n ∧ e.height = high := by
  induction n generalizing high with
  | zero =>
    have hzero : high = 0 := Nat.le_zero.mp hhigh
    exact ⟨0, _, _, 0, unknown.expression, Nat.le_refl 0, by rw [hzero, height]⟩
  | succ n ih =>
    have hreach : reach (n + 1) = reach n + 2 * n + 2 := by rw [Nat.add_comm, reach_succ]
    rcases Nat.lt_or_ge (reach n + 2 * n) high with hlt | hle
    · obtain ⟨i, e, text, m, hwritten, hm, heq⟩ := ih (Nat.le_refl _)
      have habs : "abs" ∈ Vocabulary.functionNames := by decide +kernel
      have hcall := (hwritten.imp fun _ => Spells.first).call habs
      have hcallHeight : (Expr.call "abs" [e]).height = reach n + 2 * n + 1 := by
        simp only [height, heightAll]
        omega
      rcases Nat.lt_or_ge (reach n + 2 * n + 1) high with hlt | hle
      · obtain ⟨a, b, ha, hb, hsum⟩ : ∃ a b, a ≤ n + 1 ∧ b ≤ n + 1 ∧
            high = reach n + 2 * n + 2 + a + b := by
          refine ⟨min (high - (reach n + 2 * n + 2)) (n + 1),
            high - (reach n + 2 * n + 2) - min (high - (reach n + 2 * n + 2)) (n + 1), ?_⟩
          omega
        have hpower := hcall.raised (unknown.imp fun _ => Spells.base)
        obtain ⟨e₁, text₁, k₁, hproduct, hk₁, heq₁⟩ :=
          (hpower.imp fun _ => Spells.ofPower).exists_links .product (by omega) ha
        obtain ⟨e₂, text₂, k₂, hsum', hk₂, heq₂⟩ :=
          (hproduct.imp fun _ => Spells.term).exists_links .sum hk₁ hb
        refine ⟨b, e₂, text₂, k₂, hsum', hk₂, ?_⟩
        rw [heq₂, heq₁, height, hcallHeight, height]
        omega
      · exact ⟨0, _, _, _, hcall.expression, by omega, by omega⟩
    · obtain ⟨i, e, text, m, hwritten, hm, heq⟩ := ih hle
      exact ⟨i, e, text, m, hwritten, by omega, heq⟩

end Phrase.Written

namespace Expr

/-- What is spelled within so many levels is no higher than they allow. -/
theorem height_le_of_spells {tree : Expr} {ts : List Token} {links levels n : Nat}
    (h : Spells (.chain .sum links tree) ts levels) (hlevels : levels ≤ n) :
    tree.height ≤ n * n + 3 * n := by
  have hwithin : tree.height ≤ links + (reach levels + levels) := h.within
  have hlinks := h.links_le
  have hreach := reach_mono hlevels
  simp only [reach] at hreach hwithin
  omega

theorem height_le_of_parse {tokens : List Token} {tree : Expr} (h : Expr.parse tokens = .ok tree) :
    tree.height ≤ depthLimit * depthLimit + 3 * depthLimit := by
  obtain ⟨i, n, hs, hn⟩ := exists_spells_of_parse h
  exact height_le_of_spells hs hn

theorem exists_parse_of_height {high : Nat} (h : high ≤ depthLimit * depthLimit + 3 * depthLimit) :
    ∃ source tokens tree, tokenize source = .ok tokens ∧ Expr.parse tokens = .ok tree ∧
      tree.height = high := by
  have hhigh : high ≤ reach depthLimit + 2 * depthLimit := by
    simp only [reach]
    omega
  obtain ⟨i, e, text, m, hwritten, hm, heq⟩ := Phrase.Written.exists_height depthLimit hhigh
  rw [← String.toList_ofList (l := text)] at hwritten
  obtain ⟨tokens, htokens, hparse, -⟩ := parse_of_written hwritten
  exact ⟨_, tokens, e, htokens, hparse hm, heq⟩

theorem exists_parse_iff_height_le {high : Nat} :
    (∃ tokens tree, Expr.parse tokens = .ok tree ∧ tree.height = high) ↔
      high ≤ depthLimit * depthLimit + 3 * depthLimit := by
  constructor
  · rintro ⟨tokens, tree, hparse, rfl⟩
    exact height_le_of_parse hparse
  · intro h
    obtain ⟨source, tokens, tree, -, hparse, heq⟩ := exists_parse_of_height h
    exact ⟨tokens, tree, hparse, heq⟩

/-- With as many levels open at once, no tree is higher than the limit on levels. -/
theorem height_le_depthLimit_iff (n : Nat) :
    (∀ tokens tree links levels, Spells (.chain .sum links tree) tokens levels → levels ≤ n →
      tree.height ≤ depthLimit) ↔ n ≤ 14 := by
  constructor
  · intro h
    apply Nat.le_of_not_lt
    intro hlt
    obtain ⟨i, e, text, m, hwritten, hm, heq⟩ :=
      Phrase.Written.exists_height 15 (Nat.le_refl _)
    obtain ⟨ts, hs, -⟩ := hwritten 0
    have hheight := h ts e i m hs (by omega)
    rw [heq] at hheight
    exact absurd hheight (by decide)
  · intro hn tokens tree links levels hs hlevels
    have hwithin : tree.height ≤ links + (reach levels + levels) := hs.within
    have hlinks := hs.links_le
    have hreach : reach levels ≤ 210 := reach_mono (Nat.le_trans hlevels hn)
    have hlimit : depthLimit = 256 := rfl
    omega

/-- The heights of the trees that are parsed, from tokens and from sources, and the levels that a
tree may need and still be no higher than their limit. -/
theorem height_of_parse_iff (high levels : Nat) :
    ((∃ tokens tree, Expr.parse tokens = .ok tree ∧ tree.height = high) ↔
      high ≤ depthLimit * depthLimit + 3 * depthLimit) ∧
    ((∃ source tokens tree, tokenize source = .ok tokens ∧ Expr.parse tokens = .ok tree ∧
      tree.height = high) ↔ high ≤ depthLimit * depthLimit + 3 * depthLimit) ∧
    ((∀ tokens tree links n, Spells (.chain .sum links tree) tokens n → n ≤ levels →
      tree.height ≤ depthLimit) ↔ levels ≤ 14) := by
  refine ⟨exists_parse_iff_height_le, ⟨?_, exists_parse_of_height⟩, height_le_depthLimit_iff levels⟩
  rintro ⟨source, tokens, tree, -, hparse, rfl⟩
  exact height_le_of_parse hparse

theorem height_le_of_reads {c c' : Cursor} {e : Expr} {free : Nat} (h : Reads (.chain .sum) c e c')
    (hfree : c.depth + free = depthLimit) : e.height ≤ free * free + 3 * free := by
  obtain ⟨i, n, ts, -, hs, hn, -⟩ := h.derived (by omega)
  exact height_le_of_spells hs (by omega)

theorem exists_reads_of_height {free high : Nat} (hfree : free ≤ depthLimit)
    (h : high ≤ free * free + 3 * free) :
    ∃ tokens e c', Reads (.chain .sum) ((Cursor.ofTokens tokens).atDepth (depthLimit - free)) e c' ∧
      e.height = high := by
  have hhigh : high ≤ reach free + 2 * free := by
    simp only [reach]
    omega
  obtain ⟨i, e, text, m, hwritten, hm, heq⟩ := Phrase.Written.exists_height free hhigh
  obtain ⟨ts, hs, -⟩ := hwritten 0
  have hend : Ended [] := nofun
  have hmeets := hs.read.chain_meets (p := []) (Nat.sub_le depthLimit free) hend.apart hend.apart
  exact ⟨ts ++ [], e, _, hmeets.1 (by simp only; omega), heq⟩

/-- The heights of the trees of the expressions that are read where so many levels are left, and of
the trees that are parsed. -/
theorem height_of_expression_iff (free high : Nat) :
    ((∃ c e c', Cursor.Reachable c ∧ c.depth + free = depthLimit ∧
        (Production.expression.parse c).result = (.ok e, c') ∧ e.height = high) ↔
      free ≤ depthLimit ∧ high ≤ free * free + 3 * free) ∧
    ((∃ tokens tree, Expr.parse tokens = .ok tree ∧ tree.height = high) ↔ high ≤ 66304) := by
  refine ⟨⟨?_, ?_⟩, exists_parse_iff_height_le⟩
  · rintro ⟨c, e, c', -, hdepth, hparse, rfl⟩
    have hr : Reads (.chain .sum) c e c' := Production.expression.result_parse_eq_ok_iff.mp hparse
    exact ⟨by omega, height_le_of_reads hr hdepth⟩
  · rintro ⟨hfree, hhigh⟩
    obtain ⟨tokens, e, c', hr, heq⟩ := exists_reads_of_height hfree hhigh
    have hreachable := Cursor.reachable_ofTokens_atDepth tokens (Nat.sub_le depthLimit free)
    have hparse := Production.expression.result_parse_eq_ok_iff.mpr hr
    exact ⟨_, e, c', hreachable, Nat.sub_add_cancel hfree, hparse, heq⟩

end Expr

end Reckon
