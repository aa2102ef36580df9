import Reckon.Binary64

/-!
# Decimals

A decimal is a natural number times a power of ten. It is rounded to the nearest binary64 magnitude
exactly, and the decimal of fewest digits that rounds to a given magnitude is found by trying the
powers of ten from the coarsest downwards: on a grid of multiples of one power of ten, a point that
rounds to the magnitude is one of the two points next to it.

The main statements are that the bounds on the exponent, which keep the powers of ten small, change
no result, and that the shortest decimal of a finite magnitude rounds to that magnitude. That no
shorter decimal does is not stated here.
-/
namespace Reckon

/-- The number `coefficient * 10 ^ exponent`. -/
structure Decimal where
  coefficient : Nat
  exponent : Int
deriving DecidableEq, Repr

namespace Decimal
open Binary64

/-- A natural power of ten. -/
def tenTo (n : Nat) : Nat := Nat.pow 10 n

def numerator (d : Decimal) : Nat := d.coefficient * tenTo d.exponent.toNat

def denominator (d : Decimal) : Nat := tenTo (-d.exponent).toNat

/-- Decimals of at least this power of ten are infinite, and those below its inverse are zero. -/
def limit : Nat := 400

/-- The rank of the nearest binary64 magnitude. Where the exponent alone decides, no power of ten is
computed. -/
def nearestRank (d : Decimal) : Nat :=
  if limit ≤ d.exponent then if d.coefficient = 0 then 0 else infinity
  else if d.exponent + d.coefficient.log2 < -limit then 0
  else nearest d.numerator d.denominator

theorem tenTo_pos (n : Nat) : 0 < tenTo n := Nat.pow_pos (by decide)

theorem tenTo_zero : tenTo 0 = 1 := rfl

theorem tenTo_add (m n : Nat) : tenTo (m + n) = tenTo m * tenTo n := Nat.pow_add 10 m n

theorem tenTo_le_tenTo {m n : Nat} (h : m ≤ n) : tenTo m ≤ tenTo n :=
  Nat.pow_le_pow_right (by decide) h

theorem tenTo_eq (n : Nat) : tenTo n = Nat.pow 5 n * 1 <<< n := by
  rw [Nat.one_shiftLeft]
  exact Nat.mul_pow 5 2 n

theorem denominator_pos (d : Decimal) : 0 < d.denominator := tenTo_pos _

theorem shiftLeft_le_tenTo {a b x y : Nat} (n : Nat) (h : 1 <<< a ≤ tenTo b) (hx : x = a * n)
    (hy : y = b * n) : 1 <<< x ≤ tenTo y := by
  simp only [Nat.one_shiftLeft, tenTo, Nat.pow_eq] at h ⊢
  rw [hx, hy, Nat.pow_mul, Nat.pow_mul]
  exact Nat.pow_le_pow_left h n

theorem units_infinity : units infinity = unitsPerOne <<< topExponent := by
  obtain ⟨k, hk⟩ : ∃ k, k = 2046 := ⟨_, rfl⟩
  have hi : infinity = (k + 1) * binade + 0 := by rw [hk]; rfl
  rw [hi, units_binade k 0 binade_pos, Nat.add_zero, binade, unitsPerOne, ← Nat.shiftLeft_add,
    ← Nat.shiftLeft_add]
  congr 1
  rw [hk]; rfl

theorem nearest_eq_infinity {n d : Nat} (hd : 0 < d) (h : d <<< topExponent ≤ n) :
    nearest n d = infinity := by
  have hq : units infinity ≤ n * unitsPerOne / d := by
    rw [Nat.le_div_iff_mul_le hd, units_infinity, Nat.shiftLeft_eq, Nat.mul_assoc, Nat.mul_comm]
    refine Nat.mul_le_mul_right _ ?_
    rwa [Nat.mul_comm, ← Nat.shiftLeft_eq]
  have hr : infinity ≤ rankBelow (n * unitsPerOne / d) := by
    have hlt := (units_rankBelow (n * unitsPerOne / d)).2
    refine Nat.le_of_not_lt fun hc => ?_
    have hc : rankBelow (n * unitsPerOne / d) + 1 ≤ infinity := hc
    rcases Nat.lt_or_eq_of_le hc with hc | hc
    · have := units_lt_units hc
      omega
    · rw [hc] at hlt
      omega
  unfold nearest
  dsimp only
  split
  · exact Nat.min_eq_right hr
  · split <;> exact Nat.min_eq_right (by omega)

theorem nearest_eq_zero {n d : Nat} (h : 2 * (n * unitsPerOne) < d) : nearest n d = 0 := by
  have hq : n * unitsPerOne / d = 0 := Nat.div_eq_of_lt (by omega)
  have h0 : rankBelow 0 = 0 := rfl
  have h1 : units 0 + units 1 = 1 := rfl
  simp only [nearest, hq, h0, Nat.zero_add, h1, Nat.one_mul, h, if_true, Nat.zero_min]

/-- The bounds on the exponent change no result. -/
theorem nearestRank_eq (d : Decimal) : d.nearestRank = nearest d.numerator d.denominator := by
  unfold nearestRank
  split
  · rename_i h
    have hden : d.denominator = 1 := by
      rw [denominator, show (-d.exponent).toNat = 0 by omega, tenTo_zero]
    by_cases h0 : d.coefficient = 0
    · rw [if_pos h0, numerator, h0, Nat.zero_mul, hden]
      exact (nearest_eq_zero (by simp)).symm
    · rw [if_neg h0, hden, nearest_eq_infinity Nat.one_pos]
      have hpow : 1 <<< topExponent ≤ tenTo limit :=
        shiftLeft_le_tenTo (a := 256) (b := 100) 4 (by decide) rfl rfl
      calc 1 <<< topExponent ≤ tenTo limit := hpow
        _ ≤ tenTo d.exponent.toNat := tenTo_le_tenTo (by omega)
        _ ≤ d.numerator := Nat.le_mul_of_pos_left _ (Nat.pos_of_ne_zero h0)
  · split
    · rename_i h
      refine (nearest_eq_zero ?_).symm
      obtain ⟨k, hk⟩ : ∃ k : Nat, (-d.exponent).toNat = d.coefficient.log2 + 1 + (limit + k) :=
        ⟨(-d.exponent).toNat - d.coefficient.log2 - 1 - limit, by omega⟩
      have hnum : d.numerator = d.coefficient := by
        rw [numerator, show d.exponent.toNat = 0 by omega, tenTo_zero, Nat.mul_one]
      have hlt : d.coefficient < tenTo (d.coefficient.log2 + 1) :=
        Nat.lt_of_lt_of_le Nat.lt_log2_self (Nat.pow_le_pow_left (by decide) _)
      have hunits : 2 * unitsPerOne ≤ tenTo limit := by
        rw [unitsPerOne, Nat.mul_comm, ← Nat.pow_one 2, ← Nat.shiftLeft_eq, ← Nat.shiftLeft_add]
        exact shiftLeft_le_tenTo (a := 215) (b := 80) 5 (by decide) rfl rfl
      have hmore : tenTo limit ≤ tenTo (limit + k) := tenTo_le_tenTo (Nat.le_add_right _ _)
      rw [hnum, denominator, hk, tenTo_add (d.coefficient.log2 + 1)]
      calc 2 * (d.coefficient * unitsPerOne) = d.coefficient * (2 * unitsPerOne) := by
            rw [Nat.mul_left_comm]
        _ < tenTo (d.coefficient.log2 + 1) * tenTo (limit + k) :=
            Nat.mul_lt_mul_of_lt_of_le hlt (Nat.le_trans hunits hmore) (tenTo_pos _)
    · rfl

/-- The two points next to a magnitude on the grid of multiples of `10 ^ exponent`, the nearer one
first. At equal distance the greater one comes first. -/
def neighbours (rank : Nat) (exponent : Int) : List Decimal :=
  let amount := units rank * tenTo (-exponent).toNat
  let step := unitsPerOne * tenTo exponent.toNat
  let lower : Decimal := ⟨amount / step, exponent⟩
  let upper : Decimal := ⟨amount / step + 1, exponent⟩
  if 2 * (amount % step) < step then [lower, upper] else [upper, lower]

/-- A power of ten that exceeds the magnitude, found from its power of two. -/
def coarsest (rank : Nat) : Int := ((units rank).log2 - 1073) * 30103 / 100000 + 2

/-- The magnitude itself, with all the digits that its denominator needs. -/
def exact (rank : Nat) : Decimal := ⟨units rank * Nat.pow 5 unitExponent, -unitExponent⟩

/-- The decimal of fewest digits that rounds to a magnitude, and of those the nearest to it. A
binary64 magnitude needs seventeen digits at most, so one of the grids tried has a point; the exact
decimal stands in for the case that none has. -/
def shortest (rank : Nat) : Decimal :=
  if rank = 0 then ⟨0, 0⟩
  else
    let found := (List.range 24).findSome? fun (n : Nat) =>
      (neighbours rank (coarsest rank - n)).find? fun d => d.nearestRank == rank
    found.getD (exact rank)

theorem nearestRank_exact {rank : Nat} (h : rank ≤ infinity) :
    (exact rank).nearestRank = rank := by
  rw [nearestRank_eq]
  refine nearest_eq_of_exact (denominator_pos _) h ?_
  have hnum : (exact rank).numerator = units rank * Nat.pow 5 unitExponent := Nat.mul_one _
  have hden : (exact rank).denominator = tenTo unitExponent := rfl
  rw [hnum, hden, tenTo_eq, Nat.mul_assoc, unitsPerOne]

/-- The shortest decimal of a magnitude rounds to that magnitude. -/
theorem nearestRank_shortest {rank : Nat} (h : rank ≤ infinity) :
    (shortest rank).nearestRank = rank := by
  unfold shortest
  split
  · rename_i h0
    rw [h0, nearestRank_eq]
    exact nearest_eq_zero (by simp [numerator, denominator, tenTo_zero])
  · dsimp only
    cases hf : (List.range 24).findSome? fun (n : Nat) =>
        (neighbours rank (coarsest rank - n)).find? fun d => d.nearestRank == rank with
    | none => exact nearestRank_exact h
    | some d =>
      obtain ⟨n, -, hn⟩ := List.exists_of_findSome?_eq_some hf
      simpa using List.find?_some hn

end Decimal

end Reckon
