/-!
# Magnitudes of binary64 numbers

A binary64 number is a sign and a magnitude, and its 64 bits are the sign followed by the rank of
the magnitude: the magnitudes, in increasing order, are numbered 0, 1, 2, … up to `infinity`. Every
finite magnitude is a whole number of units of 2⁻¹⁰⁷⁴, the smallest positive magnitude. So a rank
is decoded to a natural number of units, and a quotient of natural numbers is rounded by comparing
natural numbers, with no intermediate rounding.

The main statements are that `units` decodes what `rankBelow` ranks and that `nearest` returns the
rank of an exact magnitude unchanged.
-/
namespace Reckon.Binary64

/-- The number of magnitudes between two powers of two, 2⁵². -/
def binade : Nat := 1 <<< 52

/-- One is this power of two, in units. -/
def unitExponent : Nat := 1074

def unitsPerOne : Nat := 1 <<< unitExponent

/-- The power of two that the first number too large to be finite stands at. -/
def topExponent : Nat := 1024

/-- The rank of the infinite magnitude, above all finite ones. -/
def infinity : Nat := 2047 * binade

/-- The magnitude of a rank, in units. Ranks of the lowest binade count units; above it every
binade doubles the step. -/
def units (rank : Nat) : Nat :=
  if rank < binade then rank
  else (binade + rank % binade) <<< (rank / binade - 1)

/-- The rank of the greatest magnitude that does not exceed `amount` units. -/
def rankBelow (amount : Nat) : Nat :=
  let step := amount.log2 - 52
  step * binade + amount >>> step

/-- The rank of the magnitude nearest to `numerator / denominator`. Of two magnitudes at equal
distance the one of even rank is taken, and a quotient beyond the finite ones rounds as if the next
power of two were the infinite magnitude. -/
def nearest (numerator denominator : Nat) : Nat :=
  let amount := numerator * unitsPerOne
  let rank := rankBelow (amount / denominator)
  let middle := (units rank + units (rank + 1)) * denominator
  let rounded :=
    if 2 * amount < middle then rank
    else if middle < 2 * amount then rank + 1
    else rank + rank % 2
  min rounded infinity

/-- The weight of the sign bit, above those of the rank. -/
def signBit : Nat := 1 <<< 63

/-- The number of a sign and a rank. -/
def ofRank (negative : Bool) (rank : Nat) : Float :=
  Float.ofBits (UInt64.ofNat (rank + if negative then signBit else 0))

def rank (x : Float) : Nat := x.toBits.toNat % signBit

def isNegative (x : Float) : Bool := decide (signBit ≤ x.toBits.toNat)

theorem unitsPerOne_pos : 0 < unitsPerOne := by
  rw [unitsPerOne, Nat.one_shiftLeft]
  exact Nat.two_pow_pos _

theorem binade_pos : 0 < binade := by decide

theorem units_of_lt {n : Nat} (h : n < binade) : units n = n := by simp [units, h]

theorem units_binade (k m : Nat) (h : m < binade) :
    units ((k + 1) * binade + m) = (binade + m) <<< k := by
  have hp := binade_pos
  have hlt : ¬ (k + 1) * binade + m < binade := by
    have := Nat.le_mul_of_pos_left binade (show 0 < k + 1 by omega)
    omega
  have hdiv : ((k + 1) * binade + m) / binade = k + 1 := by
    rw [Nat.mul_comm, Nat.mul_add_div hp, Nat.div_eq_of_lt h, Nat.add_zero]
  have hmod : ((k + 1) * binade + m) % binade = m := by
    rw [Nat.mul_comm, Nat.mul_add_mod, Nat.mod_eq_of_lt h]
  simp only [units, hlt, if_false, hdiv, hmod, Nat.add_sub_cancel]

theorem units_lt_units_succ (n : Nat) : units n < units (n + 1) := by
  by_cases hn : n < binade
  · rw [units_of_lt hn]
    by_cases h1 : n + 1 < binade
    · rw [units_of_lt h1]; omega
    · have : n + 1 = (0 + 1) * binade + 0 := by omega
      rw [this, units_binade 0 0 binade_pos, Nat.shiftLeft_zero]; omega
  · obtain ⟨k, m, hm, rfl⟩ : ∃ k m, m < binade ∧ n = (k + 1) * binade + m := by
      refine ⟨n / binade - 1, n % binade, Nat.mod_lt _ binade_pos, ?_⟩
      have hpos : 0 < n / binade := Nat.div_pos (by omega) binade_pos
      rw [Nat.sub_add_cancel hpos, Nat.mul_comm]
      exact (Nat.div_add_mod n binade).symm
    rw [units_binade k m hm, Nat.shiftLeft_eq]
    by_cases h1 : m + 1 < binade
    · rw [Nat.add_assoc, units_binade k (m + 1) h1, Nat.shiftLeft_eq]
      exact Nat.mul_lt_mul_of_pos_right (by omega) (Nat.two_pow_pos k)
    · have he : (k + 1) * binade + m + 1 = (k + 1 + 1) * binade + 0 := by
        rw [Nat.add_mul (k + 1) 1]; omega
      rw [he, units_binade (k + 1) 0 binade_pos, Nat.shiftLeft_eq, Nat.pow_succ,
        Nat.mul_comm (2 ^ k) 2, ← Nat.mul_assoc]
      exact Nat.mul_lt_mul_of_pos_right (by omega) (Nat.two_pow_pos k)

theorem units_lt_units {m n : Nat} (h : m < n) : units m < units n := by
  induction h with
  | refl => exact units_lt_units_succ m
  | step _ ih => exact Nat.lt_trans ih (units_lt_units_succ _)

/-- The magnitude ranked does not exceed the amount, and the next one does. -/
theorem units_rankBelow (amount : Nat) :
    units (rankBelow amount) ≤ amount ∧ amount < units (rankBelow amount + 1) := by
  by_cases hs : amount < 2 ^ 53
  · have hstep : amount.log2 - 52 = 0 := by
      have : amount.log2 ≤ 52 := by
        by_cases h0 : amount = 0
        · simp [h0]
        · exact Nat.lt_succ_iff.1 ((Nat.log2_lt h0).2 hs)
      omega
    have hr : rankBelow amount = amount := by simp [rankBelow, hstep]
    have hu : units amount = amount := by
      by_cases h : amount < binade
      · exact units_of_lt h
      · have hb : amount - binade < binade := by
          simp only [binade] at h ⊢; omega
        have he : amount = (0 + 1) * binade + (amount - binade) := by omega
        rw [he, units_binade 0 _ hb, Nat.shiftLeft_zero]; omega
    rw [hr]
    exact ⟨by omega, by have := units_lt_units_succ amount; omega⟩
  · have h0 : amount ≠ 0 := by omega
    have hlow := Nat.log2_self_le h0
    have hhigh := Nat.lt_log2_self (n := amount)
    have hge : 53 ≤ amount.log2 := (Nat.le_log2 h0).2 (by omega)
    obtain ⟨k, hk⟩ : ∃ k, amount.log2 = k + 52 := ⟨amount.log2 - 52, by omega⟩
    have hq : binade ≤ amount / 2 ^ k := by
      rw [Nat.le_div_iff_mul_le (Nat.two_pow_pos k), binade, Nat.one_shiftLeft, ← Nat.pow_add]
      rw [hk] at hlow
      rwa [Nat.add_comm]
    have hq2 : amount / 2 ^ k < 2 * binade := by
      rw [Nat.div_lt_iff_lt_mul (Nat.two_pow_pos k)]
      rw [hk] at hhigh
      have : 2 * binade * 2 ^ k = 2 ^ (k + 52 + 1) := by
        simp only [binade, Nat.one_shiftLeft, Nat.pow_add]; omega
      omega
    obtain ⟨m, hm⟩ : ∃ m, amount / 2 ^ k = binade + m := ⟨amount / 2 ^ k - binade, by omega⟩
    have hr : rankBelow amount = (k + 1) * binade + m := by
      simp only [rankBelow, hk, Nat.add_sub_cancel, Nat.shiftRight_eq_div_pow, hm, Nat.add_mul]
      omega
    have hmod := Nat.div_add_mod amount (2 ^ k)
    have hml := Nat.mod_lt amount (Nat.two_pow_pos k)
    have hu : units ((k + 1) * binade + m) = (binade + m) * 2 ^ k := by
      rw [units_binade k m (by omega), Nat.shiftLeft_eq]
    have hu1 : units ((k + 1) * binade + m + 1) = (binade + m + 1) * 2 ^ k := by
      by_cases h1 : m + 1 < binade
      · rw [Nat.add_assoc, units_binade k (m + 1) h1, Nat.shiftLeft_eq, Nat.add_assoc]
      · have he : (k + 1) * binade + m + 1 = (k + 1 + 1) * binade + 0 := by
          rw [Nat.add_mul (k + 1) 1]; omega
        rw [he, units_binade (k + 1) 0 binade_pos, Nat.shiftLeft_eq, Nat.pow_succ,
          Nat.mul_comm (2 ^ k) 2, ← Nat.mul_assoc]
        congr 1; omega
    rw [hm] at hmod
    rw [hr, hu, hu1]
    constructor
    · rw [Nat.mul_comm]; omega
    · rw [Nat.add_mul, Nat.mul_comm (binade + m)]; omega

theorem rankBelow_units (n : Nat) : rankBelow (units n) = n := by
  have ⟨hle, hlt⟩ := units_rankBelow (units n)
  rcases Nat.lt_trichotomy (rankBelow (units n)) n with h | h | h
  · have : units (rankBelow (units n) + 1) ≤ units n := by
      rcases Nat.lt_or_eq_of_le (Nat.succ_le_of_lt h) with h' | h'
      · exact Nat.le_of_lt (units_lt_units h')
      · exact Nat.le_of_eq (congrArg units h')
    omega
  · exact h
  · have := units_lt_units h
    omega

/-- A quotient that is a magnitude is rounded to itself. -/
theorem nearest_eq_of_exact {numerator denominator n : Nat} (hd : 0 < denominator)
    (hn : n ≤ infinity) (h : numerator * unitsPerOne = units n * denominator) :
    nearest numerator denominator = n := by
  have hq : numerator * unitsPerOne / denominator = units n := by
    rw [h, Nat.mul_div_cancel _ hd]
  have hlt := Nat.mul_lt_mul_of_pos_right (units_lt_units_succ n) hd
  have hmid : 2 * (numerator * unitsPerOne) < (units n + units (n + 1)) * denominator := by
    rw [h, Nat.add_mul]; omega
  simp only [nearest, hq, rankBelow_units, hmid, if_true]
  exact Nat.min_eq_left hn

end Reckon.Binary64
