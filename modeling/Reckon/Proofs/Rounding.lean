import Mathlib
import Reckon.Decimal

/-!
# Correct rounding

A quotient of natural numbers is rounded to a magnitude that no other one is nearer to, and to the one
of even rank where two are equally near. The comparisons that decide it are between natural numbers;
here they are between the quotient and the magnitudes as rational numbers.

The statement is about quotients that round to a finite magnitude, and quotients far below the greatest
of these do. Beyond it the ranks go on as if there were no infinite magnitude, so the bound on them is
nothing that rounding would have to know.
-/
namespace Reckon.Binary64

def value (rank : Nat) : ℚ := units rank / unitsPerOne

/-- No magnitude is nearer to the number than that of the rank, and if another one is as near, the rank
is even. -/
structure IsNearest (q : ℚ) (rank : Nat) : Prop where
  nearest : ∀ r, |value rank - q| ≤ |value r - q|
  even : ∀ r, r ≠ rank → |value r - q| = |value rank - q| → rank % 2 = 0

variable {q : ℚ} {k m n r numerator denominator : Nat}

theorem unitsPerOne_cast_pos : (0 : ℚ) < unitsPerOne := Nat.cast_pos.mpr unitsPerOne_pos

theorem unitsPerOne_cast : (unitsPerOne : ℚ) = 2 ^ unitExponent := by
  rw [unitsPerOne, Nat.one_shiftLeft, Nat.cast_pow, Nat.cast_ofNat]

theorem value_binade (k : Nat) : value ((k + 1) * binade) = 2 ^ (52 + k) / 2 ^ unitExponent := by
  have hunits : units ((k + 1) * binade) = 2 ^ (52 + k) := by
    rw [← Nat.add_zero ((k + 1) * binade), units_binade k 0 binade_pos, binade, Nat.add_zero,
      ← Nat.shiftLeft_add, Nat.one_shiftLeft]
  rw [value, hunits, unitsPerOne_cast, Nat.cast_pow, Nat.cast_ofNat]

theorem value_lt_value (h : m < n) : value m < value n :=
  div_lt_div_of_pos_right (Nat.cast_lt.mpr (units_lt_units h)) unitsPerOne_cast_pos

theorem value_le_value (h : m ≤ n) : value m ≤ value n := by
  rcases Nat.eq_or_lt_of_le h with rfl | h
  · exact le_rfl
  · exact (value_lt_value h).le

/-- A number between two magnitudes is as near to any other one as to the next of them, at most. -/
theorem le_dist_of_between (hle : value n ≤ q) (hlt : q < value (n + 1)) (r : Nat) :
    r ≤ n ∧ q - value n ≤ |value r - q| ∨ n < r ∧ value (n + 1) - q ≤ |value r - q| := by
  rcases Nat.lt_or_ge n r with h | h
  · have hr : value (n + 1) ≤ value r := value_le_value h
    rw [abs_of_nonneg (by linarith)]
    exact .inr ⟨h, by linarith⟩
  · have hr : value r ≤ value n := value_le_value h
    rw [abs_of_nonpos (by linarith)]
    exact .inl ⟨h, by linarith⟩

/-- Of two magnitudes next to each other, a number between them rounds to the nearer one. -/
theorem isNearest_of_between (hle : value n ≤ q) (hlt : q < value (n + 1))
    (hk : k = n ∧ 2 * q ≤ value n + value (n + 1) ∨
      k = n + 1 ∧ value n + value (n + 1) ≤ 2 * q)
    (heven : 2 * q = value n + value (n + 1) → k % 2 = 0) : IsNearest q k := by
  have hdist := le_dist_of_between hle hlt
  rcases hk with ⟨rfl, hnear⟩ | ⟨rfl, hnear⟩
  · have hself : |value k - q| = q - value k := by
      rw [abs_of_nonpos (by linarith), neg_sub]
    refine ⟨fun r => ?_, fun r hne heq => heven ?_⟩
    · rcases hdist r with ⟨-, hr⟩ | ⟨-, hr⟩ <;> linarith
    · rcases hdist r with ⟨hle', -⟩ | ⟨-, hr⟩
      · have hr : value r < value k := value_lt_value (Nat.lt_of_le_of_ne hle' hne)
        rw [abs_of_nonpos (by linarith)] at heq
        linarith
      · linarith
  · have hself : |value (n + 1) - q| = value (n + 1) - q := abs_of_pos (by linarith)
    refine ⟨fun r => ?_, fun r hne heq => heven ?_⟩
    · rcases hdist r with ⟨-, hr⟩ | ⟨-, hr⟩ <;> linarith
    · rcases hdist r with ⟨-, hr⟩ | ⟨hlt', -⟩
      · linarith
      · have hr : value (n + 1) < value r := value_lt_value (Nat.lt_of_le_of_ne hlt' hne.symm)
        rw [abs_of_pos (by linarith)] at heq
        linarith

theorem units_div_lt_iff {amount : Nat} (hd : 0 < denominator) :
    (amount : ℚ) / unitsPerOne < numerator / denominator ↔
      amount * denominator < numerator * unitsPerOne := by
  rw [div_lt_div_iff₀ unitsPerOne_cast_pos (Nat.cast_pos.mpr hd)]
  exact_mod_cast Iff.rfl

theorem lt_units_div_iff {amount : Nat} (hd : 0 < denominator) :
    (numerator : ℚ) / denominator < amount / unitsPerOne ↔
      numerator * unitsPerOne < amount * denominator := by
  rw [div_lt_div_iff₀ (Nat.cast_pos.mpr hd) unitsPerOne_cast_pos]
  exact_mod_cast Iff.rfl

theorem between_rankBelow (hd : 0 < denominator)
    (hn : n = rankBelow (numerator * unitsPerOne / denominator)) :
    value n ≤ numerator / denominator ∧ (numerator : ℚ) / denominator < value (n + 1) := by
  have ⟨hle, hlt⟩ := units_rankBelow (numerator * unitsPerOne / denominator)
  rw [← hn] at hle hlt
  constructor
  · rw [← not_lt, value, lt_units_div_iff hd, not_lt]
    exact (Nat.le_div_iff_mul_le hd).mp hle
  · rw [value, lt_units_div_iff hd]
    exact (Nat.div_lt_iff_lt_mul hd).mp hlt

/-- What a quotient rounds to, by comparing it with the middle between its two neighbours. -/
theorem nearest_eq (hd : 0 < denominator)
    (hn : n = rankBelow (numerator * unitsPerOne / denominator))
    (hfinite : nearest numerator denominator < infinity) :
    nearest numerator denominator =
      if 2 * ((numerator : ℚ) / denominator) < value n + value (n + 1) then n
      else if value n + value (n + 1) < 2 * ((numerator : ℚ) / denominator) then n + 1
      else n + n % 2 := by
  have hmiddle : value n + value (n + 1) = ((units n + units (n + 1) : ℕ) : ℚ) / unitsPerOne := by
    rw [value, value, ← add_div, Nat.cast_add]
  have htwice : 2 * ((numerator : ℚ) / denominator) = (2 * numerator : ℕ) / denominator := by
    rw [Nat.cast_mul, Nat.cast_ofNat, mul_div_assoc]
  simp only [hmiddle, htwice, lt_units_div_iff hd, units_div_lt_iff hd, Nat.mul_assoc]
  unfold nearest at hfinite ⊢
  dsimp only at hfinite ⊢
  rw [← hn] at hfinite ⊢
  exact Nat.min_eq_left (by omega)

/-- A quotient that rounds to a finite magnitude rounds to the nearest one. -/
theorem isNearest_nearest (hd : 0 < denominator)
    (hfinite : nearest numerator denominator < infinity) :
    IsNearest (numerator / denominator) (nearest numerator denominator) := by
  obtain ⟨n, hn⟩ : ∃ n, n = rankBelow (numerator * unitsPerOne / denominator) := ⟨_, rfl⟩
  obtain ⟨hle, hlt⟩ := between_rankBelow hd hn
  rw [nearest_eq hd hn hfinite]
  split
  · rename_i hnear
    exact isNearest_of_between hle hlt (.inl ⟨rfl, hnear.le⟩) fun heq => absurd heq hnear.ne
  · rename_i hbelow
    split
    · rename_i hnear
      exact isNearest_of_between hle hlt (.inr ⟨rfl, hnear.le⟩) fun heq => absurd heq hnear.ne'
    · rename_i habove
      have hmiddle : 2 * ((numerator : ℚ) / denominator) = value n + value (n + 1) :=
        le_antisymm (not_lt.mp habove) (not_lt.mp hbelow)
      refine isNearest_of_between hle hlt ?_ fun _ => by omega
      rcases Nat.mod_two_eq_zero_or_one n with hn | hn
      · exact .inl ⟨by omega, hmiddle.le⟩
      · exact .inr ⟨by omega, hmiddle.ge⟩

theorem nearest_lt_infinity (hd : 0 < denominator)
    (h : (numerator : ℚ) / denominator < value (infinity - 1)) :
    nearest numerator denominator < infinity := by
  obtain ⟨n, hn⟩ : ∃ n, n = rankBelow (numerator * unitsPerOne / denominator) := ⟨_, rfl⟩
  have hlt : n < infinity - 1 := by
    by_contra hge
    have hvalue := value_le_value (Nat.not_lt.mp hge)
    exact absurd (h.trans_le hvalue) (not_lt.mpr (between_rankBelow hd hn).1)
  unfold nearest
  dsimp only
  rw [← hn]
  refine Nat.lt_of_le_of_lt (Nat.min_le_left _ _) ?_
  split
  · omega
  · split <;> omega

end Reckon.Binary64

namespace Reckon.Decimal
open Binary64

def value (d : Decimal) : ℚ := d.coefficient * 10 ^ d.exponent

theorem value_eq_div (d : Decimal) : d.value = d.numerator / d.denominator := by
  obtain ⟨n, e | k⟩ := d
  · simp [value, numerator, denominator, tenTo]
  · simp [value, numerator, denominator, tenTo, zpow_negSucc, div_eq_mul_inv]

/-- A decimal is far below the greatest magnitude if it has no more than 256 digits before its point. -/
theorem ten_pow_lt_value : (10 : ℚ) ^ 256 < Binary64.value (infinity - 1) := by
  have hrank : (2045 + 1) * binade ≤ infinity - 1 := by decide
  calc (10 : ℚ) ^ 256 = (10 ^ 4) ^ 64 := by rw [← pow_mul]
    _ < (2 ^ 14) ^ 64 := pow_lt_pow_left₀ (by norm_num) (by norm_num) (by norm_num)
    _ = 2 ^ 896 := by rw [← pow_mul]
    _ ≤ 2 ^ 1023 := pow_le_pow_right₀ (by norm_num) (by norm_num)
    _ = 2 ^ (52 + 2045) / 2 ^ unitExponent := by
      rw [eq_div_iff (pow_ne_zero unitExponent two_ne_zero), ← pow_add]
      rfl
    _ = Binary64.value ((2045 + 1) * binade) := (value_binade 2045).symm
    _ ≤ Binary64.value (infinity - 1) := value_le_value hrank

/-- A decimal is rounded correctly, if it does not exceed what so many digits can express. -/
theorem isNearest_nearestRank {d : Decimal} (h : d.value < 10 ^ 256) :
    d.nearestRank < infinity ∧ IsNearest d.value d.nearestRank := by
  have hd : 0 < d.denominator := d.denominator_pos
  rw [value_eq_div] at h ⊢
  rw [nearestRank_eq]
  have hfinite := nearest_lt_infinity hd (h.trans ten_pow_lt_value)
  exact ⟨hfinite, isNearest_nearest hd hfinite⟩

end Reckon.Decimal
