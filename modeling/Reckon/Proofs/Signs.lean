import Reckon.Proofs.NumberText

/-!
# Signs

A number is its sign in front of the rank of its magnitude. To negate it is to change the sign and
nothing else, zero and the infinite magnitude included. The ranks above the infinite magnitude are
left out: what they stand for is no number, and it has no sign to change.

A sign and the rank of a finite magnitude are put together to a number that has this sign and this
rank.
-/
namespace Reckon.Binary64
open Float.Model

variable {x y : Float}

theorem eq_of_rank_of_isNegative (hrank : rank x = rank y) (hsign : isNegative x = isNegative y) :
    x = y := by
  have hx := x.toBits.toNat_lt
  have hy := y.toBits.toNat_lt
  have hweight : signBit + signBit = 2 ^ 64 := by decide
  rw [isNegative, isNegative, decide_eq_decide] at hsign
  rw [rank, rank] at hrank
  apply Float.toBits_inj.mp
  apply UInt64.toNat_inj.mp
  by_cases hset : signBit ≤ x.toBits.toNat
  · have hset' := hsign.mp hset
    rw [Nat.mod_eq_sub_mod hset, Nat.mod_eq_sub_mod hset', Nat.mod_eq_of_lt (by omega),
      Nat.mod_eq_of_lt (by omega)] at hrank
    omega
  · have hset' := mt hsign.mpr hset
    rwa [Nat.mod_eq_of_lt (by omega), Nat.mod_eq_of_lt (by omega)] at hrank

/-- A number is packed into its sign and bits that the sign does not touch. -/
theorem exists_pack_eq (spec : Format) {f : UnpackedFloat} (h : f ≠ .notANumber) :
    ∃ sign exponent mantissa,
      f.pack spec = UnpackedFloat.packComponents spec sign exponent mantissa ∧
      f.neg.pack spec = UnpackedFloat.packComponents spec (-sign) exponent mantissa := by
  cases f with
  | notANumber => exact absurd rfl h
  | infinity sign => exact ⟨sign, _, _, rfl, rfl⟩
  | zero sign => exact ⟨sign, _, _, rfl, rfl⟩
  | finite sign m e hm =>
    simp only [UnpackedFloat.neg, UnpackedFloat.pack]
    split
    · exact ⟨sign, _, _, rfl, rfl⟩
    · split
      · exact ⟨sign, _, _, rfl, rfl⟩
      · exact ⟨sign, _, _, rfl, rfl⟩

/-- The weight of the sign is above that of all other bits. -/
theorem toNat_packComponents (sign : UnpackedFloat.Sign)
    (exponent : BitVec Format.binary64.exponentBits)
    (mantissa : BitVec Format.binary64.mantissaBitsWithoutImplicit) :
    (UnpackedFloat.packComponents Format.binary64 sign exponent mantissa).toNat =
      sign.toBitVec.toNat * signBit + (exponent.toNat * binade + mantissa.toNat) := by
  have happend : ∀ {m n : Nat} (a : BitVec m) (b : BitVec n),
      (a ++ b).toNat = a.toNat * 2 ^ n + b.toNat := by
    intro m n a b
    rw [BitVec.toNat_append, ← Nat.shiftLeft_add_eq_or_of_lt b.isLt, Nat.shiftLeft_eq]
  have hsplit : signBit = 2 ^ Format.binary64.exponentBits * binade := by decide
  have hbinade : binade = 2 ^ Format.binary64.mantissaBitsWithoutImplicit := by decide
  rw [UnpackedFloat.packComponents, happend, happend, ← hbinade, hsplit, Nat.add_mul,
    Nat.mul_assoc, Nat.add_assoc]

section Components
variable {sign : UnpackedFloat.Sign} {exponent : BitVec Format.binary64.exponentBits}
  {mantissa : BitVec Format.binary64.mantissaBitsWithoutImplicit}

theorem components_lt_signBit (exponent : BitVec Format.binary64.exponentBits)
    (mantissa : BitVec Format.binary64.mantissaBitsWithoutImplicit) :
    exponent.toNat * binade + mantissa.toNat < signBit := by
  have hexponent : exponent.toNat < 2048 := exponent.isLt
  have hmantissa : mantissa.toNat < binade := mantissa.isLt
  have hsplit : signBit = 2048 * binade := by decide
  have hle := Nat.mul_le_mul_right binade (Nat.le_of_lt_succ hexponent)
  omega

theorem rank_of_components
    (h : x.toBits.toBitVec = UnpackedFloat.packComponents _ sign exponent mantissa) :
    rank x = exponent.toNat * binade + mantissa.toNat := by
  rw [rank, ← UInt64.toNat_toBitVec, h, toNat_packComponents, Nat.mul_add_mod',
    Nat.mod_eq_of_lt (components_lt_signBit exponent mantissa)]

theorem isNegative_of_components
    (h : x.toBits.toBitVec = UnpackedFloat.packComponents _ sign exponent mantissa) :
    isNegative x = (sign == .negative) := by
  have hbelow := components_lt_signBit exponent mantissa
  rw [isNegative, ← UInt64.toNat_toBitVec, h, toNat_packComponents]
  cases sign with
  | negative => exact decide_eq_true (by simp [UnpackedFloat.Sign.toBitVec])
  | positive => exact decide_eq_false (by simp [UnpackedFloat.Sign.toBitVec, hbelow])

end Components

theorem unpack_ne_notANumber (h : rank x ≤ infinity) : x.toModel.unpack ≠ .notANumber := by
  intro hnone
  have hbits : x.toBits.toBitVec = UnpackedFloat.packedNaN Format.binary64 :=
    (UnpackedFloat.unpack_eq_notANumber_iff_of_valid x.toModel.valid).mp hnone
  have habove : infinity < (UnpackedFloat.packedNaN Format.binary64).toNat % signBit := by decide
  rw [← hbits] at habove
  exact absurd h (Nat.not_le.mpr habove)

/-- A number and its negation are made of the same components, but for the sign. -/
theorem exists_components (h : rank x ≤ infinity) :
    ∃ sign exponent mantissa,
      x.toBits.toBitVec = UnpackedFloat.packComponents Format.binary64 sign exponent mantissa ∧
      (-x).toBits.toBitVec =
        UnpackedFloat.packComponents Format.binary64 (-sign) exponent mantissa := by
  obtain ⟨sign, exponent, mantissa, hpack, hneg⟩ :=
    exists_pack_eq Format.binary64 (unpack_ne_notANumber h)
  have hself := UnpackedFloat.pack_unpack_of_valid x.toModel.valid
  exact ⟨sign, exponent, mantissa, hself.symm.trans hpack, hneg⟩

theorem rank_neg (h : rank x ≤ infinity) : rank (-x) = rank x := by
  obtain ⟨sign, exponent, mantissa, hx, hneg⟩ := exists_components h
  rw [rank_of_components hx, rank_of_components hneg]

theorem isNegative_neg (h : rank x ≤ infinity) : isNegative (-x) = !isNegative x := by
  obtain ⟨sign, exponent, mantissa, hx, hneg⟩ := exists_components h
  rw [isNegative_of_components hx, isNegative_of_components hneg]
  cases sign <;> rfl

theorem neg_neg_eq_self (h : rank x ≤ infinity) : - -x = x := by
  have hneg : rank (-x) ≤ infinity := (rank_neg h).trans_le h
  apply eq_of_rank_of_isNegative
  · rw [rank_neg hneg, rank_neg h]
  · rw [isNegative_neg hneg, isNegative_neg h, Bool.not_not]

section Bits
variable {r : Nat} (negative : Bool)

theorem unpackExponent_ne {bits : UInt64} (h : bits.toNat % signBit < infinity) :
    @UnpackedFloat.unpackExponent Format.binary64 bits.toBitVec ≠ -1#_ := by
  intro hexponent
  have hinfinity : infinity = 2047 * 2 ^ 52 := by decide
  have hsign : signBit = 2048 * 2 ^ 52 := by decide
  have hgreatest : bits.toNat / 2 ^ 52 % 2048 = 2047 := by
    rw [UnpackedFloat.unpackExponent_def] at hexponent
    have htoNat := congrArg BitVec.toNat hexponent
    rw [BitVec.extractLsb'_toNat, Nat.shiftRight_eq_div_pow, UInt64.toNat_toBitVec] at htoNat
    exact htoNat
  rw [hsign] at h
  omega

theorem isFinite_of_rank_lt (h : rank x < infinity) : x.isFinite := by
  have hexponent := unpackExponent_ne h
  have hmodel : x.isFinite = (UnpackedFloat.unpack Format.binary64 x.toBits.toBitVec).isFinite := rfl
  rw [hmodel, UnpackedFloat.unpack]
  dsimp only
  rw [if_neg hexponent]
  split
  · split <;> rfl
  · rfl

theorem add_sign_mod (h : r < infinity) : (r + if negative then signBit else 0) % signBit = r := by
  have hbelow : infinity < signBit := by decide
  cases negative with
  | true => rw [if_pos rfl, Nat.add_mod_right, Nat.mod_eq_of_lt (h.trans hbelow)]
  | false => rw [if_neg Bool.false_ne_true, Nat.add_zero, Nat.mod_eq_of_lt (h.trans hbelow)]

theorem toNat_toBits_ofRank (h : r < infinity) :
    (ofRank negative r).toBits.toNat = r + if negative then signBit else 0 := by
  obtain ⟨bits, hbits⟩ : ∃ bits, bits = UInt64.ofNat (r + if negative then signBit else 0) :=
    ⟨_, rfl⟩
  have hnat : bits.toNat = r + if negative then signBit else 0 := by
    have hbelow : infinity < signBit := by decide
    have hweight : signBit + signBit = 2 ^ 64 := by decide
    rw [hbits, UInt64.toNat_ofNat']
    apply Nat.mod_eq_of_lt
    split <;> omega
  have hpack : (Float.ofBits bits).toBits.toBitVec = bits.toBitVec := by
    have hself := @UnpackedFloat.pack_unpack Format.binary64 bits.toBitVec (by decide)
    have hrank : bits.toNat % signBit < infinity := by rwa [hnat, add_sign_mod negative h]
    have hexponent := unpackExponent_ne hrank
    rw [if_neg fun hnan => hexponent (of_decide_eq_true hnan).1] at hself
    exact hself
  rw [ofRank, ← hbits, ← hnat, ← UInt64.toNat_toBitVec, hpack, UInt64.toNat_toBitVec]

theorem rank_ofRank (h : r < infinity) : rank (ofRank negative r) = r := by
  rw [rank, toNat_toBits_ofRank negative h, add_sign_mod negative h]

theorem isNegative_ofRank (h : r < infinity) : isNegative (ofRank negative r) = negative := by
  have hbelow : infinity < signBit := by decide
  rw [isNegative, toNat_toBits_ofRank negative h]
  cases negative with
  | true => exact decide_eq_true (by simp)
  | false => exact decide_eq_false (by simp; omega)

end Bits

end Reckon.Binary64
