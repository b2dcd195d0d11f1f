import Mathlib
import ProceduralScene.Proofs.RoundedMantissa

/-!
The number nearest to a quantity. A number of the format is packed into the bits that it is decoded from, a signed
mantissa is rounded to the number nearest to its quantity, and the number nearest to a quantity of the format has
that quantity as its value.
-/

set_option autoImplicit false

namespace ProceduralScene.Number

open Float.Model
open Float.Model.UnpackedFloat

/-! ### Packing and unpacking -/

theorem toNat_packComponents (sign : Sign) (exponent : BitVec 11) (mantissa : BitVec 52) :
    (packComponents Format.binary64 sign exponent mantissa).toNat =
      sign.toBitVec.toNat * twoTo 63 + exponent.toNat * twoTo 52 + mantissa.toNat := by
  obtain ⟨p63, p52⟩ := powers_of_two
  rw [packComponents, BitVec.toNat_append, BitVec.toNat_append, ← Nat.shiftLeft_add_eq_or_of_lt exponent.isLt,
    ← Nat.shiftLeft_add_eq_or_of_lt mantissa.isLt, Nat.shiftLeft_eq, Nat.shiftLeft_eq, p63, p52]
  omega

-- A mantissa below the leading bit is packed with the exponent zero, whatever its unit is.
theorem pack_finite (sign : Sign) {m : ℕ} {e : ℤ} (positive : 0 < m) (most : m < twoTo 53) (least : -1074 ≤ e)
    (greatest : e ≤ 971) : UnpackedFloat.pack Format.binary64 (.finite sign m e positive) =
      packComponents Format.binary64 sign (if m < twoTo 52 then 0#11 else BitVec.ofNat 11 (e + 1075).toNat)
        (BitVec.ofNat 52 m) := by
  have opened : UnpackedFloat.pack Format.binary64 (.finite sign m e positive) =
      if 2048 ≤ (e + 1023 + 52).toNat + 1 then packedInfinity Format.binary64 sign
      else if m.log2 + 1 = 53 then
        packComponents Format.binary64 sign (BitVec.ofNat 11 (e + 1023 + 52).toNat) (BitVec.ofNat 52 m)
      else packComponents Format.binary64 sign 0#11 (BitVec.ofNat 52 m) := rfl
  have bias : e + 1023 + 52 = e + 1075 := by ring
  rw [opened, bias, if_neg (by omega)]
  by_cases small : m < twoTo 52
  · have := log2_le_of_lt small
    rw [if_neg (by omega), if_pos small]
  · have low : 52 ≤ m.log2 := (Nat.le_log2 positive.ne').mpr (not_lt.mp small)
    have high : m.log2 ≤ 52 := log2_le_of_lt most
    rw [if_pos (by omega), if_neg small]

/-! ### Signs -/

section

variable {v : ℚ} (nonneg : 0 ≤ v) {negative : Bool}

include nonneg

theorem abs_signed (negative : Bool) : |if negative then -v else v| = v := by
  split
  · rw [abs_neg, abs_of_nonneg nonneg]
  · exact abs_of_nonneg nonneg

theorem signed_neg (less : (if negative then -v else v) < 0) : negative = true := by
  by_contra positive
  rw [if_neg positive] at less
  linarith

theorem signed_pos (more : 0 < if negative then -v else v) : negative = false := by
  by_contra below
  rw [if_pos (by simpa using below)] at more
  linarith

end

namespace Dyadic

variable {d : Dyadic}

theorem toNat_pack (normal : d.Normal) :
    (UnpackedFloat.pack Format.binary64 d.unpacked).toNat = (Decoded.finite d).bits := by
  obtain ⟨p63, p52⟩ := powers_of_two
  have p53 : twoTo 53 = 9007199254740992 := by decide
  have sign : (if d.negative then Sign.negative else Sign.positive).toBitVec.toNat * twoTo 63 =
      if d.negative then twoTo 63 else 0 := by
    cases d.negative <;> rfl
  obtain ⟨most, least, greatest, leading⟩ := normal
  unfold unpacked Decoded.bits
  dsimp only
  by_cases none : d.mantissa = 0
  · rw [dif_pos none]
    change (packComponents Format.binary64 _ 0#11 0#52).toNat = _
    rw [toNat_packComponents, sign, none, if_pos (twoTo_pos 52)]
    rfl
  · rw [dif_neg none, pack_finite _ _ most least greatest, toNat_packComponents, sign, BitVec.toNat_ofNat]
    by_cases small : d.mantissa < twoTo 52
    · have kept : d.mantissa % 2 ^ 52 = d.mantissa := Nat.mod_eq_of_lt small
      rw [if_pos small, if_pos small, kept]
      simp
    · -- the leading bit is not stored: it is taken off the fraction
      rw [if_neg small, if_neg small, BitVec.toNat_ofNat, p52]
      have cleared : d.mantissa % 2 ^ 52 = d.mantissa - 4503599627370496 := by omega
      have biased : (d.exponent + 1075).toNat % 2 ^ 11 = (d.exponent + 1074).toNat + 1 := by omega
      rw [cleared, biased]
      omega

theorem decode_of_bits (normal : d.Normal) {x : Float} (same : x.toBits.toNat = (Decoded.finite d).bits) :
    decode x = .finite d := by
  obtain ⟨p63, p52⟩ := powers_of_two
  have p53 : twoTo 53 = 9007199254740992 := by decide
  obtain ⟨negative, mantissa, exponent⟩ := d
  obtain ⟨most, least, greatest, leading⟩ := normal
  dsimp only at most least greatest leading
  obtain ⟨sign, signIs, side⟩ : ∃ sign, (if negative then twoTo 63 else 0) = sign ∧
      (negative = true ∧ sign = 9223372036854775808 ∨ negative = false ∧ sign = 0) := by
    cases negative <;> simp [p63]
  unfold Decoded.bits at same
  dsimp only at same
  rw [signIs, p52] at same
  rw [decode_eq_finite, ofParts, p63, p52]
  -- sign, exponent and fraction are quotients and remainders of one number
  generalize x.toBits.toNat = bits at *
  have signBit : decide (9223372036854775808 ≤ bits) = negative := by
    rcases side with ⟨rfl, signIs⟩ | ⟨rfl, signIs⟩ <;> simp only [decide_eq_true_eq, decide_eq_false_iff_not] <;>
      split at same <;> omega
  by_cases small : mantissa < 4503599627370496
  · rw [if_pos small] at same
    have biased : bits / 4503599627370496 % 2048 = 0 := by omega
    have fraction : bits % 4503599627370496 = mantissa := by omega
    have subnormal : exponent = -1074 := by omega
    rw [biased, fraction, signBit, if_pos rfl, subnormal]
    exact ⟨by decide, rfl⟩
  · rw [if_neg small] at same
    have biased : bits / 4503599627370496 % 2048 = (exponent + 1074).toNat + 1 := by omega
    have fraction : bits % 4503599627370496 = mantissa - 4503599627370496 := by omega
    have whole : 4503599627370496 + (mantissa - 4503599627370496) = mantissa := by omega
    have unbiased : (((exponent + 1074).toNat + 1 : ℕ) : ℤ) - 1075 = exponent := by omega
    rw [biased, fraction, signBit, if_neg (by omega), whole, unbiased]
    exact ⟨by omega, rfl⟩

theorem decode_pack (normal : d.Normal) : decode (Float.ofModel (Float.Model.pack d.unpacked)) = .finite d :=
  decode_of_bits normal (toNat_pack normal)

theorem sign_unpacked (bits : BitVec Format.binary64.numBits) : Sign.ofBitVec (unpackSign bits) =
    if decide (twoTo 63 ≤ bits.toNat) then .negative else .positive := by
  have top : (unpackSign bits).toNat = bits.toNat / twoTo 63 % 2 := by
    simp only [unpackSign, BitVec.toNat_cast, BitVec.extractLsb_toNat, Nat.shiftRight_eq_div_pow]
    rfl
  have high : bits.toNat < 18446744073709551616 := bits.isLt
  rw [powers_of_two.1] at top ⊢
  by_cases negative : 9223372036854775808 ≤ bits.toNat
  · have one : unpackSign bits ≠ 0#1 := by
      intro zero
      rw [zero] at top
      change 0 = _ at top
      omega
    rw [Sign.ofBitVec, if_neg one, decide_eq_true negative]
    rfl
  · have zero : unpackSign bits = 0#1 := by
      apply BitVec.eq_of_toNat_eq
      rw [top]
      change _ = 0
      omega
    rw [Sign.ofBitVec, if_pos zero, decide_eq_false negative]
    rfl

theorem unpack_of_decode {x : Float} (decoded : decode x = .finite d) : x.toModel.unpack = d.unpacked := by
  obtain ⟨finite, rfl⟩ := decode_eq_finite.mp decoded
  change UnpackedFloat.unpack Format.binary64 x.toBits.toBitVec = _
  have exponent := toNat_unpackExponent x.toBits.toBitVec
  have mantissa := toNat_unpackMantissa x.toBits.toBitVec
  have sign := sign_unpacked x.toBits.toBitVec
  rw [UInt64.toNat_toBitVec] at exponent mantissa sign
  have zeroMantissa : @unpackMantissa Format.binary64 x.toBits.toBitVec = 0#52 ↔ x.toBits.toNat % twoTo 52 = 0 := by
    rw [← mantissa, ← BitVec.toNat_inj]
    rfl
  unfold UnpackedFloat.unpack
  dsimp only
  rw [if_neg (fun top => finite (by rw [← exponent, top]; rfl)), sign]
  unfold ofParts unpacked
  -- the cases of both sides are those of the stored exponent, and then of the fraction
  by_cases subnormal : x.toBits.toNat / twoTo 52 % 2048 = 0
  · have low : @unpackExponent Format.binary64 x.toBits.toBitVec = 0#11 := BitVec.eq_of_toNat_eq (exponent.trans subnormal)
    rw [if_pos low, if_pos subnormal]
    dsimp only
    by_cases none : x.toBits.toNat % twoTo 52 = 0
    · rw [dif_pos (zeroMantissa.mpr none), dif_pos none]
    · rw [dif_neg (fun zero => none (zeroMantissa.mp zero)), dif_neg none]
      congr 1
      rw [low]
      rfl
  · have high : @unpackExponent Format.binary64 x.toBits.toBitVec ≠ 0#11 := by
      intro low
      rw [low] at exponent
      exact subnormal exponent.symm
    have leading : (1#1 ++ @unpackMantissa Format.binary64 x.toBits.toBitVec).toNat = twoTo 52 + x.toBits.toNat % twoTo 52 := by
      rw [BitVec.toNat_append, ← Nat.shiftLeft_add_eq_or_of_lt (BitVec.isLt _), mantissa]
      rfl
    rw [if_neg high, if_neg subnormal, dif_neg (by have := twoTo_pos 52; dsimp only; omega)]
    congr 1
    rw [exponent]
    rfl

/-! ### The number nearest to a quantity -/

def value (d : Dyadic) : ℚ := if d.negative then -d.magnitude else d.magnitude

theorem magnitude_nonneg (d : Dyadic) : 0 ≤ d.magnitude := by
  have := unit_pos d.exponent
  unfold magnitude
  positivity

theorem abs_value (d : Dyadic) : |d.value| = d.magnitude := abs_signed d.magnitude_nonneg d.negative

theorem value_of_mantissa (none : d.mantissa = 0) : d.value = 0 := by
  simp [value, magnitude, none]

-- The sign is that of the quantity, and a zero of either sign is nearest to zero.
structure Nearest (d : Dyadic) (v : ℚ) : Prop where
  normal : d.Normal
  within : d.Within |v|
  negative : v < 0 → d.negative = true
  positive : 0 < v → d.negative = false

theorem within_self (d : Dyadic) : d.Within d.magnitude := by
  have unit := unit_pos d.exponent
  apply within_of_rounds d.magnitude_nonneg
  · rw [magnitude, mul_div_cancel_right₀ _ unit.ne']
    exact ⟨by linarith, by linarith, fun _ => ⟨by linarith, by linarith⟩⟩
  · intro _ _
    rw [magnitude, mul_div_cancel_right₀ _ unit.ne']
    linarith

theorem nearest_value (isNormal : d.Normal) : d.Nearest d.value where
  normal := isNormal
  within := by rw [abs_value]; exact within_self d
  negative := signed_neg d.magnitude_nonneg
  positive := signed_pos d.magnitude_nonneg

/-- The number nearest to a quantity that is a number has that quantity as its value. -/
theorem Nearest.value_eq {e : Dyadic} (normal : e.Normal) (nearest : d.Nearest e.value) : d.value = e.value := by
  by_cases zero : e.value = 0
  · -- the signs of the two zeros may differ
    have none : d.mantissa = 0 := by
      apply mantissa_of_small nearest.normal nearest.within
      rw [zero, abs_zero]
      positivity
    rw [zero, value_of_mantissa none]
  · have own := nearest_value normal
    have sign : d.negative = e.negative := by
      rcases lt_or_gt_of_ne zero with less | more
      · rw [nearest.negative less, own.negative less]
      · rw [nearest.positive more, own.positive more]
    rw [within_unique nearest.normal normal sign nearest.within own.within]

-- All the bits and a carry are allowed, as the carry only leaves a power of two.
def Exact (v : ℚ) : Prop := ∃ (n : ℤ) (e : ℤ), v = n * 2 ^ e ∧ |n| ≤ 2 ^ 53 ∧ -1074 ≤ e ∧ e ≤ 970

theorem scaled_eq (m k : ℕ) (e : ℤ) : ((m * 2 ^ k : ℕ) : ℚ) * 2 ^ (e - k) = m * 2 ^ e := by
  push_cast
  rw [mul_assoc, ← zpow_natCast, ← zpow_add₀ (by norm_num)]
  congr 2
  ring

theorem exists_shifted {m : ℕ} {e : ℤ} (most : m < twoTo 53) (least : -1074 ≤ e) (greatest : e ≤ 971) (negative : Bool) :
    ∃ d : Dyadic, d.Normal ∧ d.negative = negative ∧ d.magnitude = m * 2 ^ e := by
  by_cases none : m = 0
  · refine ⟨⟨negative, 0, -1074⟩, ⟨twoTo_pos 53, le_refl _, by dsimp only; omega, .inl rfl⟩, rfl, ?_⟩
    simp [magnitude, none]
  have log : m.log2 ≤ 52 := log2_le_of_lt most
  -- the mantissa is shifted up as far as its bits and the least exponent allow
  obtain ⟨k, shift⟩ : ∃ k : ℕ, (k : ℤ) = min (52 - m.log2 : ℤ) (e + 1074) := ⟨(min (52 - m.log2 : ℤ) (e + 1074)).toNat, by omega⟩
  have below : m * 2 ^ k < twoTo 53 := by
    calc m * 2 ^ k < 2 ^ (m.log2 + 1) * 2 ^ k := Nat.mul_lt_mul_of_pos_right Nat.lt_log2_self (by positivity)
      _ = 2 ^ (m.log2 + 1 + k) := (Nat.pow_add 2 _ _).symm
      _ ≤ 2 ^ 53 := Nat.pow_le_pow_right (by decide) (by omega)
  refine ⟨⟨negative, m * 2 ^ k, e - k⟩, ⟨below, by dsimp only; omega, by dsimp only; omega, ?_⟩, rfl, scaled_eq m k e⟩
  dsimp only
  by_cases low : e - k = -1074
  · exact .inl low
  · right
    calc twoTo 52 = 2 ^ m.log2 * 2 ^ k := by
          rw [← Nat.pow_add]
          change 2 ^ 52 = _
          congr 1
          omega
      _ ≤ m * 2 ^ k := Nat.mul_le_mul_right _ (Nat.log2_self_le none)

theorem exists_magnitude {m : ℕ} {e : ℤ} (most : m ≤ twoTo 53) (least : -1074 ≤ e) (greatest : e ≤ 970) (negative : Bool) :
    ∃ d : Dyadic, d.Normal ∧ d.negative = negative ∧ d.magnitude = m * 2 ^ e := by
  have p52 := powers_of_two.2
  have p53 : twoTo 53 = 9007199254740992 := by decide
  by_cases carry : m = twoTo 53
  · refine ⟨⟨negative, twoTo 52, e + 1⟩, ⟨by dsimp only; omega, by dsimp only; omega, by dsimp only; omega,
      .inr (le_refl _)⟩, rfl, ?_⟩
    rw [magnitude, carry, p52, p53]
    dsimp only
    rw [zpow_add_one₀ (by norm_num)]
    push_cast
    ring
  · exact exists_shifted (lt_of_le_of_ne most carry) least (by omega) negative

theorem Exact.exists {v : ℚ} (exact : Exact v) : ∃ d : Dyadic, d.Normal ∧ d.value = v := by
  obtain ⟨n, e, rfl, most, least, greatest⟩ := exact
  have bound : n.natAbs ≤ twoTo 53 := by
    have : twoTo 53 = 9007199254740992 := by decide
    rw [Int.abs_eq_natAbs] at most
    omega
  obtain ⟨d, normal, sign, magnitude⟩ := exists_magnitude bound least greatest (decide (n < 0))
  refine ⟨d, normal, ?_⟩
  rw [value, sign, magnitude, Nat.cast_natAbs]
  by_cases negative : n < 0
  · rw [if_pos (by simpa using negative), abs_of_neg negative]
    push_cast
    ring
  · rw [if_neg (by simpa using negative), abs_of_nonneg (not_lt.mp negative)]

theorem Nearest.exact {v : ℚ} (nearest : d.Nearest v) (exact : Exact v) : d.value = v := by
  obtain ⟨e, normal, rfl⟩ := exact.exists
  exact nearest.value_eq normal

end Dyadic

/-! ### Rounded results -/

theorem rounded_nearest {m : ℕ} {e : ℤ} {accuracy : Accuracy} {v : ℚ} (nonneg : 0 ≤ v) (bits : EnoughBits m e)
    (holds : Holds (ExtendedMantissa.ofMantissaAndAccuracy m accuracy) (v / 2 ^ e)) (small : v < 2 ^ (1023 : ℤ))
    (negative : Bool) : (roundedNumber negative m e accuracy).Nearest (if negative then -v else v) where
  normal := normal_roundedNumber bits (roundingExponent_le bits holds small) negative
  within := by
    rw [abs_signed nonneg]
    exact within_roundedNumber nonneg bits holds negative
  negative := signed_neg nonneg
  positive := signed_pos nonneg

-- Before rounding, the exponent is decreased until there are enough bits.
theorem round_enough {m : ℕ} (positive : 0 < m) (e : ℤ) (sign : Sign) : ∃ m' e', EnoughBits m' e' ∧
    (m' * 2 ^ e' : ℚ) = m * 2 ^ e ∧
    UnpackedFloat.round Format.binary64 sign m e = roundWithAccuracy Format.binary64 sign m' e' .exact := by
  unfold UnpackedFloat.round decreaseExponent
  rw [targetExponent_eq]
  dsimp only
  generalize amount : (e - roundingExponent m e).toNat = k
  refine ⟨m <<< k, e - k, ?_, ?_, rfl⟩
  · unfold roundingExponent at amount
    by_cases low : e - k ≤ -1074
    · exact .inr low
    · left
      calc twoTo 52 ≤ 2 ^ m.log2 * 2 ^ k := by
            rw [← Nat.pow_add]
            exact Nat.pow_le_pow_right (by decide) (by omega)
        _ ≤ m * 2 ^ k := Nat.mul_le_mul_right _ (Nat.log2_self_le positive.ne')
        _ = m <<< k := (Nat.shiftLeft_eq _ _).symm
  · rw [Nat.shiftLeft_eq]
    exact Dyadic.scaled_eq m k e

theorem round_nearest {m : ℕ} (positive : 0 < m) {e : ℤ} (small : (m * 2 ^ e : ℚ) < 2 ^ (1023 : ℤ)) (negative : Bool) :
    ∃ d : Dyadic, d.Nearest (if negative then -(m * 2 ^ e : ℚ) else m * 2 ^ e) ∧
      UnpackedFloat.round Format.binary64 (if negative then .negative else .positive) m e = d.unpacked := by
  obtain ⟨m', e', bits, same, rounds⟩ := round_enough positive e (if negative then .negative else .positive)
  have unit := Dyadic.unit_pos e'
  have holds : Holds (ExtendedMantissa.ofMantissaAndAccuracy m' .exact) ((m * 2 ^ e : ℚ) / 2 ^ e') := by
    rw [← same, mul_div_cancel_right₀ _ unit.ne']
    exact holds_exact m'
  have := Dyadic.unit_pos e
  exact ⟨_, rounded_nearest (by positivity) bits holds small negative, by rw [rounds, roundWithAccuracy_eq bits]⟩

/-- A signed mantissa is rounded to the number nearest to its quantity. -/
theorem normalize_nearest (n : ℤ) {e : ℤ} (small : |(n * 2 ^ e : ℚ)| < 2 ^ (1023 : ℤ)) :
    ∃ d : Dyadic, d.Nearest (n * 2 ^ e) ∧ UnpackedFloat.normalize Format.binary64 n e .positive = d.unpacked := by
  have unit := Dyadic.unit_pos e
  have size : |(n * 2 ^ e : ℚ)| = (n.natAbs : ℚ) * 2 ^ e := by
    rw [abs_mul, abs_of_pos unit, Nat.cast_natAbs, Int.cast_abs]
  rw [size] at small
  rcases lt_trichotomy n 0 with negative | rfl | positive
  · obtain ⟨d, nearest, rounds⟩ := round_nearest (by omega : 0 < n.natAbs) small true
    have whole : (n : ℚ) = -(n.natAbs : ℚ) := by
      rw [Nat.cast_natAbs, abs_of_neg negative]
      push_cast
      ring
    refine ⟨d, by rw [whole, neg_mul]; exact nearest, ?_⟩
    rw [UnpackedFloat.normalize, Int.compare_eq_lt.mpr negative, ← rounds]
    dsimp only
    congr 1
    omega
  · refine ⟨⟨false, 0, -1074⟩, ⟨⟨by decide, by decide, by decide, .inl rfl⟩, ?_, by simp, by simp⟩, rfl⟩
    rw [Int.cast_zero, zero_mul, abs_zero]
    exact within_zero rfl
  · obtain ⟨d, nearest, rounds⟩ := round_nearest (by omega : 0 < n.natAbs) small false
    have whole : (n : ℚ) = (n.natAbs : ℚ) := by rw [Nat.cast_natAbs, abs_of_pos positive]
    refine ⟨d, by rw [whole]; exact nearest, ?_⟩
    rw [UnpackedFloat.normalize, Int.compare_eq_gt.mpr positive, ← rounds]
    dsimp only
    congr 1
    omega

end ProceduralScene.Number
