import Mathlib.Algebra.Order.Field.Power
import Mathlib.Tactic.Linarith
import Mathlib.Tactic.NormNum
import Mathlib.Tactic.Ring
import Mathlib.Tactic.GCongr
import ProceduralScene.Number.Decimal

/-!
A floating number is determined by what it is decoded into, and the intervals of the quantities that round to
different numbers of one sign have no quantity in common.
-/

set_option autoImplicit false

namespace ProceduralScene.Number

open Float.Model

theorem eq_of_bits {x y : Float} (same : x.toBits.toNat = y.toBits.toNat) : x = y := by
  obtain ⟨⟨bits, valid⟩⟩ := x
  obtain ⟨⟨bits', valid'⟩⟩ := y
  have : bits = bits' := UInt64.toNat_inj.mp same
  subst this
  rfl

theorem toNat_unpackExponent (bits : BitVec Format.binary64.numBits) :
    (UnpackedFloat.unpackExponent bits).toNat = bits.toNat / twoTo 52 % 2048 := by
  simp only [UnpackedFloat.unpackExponent, BitVec.toNat_cast, BitVec.extractLsb_toNat, Nat.shiftRight_eq_div_pow]
  rfl

theorem toNat_unpackMantissa (bits : BitVec Format.binary64.numBits) :
    (UnpackedFloat.unpackMantissa bits).toNat = bits.toNat % twoTo 52 := by
  simp only [UnpackedFloat.unpackMantissa, BitVec.toNat_cast, BitVec.extractLsb_toNat, Nat.shiftRight_eq_div_pow]
  simp [twoTo]

theorem nan_bits {x : Float} (biased : x.toBits.toNat / twoTo 52 % 2048 = 2047) (fraction : x.toBits.toNat % twoTo 52 ≠ 0) :
    x.toBits.toBitVec = UnpackedFloat.packedNaN Format.binary64 := by
  apply x.toModel.valid.eq_packedNaN
  · apply BitVec.eq_of_toNat_eq
    rw [toNat_unpackExponent]
    exact biased
  · intro zero
    have := congrArg BitVec.toNat zero
    rw [toNat_unpackMantissa] at this
    exact fraction this

/-- The bits that a decoded number comes from. -/
def Decoded.bits : Decoded → Nat
  | .finite d => (if d.negative then twoTo 63 else 0) +
      (if d.mantissa < twoTo 52 then d.mantissa else (d.exponent + 1074).toNat * twoTo 52 + d.mantissa)
  | .infinite negative => (if negative then twoTo 63 else 0) + 2047 * twoTo 52
  | .notANumber => (UnpackedFloat.packedNaN Format.binary64).toNat

theorem powers_of_two : twoTo 63 = 9223372036854775808 ∧ twoTo 52 = 4503599627370496 := by decide

theorem bits_decode (x : Float) : (decode x).bits = x.toBits.toNat := by
  have high : x.toBits.toNat < 18446744073709551616 := x.toBits.toNat_lt
  have quiet : x.toBits.toNat / twoTo 52 % 2048 = 2047 → x.toBits.toNat % twoTo 52 ≠ 0 →
      (UnpackedFloat.packedNaN Format.binary64).toNat = x.toBits.toNat :=
    fun biased fraction => (congrArg BitVec.toNat (nan_bits biased fraction)).symm
  obtain ⟨p63, p52⟩ := powers_of_two
  rw [p52] at quiet
  unfold decode
  simp only [beq_iff_eq, p63, p52]
  generalize x.toBits.toNat = bits at *
  split
  · rename_i biased
    split
    · rename_i fraction
      simp only [Decoded.bits, p63, p52, decide_eq_true_eq]
      split <;> omega
    · rename_i fraction
      exact quiet biased fraction
  · split
    · have small : bits % 4503599627370496 < 4503599627370496 := Nat.mod_lt _ (by omega)
      simp only [Decoded.bits, p63, p52, decide_eq_true_eq, if_pos small]
      by_cases negative : 9223372036854775808 ≤ bits
      · rw [if_pos negative]
        omega
      · rw [if_neg negative]
        omega
    · have large : ¬ 4503599627370496 + bits % 4503599627370496 < 4503599627370496 := by omega
      simp only [Decoded.bits, p63, p52, decide_eq_true_eq, if_neg large]
      by_cases negative : 9223372036854775808 ≤ bits
      · rw [if_pos negative]
        omega
      · rw [if_neg negative]
        omega

theorem decode_injective {x y : Float} (same : decode x = decode y) : x = y :=
  eq_of_bits (by rw [← bits_decode x, ← bits_decode y, same])

/-- A finite number as it is decoded: the mantissa has its top bit unless the exponent is the least one. -/
structure Dyadic.Normal (d : Dyadic) : Prop where
  mantissa_lt : d.mantissa < twoTo 53
  exponent_ge : -1074 ≤ d.exponent
  exponent_le : d.exponent ≤ 971
  leading : d.exponent = -1074 ∨ twoTo 52 ≤ d.mantissa

theorem normal_of_decode {x : Float} {d : Dyadic} (decoded : decode x = .finite d) : d.Normal := by
  obtain ⟨p63, p52⟩ := powers_of_two
  have p53 : twoTo 53 = 9007199254740992 := by decide
  unfold decode at decoded
  simp only [beq_iff_eq, p63, p52] at decoded
  generalize x.toBits.toNat = bits at *
  split at decoded
  · split at decoded <;> cases decoded
  · split at decoded
    · cases decoded
      exact ⟨by simp only [p53]; omega, by simp, by simp, .inl rfl⟩
    · rename_i finite normal
      cases decoded
      exact ⟨by simp only [p53]; omega, by simp only; omega, by simp only; omega, .inr (by simp only [p52]; omega)⟩

namespace Dyadic

/-- The magnitude of the number. -/
def magnitude (d : Dyadic) : ℚ := d.mantissa * 2 ^ d.exponent

/-- The quantity rounds to the number: it lies between the ends of the interval of `d`, and away from them when the
mantissa is odd. -/
structure Within (d : Dyadic) (v : ℚ) : Prop where
  ge_low : ((roundingInterval d).1 : ℚ) * 2 ^ (d.exponent - 2) ≤ v
  le_high : v ≤ ((roundingInterval d).2.1 : ℚ) * 2 ^ (d.exponent - 2)
  apart : d.mantissa % 2 = 1 →
    ((roundingInterval d).1 : ℚ) * 2 ^ (d.exponent - 2) < v ∧ v < ((roundingInterval d).2.1 : ℚ) * 2 ^ (d.exponent - 2)

theorem roundingInterval_low (d : Dyadic) : (roundingInterval d).1 =
    4 * d.mantissa - (if d.mantissa = twoTo 52 ∧ d.exponent ≠ -1074 then 1 else 2) := by
  simp [roundingInterval]

theorem roundingInterval_high (d : Dyadic) : (roundingInterval d).2.1 = 4 * d.mantissa + 2 := rfl

theorem quarter_pos (e : ℤ) : (0 : ℚ) < 2 ^ (e - 2) := zpow_pos (by norm_num) _

/-- The intervals of two numbers of one exponent have at most an end in common, which only one of them rounds to. -/
theorem not_within_of_mantissa_lt {d d' : Dyadic} {v : ℚ} (normal : d.Normal) (same : d.exponent = d'.exponent)
    (less : d.mantissa < d'.mantissa) (lower : d.Within v) : ¬ d'.Within v := by
  intro upper
  have p52 := powers_of_two.2
  have positive := quarter_pos d.exponent
  have low : (roundingInterval d').1 = 4 * d'.mantissa - 2 := by
    rw [roundingInterval_low, if_neg]
    rintro ⟨top, above⟩
    have := normal.leading
    omega
  have gap : d.mantissa + 1 ≤ d'.mantissa := less
  have lowBound := upper.ge_low
  have highBound := lower.le_high
  rw [← same] at lowBound
  have ends : ((roundingInterval d').1 : ℚ) ≤ (roundingInterval d).2.1 :=
    le_of_mul_le_mul_right (lowBound.trans highBound) positive
  rw [low, roundingInterval_high, Nat.cast_le] at ends
  -- the mantissas are neighbours, and the odd one of them keeps away from the common end
  have next : d'.mantissa = d.mantissa + 1 := by omega
  have meet : (roundingInterval d').1 = (roundingInterval d).2.1 := by
    rw [low, roundingInterval_high]
    omega
  rcases Nat.mod_two_eq_zero_or_one d.mantissa with even | odd
  · have := (upper.apart (by omega)).1
    rw [← same, meet] at this
    exact absurd highBound (not_le.mpr this)
  · have := (lower.apart odd).2
    rw [meet] at lowBound
    exact absurd lowBound (not_le.mpr this)

theorem not_within_of_exponent_lt {d d' : Dyadic} {v : ℚ} (normal : d.Normal) (normal' : d'.Normal)
    (less : d.exponent < d'.exponent) (lower : d.Within v) : ¬ d'.Within v := by
  intro upper
  have p52 := powers_of_two.2
  have p53 : twoTo 53 = 9007199254740992 := by decide
  have below := normal.mantissa_lt
  have above := normal'.leading
  have least := normal.exponent_ge
  have positive := quarter_pos d.exponent
  have low : 18014398509481983 ≤ (roundingInterval d').1 := by
    rw [roundingInterval_low]
    split <;> omega
  have doubled : 2 * (2 : ℚ) ^ (d.exponent - 2) ≤ 2 ^ (d'.exponent - 2) := by
    rw [← zpow_one_add₀ (by norm_num)]
    exact zpow_le_zpow_right₀ (by norm_num) (by omega)
  have lowBound : (36028797018963966 : ℚ) * 2 ^ (d.exponent - 2) ≤ v := by
    refine le_trans ?_ upper.ge_low
    have castLow : (18014398509481983 : ℚ) ≤ (roundingInterval d').1 := by exact_mod_cast low
    calc (36028797018963966 : ℚ) * 2 ^ (d.exponent - 2) = 18014398509481983 * (2 * 2 ^ (d.exponent - 2)) := by ring
      _ ≤ 18014398509481983 * 2 ^ (d'.exponent - 2) := by gcongr
      _ ≤ (roundingInterval d').1 * 2 ^ (d'.exponent - 2) := by gcongr
  have highBound : v < (36028797018963966 : ℚ) * 2 ^ (d.exponent - 2) := by
    rcases Nat.mod_two_eq_zero_or_one d.mantissa with even | odd
    · refine lt_of_le_of_lt lower.le_high ?_
      have : (roundingInterval d).2.1 < 36028797018963966 := by
        rw [roundingInterval_high]
        omega
      gcongr
      exact_mod_cast this
    · refine lt_of_lt_of_le (lower.apart odd).2 ?_
      have : (roundingInterval d).2.1 ≤ 36028797018963966 := by
        rw [roundingInterval_high]
        omega
      gcongr
      exact_mod_cast this
  exact absurd lowBound (not_le.mpr highBound)

/-- At most one number of a sign is nearest to a quantity. -/
theorem within_unique {d d' : Dyadic} {v : ℚ} (normal : d.Normal) (normal' : d'.Normal)
    (sign : d.negative = d'.negative) (within : d.Within v) (within' : d'.Within v) : d = d' := by
  rcases lt_trichotomy d.exponent d'.exponent with less | same | less
  · exact absurd within' (not_within_of_exponent_lt normal normal' less within)
  · rcases lt_trichotomy d.mantissa d'.mantissa with less | equal | less
    · exact absurd within' (not_within_of_mantissa_lt normal same less within)
    · cases d
      cases d'
      simp only at sign equal same
      simp [sign, equal, same]
    · exact absurd within (not_within_of_mantissa_lt normal' same.symm less within')
  · exact absurd within (not_within_of_exponent_lt normal' normal less within')

end Dyadic

end ProceduralScene.Number
