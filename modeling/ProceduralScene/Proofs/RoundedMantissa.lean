import Mathlib
import ProceduralScene.Proofs.NearestNumber
import ProceduralScene.Proofs.ShownNumber

/-!
Rounding of a mantissa with its residual bits. A mantissa is shifted to the exponent of the format, where the bits
that are lost are kept as the side of the half on which the quantity lies; the mantissa rounded from them belongs
to the number nearest to the quantity.
-/

set_option autoImplicit false

namespace ProceduralScene.Number

open Float.Model
open Float.Model.UnpackedFloat

/-! ### Residual bits -/

-- The round bit tells in which half above the mantissa the quantity lies, the sticky bit whether it is inside of
-- that half or at its lower end.
def Holds (em : ExtendedMantissa) (v : ℚ) : Prop :=
  match em.roundBit, em.stickyBit with
  | false, false => v = em.mantissa
  | false, true => (em.mantissa : ℚ) < v ∧ v < em.mantissa + 1 / 2
  | true, false => v = em.mantissa + 1 / 2
  | true, true => (em.mantissa + 1 / 2 : ℚ) < v ∧ v < em.mantissa + 1

theorem holds_exact (m : ℕ) : Holds (.ofMantissaAndAccuracy m .exact) m := rfl

theorem holds_shiftRightOne {em : ExtendedMantissa} {v : ℚ} (holds : Holds em v) : Holds em.shiftRightOne (v / 2) := by
  obtain ⟨m, round, sticky⟩ := em
  have parts : (m : ℚ) = 2 * (m / 2 : ℕ) + (m % 2 : ℕ) := by exact_mod_cast (Nat.div_add_mod m 2).symm
  -- the bit that is lost becomes the round bit, and the round bit joins the sticky one
  rcases Nat.mod_two_eq_zero_or_one m with even | odd
  · rw [even] at parts
    cases round <;> cases sticky <;>
      simp only [Holds, ExtendedMantissa.shiftRightOne, even, bne_self_eq_false, Bool.or_false, Bool.or_true,
        Nat.cast_zero] at holds parts ⊢
    · linarith
    all_goals constructor <;> linarith
  · rw [odd] at parts
    cases round <;> cases sticky <;>
      simp only [Holds, ExtendedMantissa.shiftRightOne, odd, Bool.or_false, Bool.or_true, Nat.cast_one,
        show (1 != 0) = true from rfl] at holds parts ⊢
    · linarith
    all_goals constructor <;> linarith

theorem holds_shiftRight {em : ExtendedMantissa} {v : ℚ} (holds : Holds em v) (n : ℕ) : Holds (em >>> n) (v / 2 ^ n) := by
  change Holds (n.repeat ExtendedMantissa.shiftRightOne em) _
  induction n with
  | zero => simpa [Nat.repeat] using holds
  | succ n ih =>
    rw [Nat.repeat, pow_succ, div_mul_eq_div_div]
    exact holds_shiftRightOne ih

theorem mantissa_shiftRight (em : ExtendedMantissa) (n : ℕ) : (em >>> n).mantissa = em.mantissa / 2 ^ n := by
  change (n.repeat ExtendedMantissa.shiftRightOne em).mantissa = _
  induction n with
  | zero => simp [Nat.repeat]
  | succ n ih =>
    rw [Nat.repeat, pow_succ, ← Nat.div_div_eq_div_mul, ← ih]
    rfl

theorem Holds.bounds {em : ExtendedMantissa} {v : ℚ} (holds : Holds em v) : (em.mantissa : ℚ) ≤ v ∧ v < em.mantissa + 1 := by
  obtain ⟨m, round, sticky⟩ := em
  cases round <;> cases sticky <;> simp only [Holds] at holds <;> constructor <;> linarith

-- A mantissa nearest to the quantity, and the even one of two that are.
structure RoundsTo (v : ℚ) (r : ℕ) : Prop where
  ge_half : (r : ℚ) - 1 / 2 ≤ v
  le_half : v ≤ r + 1 / 2
  apart : r % 2 = 1 → (r : ℚ) - 1 / 2 < v ∧ v < r + 1 / 2

theorem Holds.rounded {em : ExtendedMantissa} {v : ℚ} (holds : Holds em v) : RoundsTo v em.roundedMantissa := by
  obtain ⟨m, round, sticky⟩ := em
  cases round <;> cases sticky <;> simp only [Holds] at holds <;>
    simp only [ExtendedMantissa.roundedMantissa, ExtendedMantissa.accuracy, Accuracy.roundToNearestEven]
  · exact ⟨by linarith, by linarith, fun _ => ⟨by linarith, by linarith⟩⟩
  · exact ⟨by linarith, by linarith, fun _ => ⟨by linarith, by linarith⟩⟩
  · -- on the half itself the even neighbour is taken
    rcases Nat.mod_two_eq_zero_or_one m with even | odd
    · rw [even]
      exact ⟨by push_cast; linarith, by push_cast; linarith, fun odd => by omega⟩
    · rw [odd]
      exact ⟨by push_cast; linarith, by push_cast; linarith, fun even => by omega⟩
  · exact ⟨by push_cast; linarith, by push_cast; linarith, fun _ => ⟨by push_cast; linarith, by push_cast; linarith⟩⟩

theorem roundedMantissa_bounds (em : ExtendedMantissa) :
    em.mantissa ≤ em.roundedMantissa ∧ em.roundedMantissa ≤ em.mantissa + 1 := by
  obtain ⟨m, round, sticky⟩ := em
  cases round <;> cases sticky <;>
    simp only [ExtendedMantissa.roundedMantissa, ExtendedMantissa.accuracy, Accuracy.roundToNearestEven] <;> omega

/-! ### Numbers nearest to a quantity -/

namespace Dyadic

theorem unit_pos (e : ℤ) : (0 : ℚ) < 2 ^ e := zpow_pos (by norm_num) _

theorem cast_low {d : Dyadic} (some : 0 < d.mantissa) : ((roundingInterval d).1 : ℚ) * 2 ^ (d.exponent - 2) =
    (d.mantissa - (if d.mantissa = twoTo 52 ∧ d.exponent ≠ -1074 then 1 / 4 else 1 / 2)) * 2 ^ d.exponent := by
  rw [roundingInterval_low, quarter_eq]
  split
  · rw [Nat.cast_sub (by omega)]
    push_cast
    ring
  · rw [Nat.cast_sub (by omega)]
    push_cast
    ring

theorem cast_high (d : Dyadic) :
    ((roundingInterval d).2.1 : ℚ) * 2 ^ (d.exponent - 2) = (d.mantissa + 1 / 2) * 2 ^ d.exponent := by
  rw [roundingInterval_high, quarter_eq]
  push_cast
  ring

-- Below a power of two the numbers are twice as dense, so there the quantity may be at most a quarter below.
theorem within_of_rounds {d : Dyadic} {v : ℚ} (nonneg : 0 ≤ v) (rounds : RoundsTo (v / 2 ^ d.exponent) d.mantissa)
    (least : d.mantissa = twoTo 52 → d.exponent ≠ -1074 → (d.mantissa - 1 / 4 : ℚ) ≤ v / 2 ^ d.exponent) : d.Within v := by
  have unit := unit_pos d.exponent
  obtain ⟨low, high, apart⟩ := rounds
  rw [le_div_iff₀ unit] at low least
  rw [div_le_iff₀ unit, ← cast_high] at high
  rw [lt_div_iff₀ unit, div_lt_iff₀ unit, ← cast_high] at apart
  by_cases zero : d.mantissa = 0
  · -- the lower end of the interval of zero would be negative, and is cut off
    refine ⟨?_, high, fun odd => by omega⟩
    have bottom : (roundingInterval d).1 = 0 := by
      rw [roundingInterval_low, zero]
      split <;> rfl
    rwa [bottom, Nat.cast_zero, zero_mul]
  · have positive : 0 < d.mantissa := Nat.pos_of_ne_zero zero
    have bottom := cast_low positive
    by_cases power : d.mantissa = twoTo 52 ∧ d.exponent ≠ -1074
    · have p52 := powers_of_two.2
      rw [if_pos power] at bottom
      exact ⟨by rw [bottom]; exact least power.1 power.2, high, fun odd => by omega⟩
    · rw [if_neg power] at bottom
      refine ⟨by rw [bottom]; exact low, high, fun odd => ?_⟩
      rw [bottom]
      exact apart odd

def unpacked (d : Dyadic) : UnpackedFloat :=
  if none : d.mantissa = 0 then .zero (if d.negative then .negative else .positive)
  else .finite (if d.negative then .negative else .positive) d.mantissa d.exponent (Nat.pos_of_ne_zero none)

end Dyadic

/-! ### Shifting to the exponent of the format -/

-- Either the top bit of the mantissa is that of the format, or its unit is the least there is.
def roundingExponent (m : ℕ) (e : ℤ) : ℤ := max ((m.log2 : ℤ) + e - 52) (-1074)

theorem least_le_roundingExponent (m : ℕ) (e : ℤ) : -1074 ≤ roundingExponent m e := le_max_right _ _

theorem targetExponent_eq (m : ℕ) (e : ℤ) :
    Format.binary64.targetExponent (totalExponent m e) = roundingExponent m e := by
  have minimum : Format.binary64.minExponent = -1074 := by decide
  have bits : (Format.binary64.mantissaBits : ℤ) = 53 := by decide
  rw [Format.targetExponent, totalExponent, minimum, bits, roundingExponent]
  congr 1
  ring

theorem log2_le_of_lt {m k : ℕ} (less : m < 2 ^ (k + 1)) : m.log2 ≤ k := by
  by_cases none : m = 0
  · simp [none]
  · exact Nat.lt_succ_iff.mp ((Nat.log2_lt none).mpr less)

-- After rounding the mantissa is shifted once more. That does nothing unless the rounding has carried.
theorem shift_rounded {r : ℕ} {t : ℤ} (most : r ≤ twoTo 53) (least : -1074 ≤ t) :
    (shiftToTargetExponent Format.binary64 r t .exact).1.mantissa = (carried r t).1 ∧
      (shiftToTargetExponent Format.binary64 r t .exact).2 = (carried r t).2 := by
  rw [shiftToTargetExponent, targetExponent_eq, shiftToExponent]
  dsimp only
  rw [mantissa_shiftRight]
  change r / 2 ^ _ = _ ∧ _
  unfold carried
  by_cases carry : r = twoTo 53
  · have log : r.log2 = 53 := by
      rw [carry]
      exact Nat.log2_two_pow
    have one : (roundingExponent r t - t).toNat = 1 := by
      rw [roundingExponent, log]
      omega
    rw [one, if_pos (by simpa using carry), carry]
    exact ⟨rfl, rfl⟩
  · have small : r.log2 ≤ 52 := log2_le_of_lt (lt_of_le_of_ne most carry)
    have none : (roundingExponent r t - t).toNat = 0 := by
      rw [roundingExponent]
      omega
    rw [none, if_neg (by simpa using carry)]
    simp

section

variable {m : ℕ} {e : ℤ} {accuracy : Accuracy}

def shifted (m : ℕ) (e : ℤ) (accuracy : Accuracy) : ExtendedMantissa :=
  ExtendedMantissa.ofMantissaAndAccuracy m accuracy >>> (roundingExponent m e - e).toNat

theorem mantissa_shifted : (shifted m e accuracy).mantissa = m / 2 ^ (roundingExponent m e - e).toNat := by
  rw [shifted, mantissa_shiftRight]
  cases accuracy with
  | exact => rfl
  | inexact side => cases side <;> rfl

-- A mantissa is never shifted to the left: one of fewer bits than the format is only rounded right where its unit
-- is at most that of the subnormal numbers.
def EnoughBits (m : ℕ) (e : ℤ) : Prop := twoTo 52 ≤ m ∨ e ≤ -1074

theorem EnoughBits.le (bits : EnoughBits m e) : e ≤ roundingExponent m e := by
  unfold roundingExponent
  rcases bits with full | low
  · have : 52 ≤ m.log2 := (Nat.le_log2 (by have := twoTo_pos 52; omega)).mpr full
    omega
  · omega

theorem shifted_mantissa_lt (bits : EnoughBits m e) (accuracy : Accuracy) : (shifted m e accuracy).mantissa < twoTo 53 := by
  have above := bits.le
  rw [mantissa_shifted, Nat.div_lt_iff_lt_mul (by positivity)]
  calc m < 2 ^ (m.log2 + 1) := Nat.lt_log2_self
    _ ≤ 2 ^ (53 + (roundingExponent m e - e).toNat) := by
      apply Nat.pow_le_pow_right (by decide)
      unfold roundingExponent at above ⊢
      omega
    _ = twoTo 53 * 2 ^ (roundingExponent m e - e).toNat := Nat.pow_add 2 _ _

theorem le_shifted_mantissa (bits : EnoughBits m e) (normal : roundingExponent m e ≠ -1074) (accuracy : Accuracy) :
    twoTo 52 ≤ (shifted m e accuracy).mantissa := by
  have above := bits.le
  have some : m ≠ 0 := by
    rintro rfl
    rcases bits with full | low
    · exact absurd full (by decide)
    · simp only [roundingExponent, Nat.log2_zero] at normal
      omega
  rw [mantissa_shifted, Nat.le_div_iff_mul_le (by positivity)]
  calc twoTo 52 * 2 ^ (roundingExponent m e - e).toNat = 2 ^ (52 + (roundingExponent m e - e).toNat) := (Nat.pow_add 2 _ _).symm
    _ = 2 ^ m.log2 := by
      unfold roundingExponent at above normal ⊢
      congr 1
      omega
    _ ≤ m := Nat.log2_self_le some

theorem holds_shifted {v : ℚ} (bits : EnoughBits m e)
    (holds : Holds (ExtendedMantissa.ofMantissaAndAccuracy m accuracy) (v / 2 ^ e)) :
    Holds (shifted m e accuracy) (v / 2 ^ roundingExponent m e) := by
  have split : v / 2 ^ roundingExponent m e = v / 2 ^ e / 2 ^ (roundingExponent m e - e).toNat := by
    rw [div_div, ← zpow_natCast, ← zpow_add₀ (by norm_num), Int.toNat_of_nonneg (by have := bits.le; omega)]
    congr 2
    omega
  rw [split]
  exact holds_shiftRight holds _

def roundedNumber (negative : Bool) (m : ℕ) (e : ℤ) (accuracy : Accuracy) : Dyadic :=
  let parts := carried (shifted m e accuracy).roundedMantissa (roundingExponent m e)
  ⟨negative, parts.1, parts.2⟩

theorem shifted_rounded_le (bits : EnoughBits m e) (accuracy : Accuracy) : (shifted m e accuracy).roundedMantissa ≤ twoTo 53 := by
  have := shifted_mantissa_lt bits accuracy
  have := roundedMantissa_bounds (shifted m e accuracy)
  omega

theorem roundWithAccuracy_eq (bits : EnoughBits m e) (negative : Bool) :
    roundWithAccuracy Format.binary64 (if negative then .negative else .positive) m e accuracy =
      (roundedNumber negative m e accuracy).unpacked := by
  obtain ⟨mantissa, exponent⟩ := shift_rounded (shifted_rounded_le bits accuracy) (least_le_roundingExponent m e)
  have first : shiftToTargetExponent Format.binary64 m e accuracy = (shifted m e accuracy, roundingExponent m e) := by
    rw [shiftToTargetExponent, targetExponent_eq, shiftToExponent]
    congr 1
    have := bits.le
    omega
  rw [roundWithAccuracy, first]
  simp only [mantissa, exponent]
  rfl

theorem roundingExponent_le {v : ℚ} (bits : EnoughBits m e)
    (holds : Holds (ExtendedMantissa.ofMantissaAndAccuracy m accuracy) (v / 2 ^ e)) (small : v < 2 ^ (1023 : ℤ)) :
    roundingExponent m e ≤ 970 := by
  by_cases least : roundingExponent m e = -1074
  · omega
  -- the mantissa has all its bits, so the quantity is at least their power of two
  have unit := Dyadic.unit_pos (roundingExponent m e)
  have low := (le_div_iff₀ unit).mp (holds_shifted bits holds).bounds.1
  have full : (2 : ℚ) ^ (52 : ℤ) ≤ (shifted m e accuracy).mantissa := by
    rw [← show (twoTo 52 : ℚ) = 2 ^ (52 : ℤ) from cast_twoTo_zpow 52]
    exact_mod_cast le_shifted_mantissa bits least accuracy
  have : (2 : ℚ) ^ (52 + roundingExponent m e) < 2 ^ (1023 : ℤ) := by
    calc (2 : ℚ) ^ (52 + roundingExponent m e) = 2 ^ (52 : ℤ) * 2 ^ roundingExponent m e := zpow_add₀ (by norm_num) _ _
      _ ≤ (shifted m e accuracy).mantissa * 2 ^ roundingExponent m e := by gcongr
      _ ≤ v := low
      _ < 2 ^ (1023 : ℤ) := small
  have := (zpow_lt_zpow_iff_right₀ (by norm_num : (1 : ℚ) < 2)).mp this
  omega

theorem normal_roundedNumber (bits : EnoughBits m e) (small : roundingExponent m e ≤ 970) (negative : Bool) :
    (roundedNumber negative m e accuracy).Normal := by
  have p52 := powers_of_two.2
  have p53 : twoTo 53 = 9007199254740992 := by decide
  have most := shifted_rounded_le bits accuracy
  have least := least_le_roundingExponent m e
  have full := fun normal => (le_shifted_mantissa bits normal accuracy).trans (roundedMantissa_bounds _).1
  unfold roundedNumber carried
  dsimp only
  split
  · -- a carry leaves the least mantissa of the next exponent
    exact ⟨by dsimp only; omega, by dsimp only; omega, by dsimp only; omega, .inr (le_refl _)⟩
  · rename_i fits
    have fits : (shifted m e accuracy).roundedMantissa ≠ twoTo 53 := by simpa using fits
    refine ⟨by dsimp only; omega, least, by dsimp only; omega, ?_⟩
    by_cases normal : roundingExponent m e = -1074
    · exact .inl normal
    · exact .inr (full normal)

theorem within_roundedNumber {v : ℚ} (nonneg : 0 ≤ v) (bits : EnoughBits m e)
    (holds : Holds (ExtendedMantissa.ofMantissaAndAccuracy m accuracy) (v / 2 ^ e)) (negative : Bool) :
    (roundedNumber negative m e accuracy).Within v := by
  have held := holds_shifted bits holds
  have rounds := held.rounded
  have p52 := powers_of_two.2
  have c52 : (twoTo 52 : ℚ) = 4503599627370496 := by exact_mod_cast p52
  unfold roundedNumber carried
  dsimp only
  split
  · rename_i carry
    have carry : (shifted m e accuracy).roundedMantissa = twoTo 53 := by simpa using carry
    have most : (shifted m e accuracy).mantissa + 1 ≤ twoTo 53 := shifted_mantissa_lt bits accuracy
    -- the quantity is below the power of two, by at most a half of the finer unit
    have c53 : (twoTo 53 : ℚ) = 9007199254740992 := by exact_mod_cast (by decide : twoTo 53 = 9007199254740992)
    have high : v / 2 ^ roundingExponent m e ≤ 9007199254740992 := by
      rw [← c53]
      refine held.bounds.2.le.trans ?_
      exact_mod_cast most
    have low := rounds.ge_half
    rw [carry, c53] at low
    have half : v / 2 ^ (roundingExponent m e + 1) = v / 2 ^ roundingExponent m e / 2 := by
      rw [zpow_add_one₀ (by norm_num), div_mul_eq_div_div]
    apply Dyadic.within_of_rounds nonneg
    · dsimp only
      rw [half]
      refine ⟨by rw [c52]; linarith, by rw [c52]; linarith, fun odd => by omega⟩
    · intro _ _
      dsimp only
      rw [half, c52]
      linarith
  · apply Dyadic.within_of_rounds nonneg rounds
    dsimp only
    intro power normal
    -- the bits before rounding were already full, so the quantity is not below the power of two
    have full : (twoTo 52 : ℚ) ≤ (shifted m e accuracy).mantissa := by exact_mod_cast le_shifted_mantissa bits normal accuracy
    rw [power]
    linarith [held.bounds.1]

end

end ProceduralScene.Number
