import Mathlib
import ProceduralScene.Proofs.NearestValue
import ProceduralScene.Value.Arithmetic

/-!
Arithmetic of floating numbers on exact quantities. A sum, a difference, a product and a quotient are the numbers
nearest to the exact results, and a result that is itself a number is exact. Dividing whole numbers of at most the
bits of the format loses nothing that the next whole number above depends on.
-/

set_option autoImplicit false

namespace ProceduralScene.Number

open Float.Model
open Float.Model.UnpackedFloat

/-! ### Operations on the opened form -/

namespace Dyadic

variable {d e : Dyadic}

def negated (d : Dyadic) : Dyadic := { d with negative := !d.negative }

theorem value_negated (d : Dyadic) : d.negated.value = -d.value := by
  obtain ⟨negative, mantissa, exponent⟩ := d
  cases negative <;> simp [negated, value, magnitude]

theorem unpacked_negated (d : Dyadic) : d.negated.unpacked = d.unpacked.neg := by
  obtain ⟨negative, mantissa, exponent⟩ := d
  unfold negated unpacked
  dsimp only
  by_cases none : mantissa = 0
  · rw [dif_pos none, dif_pos none]
    cases negative <;> rfl
  · rw [dif_neg none, dif_neg none]
    cases negative <;> rfl

theorem normal_negated (normal : d.Normal) : d.negated.Normal :=
  ⟨normal.mantissa_lt, normal.exponent_ge, normal.exponent_le, normal.leading⟩

def zero (negative : Bool) : Dyadic := ⟨negative, 0, -1074⟩

theorem unpacked_zero (negative : Bool) : (zero negative).unpacked = .zero (if negative then .negative else .positive) := rfl

theorem nearest_zero (negative : Bool) : (zero negative).Nearest 0 where
  normal := ⟨twoTo_pos 53, le_refl _, by dsimp only [zero]; omega, .inl rfl⟩
  within := by
    rw [abs_zero]
    exact within_zero rfl
  negative less := absurd less (lt_irrefl _)
  positive more := absurd more (lt_irrefl _)

theorem unpacked_of_mantissa (none : d.mantissa = 0) : d.unpacked = .zero (if d.negative then .negative else .positive) := by
  rw [unpacked, dif_pos none]

theorem unpacked_of_pos (some : d.mantissa ≠ 0) : d.unpacked =
    .finite (if d.negative then .negative else .positive) d.mantissa d.exponent (Nat.pos_of_ne_zero some) := by
  rw [unpacked, dif_neg some]

end Dyadic

theorem apply_sign (negative : Bool) (m : ℕ) :
    (if negative then Sign.negative else Sign.positive).apply m = if negative then -(m : ℤ) else m := by
  cases negative <;> rfl

theorem decreaseExponent_least {e least : ℤ} (below : least ≤ e) (m : ℕ) :
    (((decreaseExponent m e least).1 : ℕ) : ℚ) * 2 ^ least = m * 2 ^ e := by
  unfold decreaseExponent
  dsimp only
  obtain ⟨k, gap⟩ := Int.eq_ofNat_of_zero_le (by omega : 0 ≤ e - least)
  have unit : least = e - k := by omega
  rw [gap, Int.toNat_natCast, Nat.shiftLeft_eq, unit]
  exact Dyadic.scaled_eq m k e

theorem add_unpacked {d e : Dyadic} (normal : d.Normal) (normal' : e.Normal) (small : |d.value + e.value| < 2 ^ (1023 : ℤ)) :
    ∃ f : Dyadic, f.Nearest (d.value + e.value) ∧ UnpackedFloat.add Format.binary64 d.unpacked e.unpacked = f.unpacked := by
  -- a zero is not a finite mantissa in the opened form, and adding it does not round
  by_cases none : d.mantissa = 0
  · rw [Dyadic.value_of_mantissa none, zero_add, Dyadic.unpacked_of_mantissa none]
    by_cases none' : e.mantissa = 0
    · rw [Dyadic.value_of_mantissa none', Dyadic.unpacked_of_mantissa none']
      refine ⟨.zero (d.negative && e.negative), Dyadic.nearest_zero _, ?_⟩
      cases d.negative <;> cases e.negative <;> rfl
    · refine ⟨e, Dyadic.nearest_value normal', ?_⟩
      rw [Dyadic.unpacked_of_pos none']
      rfl
  by_cases none' : e.mantissa = 0
  · rw [Dyadic.value_of_mantissa none', add_zero, Dyadic.unpacked_of_mantissa none']
    refine ⟨d, Dyadic.nearest_value normal, ?_⟩
    rw [Dyadic.unpacked_of_pos none]
    rfl
  · rw [Dyadic.unpacked_of_pos none, Dyadic.unpacked_of_pos none']
    -- both mantissas in the smaller one of the units
    have left := decreaseExponent_least (min_le_left d.exponent e.exponent) d.mantissa
    have right := decreaseExponent_least (min_le_right d.exponent e.exponent) e.mantissa
    have sum : d.value + e.value = (((if d.negative then Sign.negative else Sign.positive).apply
          (decreaseExponent d.mantissa d.exponent (min d.exponent e.exponent)).1 +
        (if e.negative then Sign.negative else Sign.positive).apply
          (decreaseExponent e.mantissa e.exponent (min d.exponent e.exponent)).1 : ℤ) : ℚ) * 2 ^ min d.exponent e.exponent := by
      rw [apply_sign, apply_sign, Int.cast_add, add_mul]
      unfold Dyadic.value Dyadic.magnitude
      rw [← left, ← right]
      cases d.negative <;> cases e.negative <;> simp
    rw [sum] at small ⊢
    exact normalize_nearest _ small

theorem apply_neg (sign : Sign) (n : ℤ) : (-sign).apply n = -sign.apply n := by
  cases sign
  · exact (neg_neg n).symm
  · rfl

theorem sub_eq_add_neg_unpacked (x y : UnpackedFloat) :
    UnpackedFloat.sub Format.binary64 x y = UnpackedFloat.add Format.binary64 x y.neg := by
  cases x <;> cases y <;> try rfl
  simp only [UnpackedFloat.sub, UnpackedFloat.add, UnpackedFloat.neg, apply_neg, sub_eq_add_neg]

theorem sub_unpacked {d e : Dyadic} (normal : d.Normal) (normal' : e.Normal) (small : |d.value - e.value| < 2 ^ (1023 : ℤ)) :
    ∃ f : Dyadic, f.Nearest (d.value - e.value) ∧ UnpackedFloat.sub Format.binary64 d.unpacked e.unpacked = f.unpacked := by
  rw [sub_eq_add_neg_unpacked, ← Dyadic.unpacked_negated, sub_eq_add_neg, ← Dyadic.value_negated]
  rw [sub_eq_add_neg, ← Dyadic.value_negated] at small
  exact add_unpacked normal (Dyadic.normal_negated normal') small

theorem mul_sign (negative negative' : Bool) : (if negative then Sign.negative else Sign.positive) *
      (if negative' then Sign.negative else Sign.positive) = if negative != negative' then .negative else .positive := by
  cases negative <;> cases negative' <;> rfl

theorem div_sign (negative negative' : Bool) : (if negative then Sign.negative else Sign.positive) /
      (if negative' then Sign.negative else Sign.positive) = if negative != negative' then .negative else .positive := by
  cases negative <;> cases negative' <;> rfl

-- Normal numbers have all their bits, and the product of two of the least unit is far below it.
theorem enoughBits_mul {d e : Dyadic} (normal : d.Normal) (normal' : e.Normal) (some : d.mantissa ≠ 0) (some' : e.mantissa ≠ 0) :
    EnoughBits (d.mantissa * e.mantissa) (d.exponent + e.exponent) := by
  rcases normal.leading with low | full
  · rcases normal'.leading with low' | full'
    · right
      omega
    · left
      exact full'.trans (Nat.le_mul_of_pos_left _ (Nat.pos_of_ne_zero some))
  · left
    exact full.trans (Nat.le_mul_of_pos_right _ (Nat.pos_of_ne_zero some'))

theorem mul_value (d e : Dyadic) : d.value * e.value =
    if d.negative != e.negative then -(d.magnitude * e.magnitude) else d.magnitude * e.magnitude := by
  unfold Dyadic.value
  cases d.negative <;> cases e.negative <;> simp

theorem mul_unpacked {d e : Dyadic} (normal : d.Normal) (normal' : e.Normal) (small : |d.value * e.value| < 2 ^ (1023 : ℤ)) :
    ∃ f : Dyadic, f.Nearest (d.value * e.value) ∧ UnpackedFloat.mul Format.binary64 d.unpacked e.unpacked = f.unpacked := by
  by_cases none : d.mantissa = 0
  · rw [Dyadic.value_of_mantissa none, zero_mul, Dyadic.unpacked_of_mantissa none]
    refine ⟨.zero (d.negative != e.negative), Dyadic.nearest_zero _, ?_⟩
    rw [Dyadic.unpacked_zero, ← mul_sign]
    by_cases none' : e.mantissa = 0
    · rw [Dyadic.unpacked_of_mantissa none']
      rfl
    · rw [Dyadic.unpacked_of_pos none']
      rfl
  by_cases none' : e.mantissa = 0
  · rw [Dyadic.value_of_mantissa none', mul_zero, Dyadic.unpacked_of_mantissa none', Dyadic.unpacked_of_pos none]
    refine ⟨.zero (d.negative != e.negative), Dyadic.nearest_zero _, ?_⟩
    rw [Dyadic.unpacked_zero, ← mul_sign]
    rfl
  · have bits := enoughBits_mul normal normal' none none'
    have unit := Dyadic.unit_pos (d.exponent + e.exponent)
    have product : d.magnitude * e.magnitude = (d.mantissa * e.mantissa : ℕ) * 2 ^ (d.exponent + e.exponent) := by
      unfold Dyadic.magnitude
      rw [zpow_add₀ (by norm_num)]
      push_cast
      ring
    have holds : Holds (ExtendedMantissa.ofMantissaAndAccuracy (d.mantissa * e.mantissa) .exact)
        (d.magnitude * e.magnitude / 2 ^ (d.exponent + e.exponent)) := by
      rw [product, mul_div_cancel_right₀ _ unit.ne']
      exact holds_exact _
    rw [abs_mul, Dyadic.abs_value, Dyadic.abs_value] at small
    have nonneg := mul_nonneg d.magnitude_nonneg e.magnitude_nonneg
    refine ⟨_, by rw [mul_value]; exact rounded_nearest nonneg bits holds small _, ?_⟩
    rw [← roundWithAccuracy_eq bits, ← mul_sign, Dyadic.unpacked_of_pos none, Dyadic.unpacked_of_pos none']
    rfl

-- The remainder tells the residual bits of a quotient: twice it is compared with the divisor.
theorem holds_quotient (m : ℕ) {den : ℕ} (positive : 0 < den) :
    Holds (ExtendedMantissa.ofMantissaAndAccuracy (m / den) (accuracyOfFraction (m % den) den)) (m / den : ℚ) := by
  have cast : (0 : ℚ) < den := by exact_mod_cast positive
  have parts : (m : ℚ) = den * (m / den : ℕ) + (m % den : ℕ) := by exact_mod_cast (Nat.div_add_mod m den).symm
  have small : ((m % den : ℕ) : ℚ) < den := by exact_mod_cast Nat.mod_lt m positive
  generalize m / den = q at *
  generalize m % den = r at *
  have quotient : (m / den : ℚ) = q + r / den := by
    rw [parts]
    field_simp
  rw [quotient]
  unfold accuracyOfFraction
  by_cases whole : r = 0
  · rw [if_pos whole, whole, Nat.cast_zero, zero_div, add_zero]
    exact holds_exact q
  have some : (0 : ℚ) < r := by exact_mod_cast Nat.pos_of_ne_zero whole
  have inside : (0 : ℚ) < r / den ∧ (r / den : ℚ) < 1 := ⟨div_pos some cast, (div_lt_one cast).mpr small⟩
  rw [if_neg whole]
  rcases lt_trichotomy (2 * r) den with less | same | more
  · have half : (r / den : ℚ) < 1 / 2 := by
      rw [div_lt_iff₀ cast]
      have : (2 * r : ℚ) < den := by exact_mod_cast less
      linarith
    rw [Nat.compare_eq_lt.mpr less]
    constructor <;> dsimp only [ExtendedMantissa.ofMantissaAndAccuracy] <;> linarith
  · have half : (r / den : ℚ) = 1 / 2 := by
      rw [div_eq_iff cast.ne']
      have : (2 * r : ℚ) = den := by exact_mod_cast same
      linarith
    rw [Nat.compare_eq_eq.mpr same, half]
    rfl
  · have half : 1 / 2 < (r / den : ℚ) := by
      rw [lt_div_iff₀ cast]
      have : (den : ℚ) < 2 * r := by exact_mod_cast more
      linarith
    rw [Nat.compare_eq_gt.mpr more]
    constructor <;> dsimp only [ExtendedMantissa.ofMantissaAndAccuracy] <;> linarith

-- The dividend is shifted up before it is divided, so that the quotient still has the bits of the format.
theorem divCore_enough {m m' : ℕ} {e e' : ℤ} (some : m ≠ 0) (some' : m' ≠ 0) : ∃ n t accuracy,
    divCore Format.binary64 m e m' e' = (n, t, accuracy) ∧ EnoughBits n t ∧
      Holds (ExtendedMantissa.ofMantissaAndAccuracy n accuracy) ((m * 2 ^ e / (m' * 2 ^ e') : ℚ) / 2 ^ t) := by
  have minimum : Format.binary64.minExponent = -1074 := by decide
  have bits : (Format.binary64.mantissaBits : ℤ) = 53 := by decide
  unfold divCore Format.targetExponent totalExponent
  rw [minimum, bits]
  dsimp only
  generalize unit : min (e - e') (max ((m.log2 : ℤ) + 1 + e - (m'.log2 + 1 + e') - 53) (-1074)) = t
  generalize amount : (e - e' - t).toNat = k
  refine ⟨_, _, _, rfl, ?_, ?_⟩
  · by_cases low : t ≤ -1074
    · exact .inr low
    · left
      rw [Nat.le_div_iff_mul_le (Nat.pos_of_ne_zero some'), Nat.shiftLeft_eq]
      calc twoTo 52 * m' ≤ 2 ^ 52 * 2 ^ (m'.log2 + 1) := Nat.mul_le_mul_left _ Nat.lt_log2_self.le
        _ = 2 ^ (52 + (m'.log2 + 1)) := (Nat.pow_add 2 _ _).symm
        _ ≤ 2 ^ (m.log2 + k) := Nat.pow_le_pow_right (by decide) (by omega)
        _ = 2 ^ m.log2 * 2 ^ k := Nat.pow_add 2 _ _
        _ ≤ m * 2 ^ k := Nat.mul_le_mul_right _ (Nat.log2_self_le some)
  · have scaled : ((m * 2 ^ e / (m' * 2 ^ e') : ℚ) / 2 ^ t) = ((m <<< k : ℕ) : ℚ) / m' := by
      have gap : (k : ℤ) = e - e' - t := by omega
      rw [Nat.shiftLeft_eq]
      push_cast
      rw [← zpow_natCast, gap, zpow_sub₀ (by norm_num), zpow_sub₀ (by norm_num)]
      field_simp
    rw [scaled]
    exact holds_quotient _ (Nat.pos_of_ne_zero some')

theorem div_value (d e : Dyadic) : d.value / e.value =
    if d.negative != e.negative then -(d.magnitude / e.magnitude) else d.magnitude / e.magnitude := by
  unfold Dyadic.value
  cases d.negative <;> cases e.negative <;> simp [neg_div, div_neg]

theorem div_unpacked {d e : Dyadic} (some' : e.mantissa ≠ 0) (small : |d.value / e.value| < 2 ^ (1023 : ℤ)) :
    ∃ f : Dyadic, f.Nearest (d.value / e.value) ∧ UnpackedFloat.div Format.binary64 d.unpacked e.unpacked = f.unpacked := by
  rw [Dyadic.unpacked_of_pos some']
  by_cases none : d.mantissa = 0
  · rw [Dyadic.value_of_mantissa none, zero_div, Dyadic.unpacked_of_mantissa none]
    refine ⟨.zero (d.negative != e.negative), Dyadic.nearest_zero _, ?_⟩
    rw [Dyadic.unpacked_zero, ← div_sign]
    rfl
  · obtain ⟨n, t, accuracy, core, bits, holds⟩ := @divCore_enough _ _ d.exponent e.exponent none some'
    rw [abs_div, Dyadic.abs_value, Dyadic.abs_value] at small
    have nonneg := div_nonneg d.magnitude_nonneg e.magnitude_nonneg
    refine ⟨_, by rw [div_value]; exact rounded_nearest nonneg bits holds small _, ?_⟩
    rw [← roundWithAccuracy_eq bits, ← div_sign, Dyadic.unpacked_of_pos none, UnpackedFloat.div, core]

/-! ### Floating numbers -/

/-- A finite number denotes a quantity. -/
def Denotes (x : Float) (v : ℚ) : Prop := ∃ d, decode x = .finite d ∧ d.value = v

/-- A finite number is the one nearest to a quantity. -/
def Rounds (x : Float) (v : ℚ) : Prop := ∃ d, decode x = .finite d ∧ d.Nearest v

section

variable {x y : Float} {u v : ℚ}

theorem Rounds.denotes (rounds : Rounds x v) (exact : Dyadic.Exact v) : Denotes x v := by
  obtain ⟨d, decoded, nearest⟩ := rounds
  exact ⟨d, decoded, nearest.exact exact⟩

theorem rounds_ofModel {d : Dyadic} (nearest : d.Nearest v) : Rounds (Float.ofModel (Float.Model.pack d.unpacked)) v :=
  ⟨d, Dyadic.decode_pack nearest.normal, nearest⟩

-- The four operations open both numbers, work on the opened form and pack the result.
theorem rounds_opened {f : UnpackedFloat → UnpackedFloat → UnpackedFloat} {d e : Dyadic} {z : Float}
    (left : decode x = .finite d) (right : decode y = .finite e)
    (opened : z = Float.ofModel (Float.Model.pack (f x.toModel.unpack y.toModel.unpack)))
    (result : ∃ g : Dyadic, g.Nearest v ∧ f d.unpacked e.unpacked = g.unpacked) : Rounds z v := by
  obtain ⟨g, nearest, same⟩ := result
  rw [opened, Dyadic.unpack_of_decode left, Dyadic.unpack_of_decode right, same]
  exact rounds_ofModel nearest

theorem add_rounds (left : Denotes x u) (right : Denotes y v) (small : |u + v| < 2 ^ (1023 : ℤ)) : Rounds (x + y) (u + v) := by
  obtain ⟨d, decoded, rfl⟩ := left
  obtain ⟨e, decoded', rfl⟩ := right
  exact rounds_opened decoded decoded' rfl (add_unpacked (normal_of_decode decoded) (normal_of_decode decoded') small)

theorem sub_rounds (left : Denotes x u) (right : Denotes y v) (small : |u - v| < 2 ^ (1023 : ℤ)) : Rounds (x - y) (u - v) := by
  obtain ⟨d, decoded, rfl⟩ := left
  obtain ⟨e, decoded', rfl⟩ := right
  exact rounds_opened decoded decoded' rfl (sub_unpacked (normal_of_decode decoded) (normal_of_decode decoded') small)

theorem mul_rounds (left : Denotes x u) (right : Denotes y v) (small : |u * v| < 2 ^ (1023 : ℤ)) : Rounds (x * y) (u * v) := by
  obtain ⟨d, decoded, rfl⟩ := left
  obtain ⟨e, decoded', rfl⟩ := right
  exact rounds_opened decoded decoded' rfl (mul_unpacked (normal_of_decode decoded) (normal_of_decode decoded') small)

theorem div_rounds (left : Denotes x u) (right : Denotes y v) (some : v ≠ 0) (small : |u / v| < 2 ^ (1023 : ℤ)) :
    Rounds (x / y) (u / v) := by
  obtain ⟨d, decoded, rfl⟩ := left
  obtain ⟨e, decoded', rfl⟩ := right
  exact rounds_opened decoded decoded' rfl (div_unpacked (fun none => some (Dyadic.value_of_mantissa none)) small)

theorem denotes_one : Denotes (Float.exactlyRepresentablePowersOfTen[0]) 1 := by
  refine ⟨⟨false, twoTo 52, -52⟩, rfl, ?_⟩
  rw [Dyadic.value, Dyadic.magnitude, if_neg (by simp), cast_twoTo_zpow, ← zpow_add₀ (by norm_num)]
  norm_num

theorem exact_int {n : ℤ} (most : |n| ≤ 2 ^ 53) : Dyadic.Exact n := ⟨n, 0, by simp, most, by norm_num, by norm_num⟩

theorem denotes_ofNat {n : ℕ} (small : n < 2 ^ 53) : Denotes (Float.ofNat n) n := by
  -- a small literal is a machine word times the power of ten with exponent zero
  have opened : Float.ofNat n = n.toUInt64.toFloat * Float.exactlyRepresentablePowersOfTen[0] := by
    change Float.ofScientific n false 0 = _
    rw [Float.ofScientific, dif_pos ⟨small, by decide⟩]
    rfl
  have size : |((n : ℤ) * 2 ^ (0 : ℤ) : ℚ)| < 2 ^ (1023 : ℤ) := by
    rw [zpow_zero, mul_one, Int.cast_natCast, abs_of_nonneg (Nat.cast_nonneg n)]
    calc (n : ℚ) < 2 ^ (53 : ℤ) := by exact_mod_cast small
      _ ≤ 2 ^ (1023 : ℤ) := zpow_le_zpow_right₀ (by norm_num) (by norm_num)
  obtain ⟨d, nearest, rounds⟩ := normalize_nearest (n : ℤ) size
  have bound : |(n : ℤ)| ≤ 2 ^ 53 := by
    rw [abs_of_nonneg (Int.natCast_nonneg n)]
    exact_mod_cast small.le
  have word : Denotes n.toUInt64.toFloat n := by
    have whole : n.toUInt64.toNat = n := Nat.mod_eq_of_lt (by omega)
    have converted : n.toUInt64.toFloat = Float.ofModel (Float.Model.pack
        (UnpackedFloat.normalize Format.binary64 (n.toUInt64.toNat : ℤ) 0 .positive)) := rfl
    rw [converted, whole, rounds]
    have := (rounds_ofModel nearest).denotes
    simpa using this (by simpa using exact_int bound)
  rw [opened]
  have product := mul_rounds word denotes_one (by simpa using size)
  rw [mul_one] at product
  exact product.denotes (by simpa using exact_int bound)

theorem nearest_magnitude {d : Dyadic} (normal : d.Normal) {num den : ℕ} (positive : 0 < den) (same : d.magnitude = num / den) :
    ∃ x, nearest d.negative num den = some x ∧ Denotes x d.value := by
  by_cases none : num = 0
  · have zero : d.value = 0 := by
      have size := Dyadic.abs_value d
      rwa [same, none, Nat.cast_zero, zero_div, abs_eq_zero] at size
    rw [none, zero]
    refine ⟨_, rfl, ⟨d.negative, 0, -1074⟩, ?_, Dyadic.value_of_mantissa rfl⟩
    cases d.negative <;> rfl
  · have decoded := Dyadic.decode_pack normal
    have within := Dyadic.within_self d
    rw [same] at within
    exact ⟨_, nearest_within decoded (Nat.pos_of_ne_zero none) positive within, d, decoded, rfl⟩

theorem denotes_ofInt {n : ℤ} (exact : Dyadic.Exact n) : ∃ x, ofInt n = some x ∧ Denotes x n := by
  by_cases none : n = 0
  · subst none
    exact ⟨Float.ofBits 0, rfl, Dyadic.zero false, rfl, by simp [Dyadic.value_of_mantissa (d := Dyadic.zero false) rfl]⟩
  obtain ⟨d, normal, whole⟩ := exact.exists
  have own := Dyadic.nearest_value normal
  have sign : d.negative = decide (n < 0) := by
    rw [whole] at own
    by_cases negative : n < 0
    · rw [own.negative (by exact_mod_cast negative), decide_eq_true negative]
    · rw [own.positive (by exact_mod_cast (by omega : 0 < n)), decide_eq_false negative]
  rw [ofInt, ← sign, ← whole]
  apply nearest_magnitude normal Nat.one_pos
  rw [← Dyadic.abs_value, whole, Nat.cast_natAbs, Int.cast_abs, Nat.cast_one, div_one]

theorem Denotes.isFinite (denotes : Denotes x v) : isFinite x = true := by
  obtain ⟨d, decoded, -⟩ := denotes
  rw [Number.isFinite, decoded]

theorem Denotes.unique (denotes : Denotes x u) (denotes' : Denotes x v) : u = v := by
  obtain ⟨d, decoded, rfl⟩ := denotes
  obtain ⟨e, decoded', rfl⟩ := denotes'
  rw [decoded] at decoded'
  cases decoded'
  rfl

theorem denotes_zero (negative : Bool) : Denotes (if negative then -0.0 else 0.0) 0 :=
  ⟨_, decode_zero negative, Dyadic.value_of_mantissa rfl⟩

theorem Denotes.beq_zero (denotes : Denotes x v) (some : v ≠ 0) : (x == 0.0) = false := by
  by_contra same
  rw [Bool.not_eq_false, Float.beq_iff_ne_nan_and_eq] at same
  apply some
  -- equal numbers are the same one or the two zeros
  rcases same.2.2 with rfl | ⟨rfl, -⟩ | ⟨rfl, -⟩
  · exact denotes.unique (denotes_zero false)
  · exact denotes.unique (denotes_zero false)
  · exact denotes.unique (denotes_zero true)

end

/-! ### Whole numbers -/

namespace Dyadic

theorem ratio_value (d : Dyadic) : d.value = (signed d.negative d.ratio.1 : ℚ) / d.ratio.2 := by
  have den : (d.ratio.2 : ℚ) ≠ 0 := by exact_mod_cast d.ratio_den_pos.ne'
  rw [eq_div_iff den, value, signed]
  cases d.negative <;> simp [ratio_eq d]

theorem ceil_eq (d : Dyadic) : d.ceil = ⌈d.value⌉ := by
  have other : signed (!d.negative) d.ratio.1 = -signed d.negative d.ratio.1 := by
    unfold signed
    cases d.negative <;> simp
  rw [ratio_value, Rat.ceil_intCast_div_natCast, ← other, ← Int.fdiv_eq_ediv_of_nonneg _ (Int.natCast_nonneg _)]
  rfl

theorem truncate_eq {d : Dyadic} {k : ℤ} (whole : d.value = k) : d.isInteger = true ∧ d.truncate = k := by
  have den := d.ratio_den_pos
  have nonzero : (d.ratio.2 : ℚ) ≠ 0 := by exact_mod_cast den.ne'
  rw [ratio_value, div_eq_iff nonzero] at whole
  have multiple : signed d.negative d.ratio.1 = k * d.ratio.2 := by exact_mod_cast whole
  have size : d.ratio.1 = k.natAbs * d.ratio.2 := by
    have := congrArg Int.natAbs multiple
    rw [Int.natAbs_mul, Int.natAbs_natCast] at this
    rw [← this, signed]
    split <;> simp
  constructor
  · change (d.ratio.1 % d.ratio.2 == 0) = true
    rw [size, Nat.mul_mod_left]
    rfl
  · change signed d.negative (d.ratio.1 / d.ratio.2) = k
    have quotient : d.ratio.1 / d.ratio.2 = k.natAbs := by rw [size, Nat.mul_div_cancel _ den]
    rw [quotient]
    unfold signed at multiple ⊢
    rw [size] at multiple
    have cancel : ((if d.negative then -(k.natAbs : ℤ) else k.natAbs) - k) * d.ratio.2 = 0 := by
      rw [sub_mul, sub_eq_zero, ← multiple]
      split
      · push_cast
        ring
      · push_cast
        rfl
    rcases Int.mul_eq_zero.mp cancel with same | none
    · exact sub_eq_zero.mp same
    · omega

theorem isInteger_iff (d : Dyadic) : d.isInteger = true ↔ ∃ k : ℤ, d.value = k := by
  refine ⟨fun whole => ?_, fun ⟨_, whole⟩ => (truncate_eq whole).1⟩
  have divides : d.ratio.1 % d.ratio.2 = 0 := by simpa [isInteger] using whole
  have nonzero : (d.ratio.2 : ℚ) ≠ 0 := by exact_mod_cast d.ratio_den_pos.ne'
  obtain ⟨q, multiple⟩ := Nat.dvd_of_mod_eq_zero divides
  refine ⟨signed d.negative q, ?_⟩
  rw [ratio_value, div_eq_iff nonzero, multiple]
  unfold signed
  split <;> push_cast <;> ring

/-! ### Order -/

section

variable {d e : Dyadic} {v w : ℚ}

theorem Within.between {u : ℚ} (low : d.Within u) (high : d.Within v) (above : u ≤ w) (below : w ≤ v) : d.Within w where
  ge_low := low.ge_low.trans above
  le_high := below.trans high.le_high
  apart odd := ⟨(low.apart odd).1.trans_le above, below.trans_lt (high.apart odd).2⟩

theorem Within.magnitude_eq (normal : d.Normal) (normal' : e.Normal) (within : d.Within e.magnitude) :
    d.magnitude = e.magnitude := by
  -- only numbers of one sign are told apart by what rounds to them
  let turned : Dyadic := { d with negative := e.negative }
  have same : turned = e := within_unique (v := e.magnitude)
    ⟨normal.mantissa_lt, normal.exponent_ge, normal.exponent_le, normal.leading⟩ normal' rfl
    ⟨within.ge_low, within.le_high, within.apart⟩ (within_self e)
  rw [← same]
  rfl

-- Rounding does not pass a number of the format.
theorem Within.magnitude_le (normal : d.Normal) (normal' : e.Normal) (within : d.Within v) (most : v ≤ e.magnitude) :
    d.magnitude ≤ e.magnitude := by
  by_contra above
  have less := not_le.mp above
  exact less.ne' ((within.between (within_self d) most less.le).magnitude_eq normal normal')

theorem Within.le_magnitude (normal : d.Normal) (normal' : e.Normal) (within : d.Within v) (least : e.magnitude ≤ v) :
    e.magnitude ≤ d.magnitude := by
  by_contra above
  have less := not_le.mp above
  exact less.ne (((within_self d).between within less.le least).magnitude_eq normal normal')

theorem Nearest.nonpos (nearest : d.Nearest v) (below : v ≤ 0) : d.value ≤ 0 := by
  rcases below.lt_or_eq with less | rfl
  · rw [value, if_pos (nearest.negative less)]
    linarith [d.magnitude_nonneg]
  · rw [nearest.exact ⟨0, 0, by simp, by norm_num, by norm_num, by norm_num⟩]

theorem Nearest.of_pos (nearest : d.Nearest v) (positive : 0 < v) : d.value = d.magnitude ∧ d.Within v := by
  have within := nearest.within
  rw [abs_of_pos positive] at within
  exact ⟨by rw [value, nearest.positive positive]; rfl, within⟩

theorem exists_nat {n : ℕ} (most : n ≤ 2 ^ 53) : ∃ d : Dyadic, d.Normal ∧ d.magnitude = n := by
  obtain ⟨d, normal, -, magnitude⟩ := exists_magnitude (e := 0) most (by norm_num) (by norm_num) false
  exact ⟨d, normal, by rw [magnitude, zpow_zero, mul_one]⟩

-- What rounds to a whole number lies at most half a unit above it, which is its share of the bits of the format.
theorem Within.le_nat {n : ℕ} (normal : d.Normal) (size : d.magnitude = n) (within : d.Within v) (positive : 0 < n) :
    v ≤ n + n / 2 ^ 53 := by
  have unit := unit_pos d.exponent
  have high := (div_le_iff₀ unit).mp within.halves.2.1
  have full : twoTo 52 ≤ d.mantissa := by
    rcases normal.leading with low | full
    · -- a mantissa in the least unit is below one
      exfalso
      have one : (1 : ℚ) ≤ d.magnitude := by
        rw [size]
        exact_mod_cast positive
      have small : d.magnitude < 2 ^ (53 : ℤ) * 2 ^ (-1074 : ℤ) := by
        rw [magnitude, low, ← show (twoTo 53 : ℚ) = 2 ^ (53 : ℤ) from cast_twoTo_zpow 53]
        gcongr
        exact_mod_cast normal.mantissa_lt
      rw [← zpow_add₀ (by norm_num)] at small
      have : (2 : ℚ) ^ (53 + -1074 : ℤ) ≤ 1 := zpow_le_one_of_nonpos₀ (by norm_num) (by norm_num)
      linarith
    · exact full
  have share : (2 : ℚ) ^ d.exponent / 2 ≤ n / 2 ^ 53 := by
    rw [← size, magnitude, div_le_div_iff₀ (by norm_num) (by norm_num)]
    have : (4503599627370496 : ℚ) ≤ d.mantissa := by exact_mod_cast powers_of_two.2 ▸ full
    nlinarith
  have exact : (d.mantissa : ℚ) * 2 ^ d.exponent = n := size
  linarith

section

variable {a c n : ℕ} (normal : d.Normal) (within : d.Within (a / c : ℚ))

include normal within

theorem Within.quotient_le (most : a ≤ 2 ^ 53) (positive : 0 < c) (below : (a / c : ℚ) ≤ n) : d.magnitude ≤ n := by
  have den : (0 : ℚ) < c := by exact_mod_cast positive
  -- the quotient is at most the dividend, so a number of the format lies between it and the bound
  have quotient : (a / c : ℚ) ≤ (min n (2 ^ 53) : ℕ) := by
    rw [Nat.cast_min, le_min_iff]
    refine ⟨below, (div_le_iff₀ den).mpr ?_⟩
    exact_mod_cast most.trans (Nat.le_mul_of_pos_right _ positive)
  obtain ⟨e, normal', exact⟩ := exists_nat (min_le_right n (2 ^ 53))
  rw [← exact] at quotient
  have bound := within.magnitude_le normal normal' quotient
  rw [exact] at bound
  exact bound.trans (by exact_mod_cast min_le_left _ _)

theorem Within.quotient_pos (some : 0 < a) (positive : 0 < c) (most : c ≤ 2 ^ 53) : 0 < d.magnitude := by
  have den : (0 : ℚ) < c := by exact_mod_cast positive
  obtain ⟨e, normal', -, exact⟩ := exists_magnitude (m := 1) (e := -53) (by decide) (by norm_num) (by norm_num) false
  have least : e.magnitude ≤ a / c := by
    rw [exact, le_div_iff₀ den, Nat.cast_one, one_mul, zpow_neg, ← div_eq_inv_mul, div_le_iff₀ (by positivity)]
    have one : (1 : ℚ) ≤ a := by exact_mod_cast some
    have cap : (c : ℚ) ≤ 2 ^ (53 : ℤ) := by exact_mod_cast most
    nlinarith
  have bound := within.le_magnitude normal normal' least
  rw [exact] at bound
  exact lt_of_lt_of_le (by positivity) bound

theorem Within.lt_quotient (most : a ≤ 2 ^ 53) (positive : 0 < c) (some : 0 < n) (less : (n : ℚ) < a / c) :
    (n : ℚ) < d.magnitude := by
  have den : (0 : ℚ) < c := by exact_mod_cast positive
  -- the dividend exceeds the multiple of the divisor by one at least
  have product : n * c + 1 ≤ a := by
    rw [lt_div_iff₀ den] at less
    exact_mod_cast less
  have cap : n ≤ 2 ^ 53 := by
    have := Nat.le_mul_of_pos_right n positive
    omega
  obtain ⟨e, normal', exact⟩ := exists_nat cap
  have least := within.le_magnitude normal normal' (by rw [exact]; exact less.le)
  rw [exact] at least
  -- were the quotient rounded to the whole number, its distance would be less than that one over the divisor
  refine lt_of_le_of_ne least fun same => ?_
  have bound := within.le_nat normal same.symm some
  rw [div_le_iff₀ den] at bound
  have share : (n * c + 1 : ℚ) ≤ a := by exact_mod_cast product
  have top : (n * c + 1 : ℚ) ≤ 2 ^ 53 := by exact_mod_cast product.trans most
  have split : (n : ℚ) / 2 ^ 53 * c = n * c / 2 ^ 53 := by ring
  have small : (n * c : ℚ) / 2 ^ 53 < 1 := by
    rw [div_lt_one (by norm_num)]
    linarith
  linarith

end

theorem nat_lt_quotient {a c : ℕ} (nearest : d.Nearest (a / c : ℚ)) (some : 0 < a) (most : a ≤ 2 ^ 53) (positive : 0 < c)
    (most' : c ≤ 2 ^ 53) (n : ℕ) : (n : ℚ) < d.value ↔ (n : ℚ) < a / c := by
  have above : (0 : ℚ) < a / c := div_pos (by exact_mod_cast some) (by exact_mod_cast positive)
  obtain ⟨size, within⟩ := nearest.of_pos above
  rw [size]
  constructor
  · contrapose!
    exact within.quotient_le nearest.normal most positive
  · intro less
    rcases Nat.eq_zero_or_pos n with rfl | some'
    · exact_mod_cast within.quotient_pos nearest.normal some positive most'
    · exact within.lt_quotient nearest.normal most positive some' less

/-- A rounded quotient of whole numbers crosses no natural number: of the bits of the dividend none is lost. -/
theorem nat_lt_quotient_iff {p r : ℤ} (nearest : d.Nearest (p / r : ℚ)) (most : |p| ≤ 2 ^ 53) (most' : |r| ≤ 2 ^ 53) (n : ℕ) :
    (n : ℚ) < d.value ↔ (n : ℚ) < p / r := by
  rcases le_or_gt (p / r : ℚ) 0 with below | above
  · have none : ∀ {q : ℚ}, q ≤ 0 → ¬ (n : ℚ) < q := fun low => not_lt.mpr (low.trans (Nat.cast_nonneg n))
    exact iff_of_false (none (nearest.nonpos below)) (none below)
  · have same : (p / r : ℚ) = (p.natAbs / r.natAbs : ℚ) := by
      rw [← abs_of_pos above, abs_div, Nat.cast_natAbs, Nat.cast_natAbs, Int.cast_abs, Int.cast_abs]
    have some : p ≠ 0 ∧ r ≠ 0 := by
      constructor <;> rintro rfl <;> simp at above
    rw [Int.abs_eq_natAbs] at most most'
    rw [same] at nearest ⊢
    exact nat_lt_quotient nearest (Int.natAbs_pos.mpr some.1) (by exact_mod_cast most) (Int.natAbs_pos.mpr some.2)
      (by exact_mod_cast most') n

end

end Dyadic

end ProceduralScene.Number

namespace ProceduralScene.Scalar

theorem toFloat_int {n : ℤ} (exact : Number.Dyadic.Exact n) : ∃ x, (Scalar.int n).toFloat = .ok x ∧ Number.Denotes x n := by
  obtain ⟨x, converted, denotes⟩ := Number.denotes_ofInt exact
  refine ⟨x, ?_, denotes⟩
  rw [toFloat, converted]

end ProceduralScene.Scalar
