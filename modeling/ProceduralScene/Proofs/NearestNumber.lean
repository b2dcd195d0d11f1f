import Mathlib
import ProceduralScene.Proofs.ShortestDigits

/-!
Rounding to the nearest number. The negation of a finite number changes the sign of its bits only, and of a
quantity that rounds to a number, given as a quotient or as a decimal number, the number is what is found.
-/

set_option autoImplicit false

namespace ProceduralScene.Number

open Float.Model
open Float.Model.UnpackedFloat (unpackExponent unpackMantissa unpackSign packComponents)

/-! ### Bits -/

/-- Bits with the other sign. -/
def otherSign (bits : BitVec Format.binary64.numBits) : BitVec Format.binary64.numBits :=
  packComponents Format.binary64 (-UnpackedFloat.Sign.ofBitVec (unpackSign bits)) (unpackExponent bits) (unpackMantissa bits)

theorem unpack_otherSign (bits : BitVec Format.binary64.numBits) :
    UnpackedFloat.unpack Format.binary64 (otherSign bits) = (UnpackedFloat.unpack Format.binary64 bits).neg := by
  simp only [UnpackedFloat.unpack, otherSign, UnpackedFloat.unpackSign_packComponents,
    UnpackedFloat.unpackExponent_packComponents, UnpackedFloat.unpackMantissa_packComponents,
    UnpackedFloat.Sign.ofBitVec_toBitVec]
  split
  · split <;> rfl
  · split
    · split <;> rfl
    · rfl

theorem toNat_otherSign (bits : BitVec Format.binary64.numBits) : (otherSign bits).toNat =
    (1 - bits.toNat / twoTo 63 % 2) * twoTo 63 + bits.toNat / twoTo 52 % 2048 * twoTo 52 + bits.toNat % twoTo 52 := by
  have sign : ∀ s : BitVec 1, (-UnpackedFloat.Sign.ofBitVec s).toBitVec.toNat = 1 - s.toNat := by decide
  have own : (unpackSign bits).toNat = bits.toNat / twoTo 63 % 2 := by
    simp only [unpackSign, BitVec.toNat_cast, BitVec.extractLsb_toNat, Nat.shiftRight_eq_div_pow]
    rfl
  obtain ⟨p63, p52⟩ := powers_of_two
  have exponent := toNat_unpackExponent bits
  have mantissa := toNat_unpackMantissa bits
  rw [otherSign, packComponents, BitVec.toNat_append, BitVec.toNat_append,
    ← Nat.shiftLeft_add_eq_or_of_lt (unpackExponent bits).isLt, ← Nat.shiftLeft_add_eq_or_of_lt (unpackMantissa bits).isLt,
    Nat.shiftLeft_eq, Nat.shiftLeft_eq, sign, own, exponent, mantissa, p63, p52]
  simp only [Format.binary64]
  omega

/-- The number of a sign, a biased exponent and a fraction. -/
def Dyadic.ofParts (negative : Bool) (biased fraction : Nat) : Dyadic :=
  if biased = 0 then ⟨negative, fraction, -1074⟩ else ⟨negative, twoTo 52 + fraction, (biased : Int) - 1075⟩

theorem decode_eq_finite {x : Float} {d : Dyadic} : decode x = .finite d ↔ x.toBits.toNat / twoTo 52 % 2048 ≠ 2047 ∧
    d = .ofParts (decide (twoTo 63 ≤ x.toBits.toNat)) (x.toBits.toNat / twoTo 52 % 2048) (x.toBits.toNat % twoTo 52) := by
  unfold decode Dyadic.ofParts
  simp only [beq_iff_eq]
  generalize x.toBits.toNat / twoTo 52 % 2048 = biased
  by_cases top : biased = 2047
  · rw [if_pos top]
    split <;> simp [top]
  · rw [if_neg top]
    split <;> simp [top, eq_comm]

theorem toBits_neg {x : Float} (finite : x.toBits.toNat / twoTo 52 % 2048 ≠ 2047) :
    (-x).toBits.toNat = (otherSign x.toBits.toBitVec).toNat := by
  have number : UnpackedFloat.isNaNBits (otherSign x.toBits.toBitVec) = false := by
    rw [UnpackedFloat.isNaNBits, decide_eq_false_iff_not, otherSign, UnpackedFloat.unpackExponent_packComponents]
    intro top
    have exponent := toNat_unpackExponent x.toBits.toBitVec
    rw [top.1] at exponent
    exact finite exponent.symm
  have packed := UnpackedFloat.pack_unpack (otherSign x.toBits.toBitVec)
  rw [number, unpack_otherSign] at packed
  exact congrArg BitVec.toNat packed

theorem decode_neg {x : Float} {d : Dyadic} (decoded : decode x = .finite d) :
    decode (-x) = .finite { d with negative := !d.negative } := by
  obtain ⟨finite, rfl⟩ := decode_eq_finite.mp decoded
  have bits := toBits_neg finite
  rw [toNat_otherSign, UInt64.toNat_toBitVec] at bits
  have high : x.toBits.toNat < 18446744073709551616 := x.toBits.toNat_lt
  obtain ⟨p63, p52⟩ := powers_of_two
  rw [p63, p52] at bits
  have sign : decide (twoTo 63 ≤ (-x).toBits.toNat) = !decide (twoTo 63 ≤ x.toBits.toNat) := by
    rw [p63, ← decide_not, decide_eq_decide]
    omega
  have biased : (-x).toBits.toNat / twoTo 52 % 2048 = x.toBits.toNat / twoTo 52 % 2048 := by
    rw [p52]
    omega
  have fraction : (-x).toBits.toNat % twoTo 52 = x.toBits.toNat % twoTo 52 := by
    rw [p52]
    omega
  refine decode_eq_finite.mpr ⟨by rw [biased]; exact finite, ?_⟩
  rw [sign, biased, fraction]
  unfold Dyadic.ofParts
  split <;> rfl

/-! ### Quotients -/

theorem scaleBy_spec {num den : ℕ} (positive : 0 < den) (e : ℤ) : 0 < (scaleBy num den e).2 ∧
    ((scaleBy num den e).1 : ℚ) = num / den / 2 ^ e * (scaleBy num den e).2 := by
  have nonzero : (den : ℚ) ≠ 0 := by positivity
  unfold scaleBy
  split
  · rename_i negative
    obtain ⟨k, power⟩ := Int.exists_eq_neg_ofNat (le_of_lt negative)
    refine ⟨positive, ?_⟩
    rw [power, Int.natAbs_neg, Int.natAbs_natCast, zpow_neg, zpow_natCast]
    push_cast
    rw [cast_twoTo]
    field_simp
  · rename_i nonneg
    obtain ⟨k, power⟩ := Int.eq_ofNat_of_zero_le (not_lt.mp nonneg)
    refine ⟨Nat.mul_pos positive (twoTo_pos _), ?_⟩
    rw [power, Int.natAbs_natCast, zpow_natCast]
    push_cast
    rw [cast_twoTo]
    field_simp

/-- What lies within a half of a natural number is rounded to it, also at the ends when it is even. -/
theorem divideEven_eq {num den m : ℕ} (positive : 0 < den) (low : 2 * (den * m) ≤ 2 * num + den)
    (high : 2 * num ≤ 2 * (den * m) + den)
    (apart : m % 2 = 1 → 2 * (den * m) < 2 * num + den ∧ 2 * num < 2 * (den * m) + den) : divideEven num den = m := by
  have parts := Nat.div_add_mod num den
  have small := Nat.mod_lt num positive
  unfold divideEven
  dsimp only
  generalize num / den = q at parts ⊢
  generalize num % den = r at parts small ⊢
  subst parts
  have atMost : q ≤ m := by
    by_contra above
    have : den * (m + 1) ≤ den * q := Nat.mul_le_mul_left den (by omega)
    rw [Nat.mul_succ] at this
    omega
  have atLeast : m ≤ q + 1 := by
    by_contra below
    have : den * (q + 2) ≤ den * m := Nat.mul_le_mul_left den (by omega)
    rw [Nat.mul_add] at this
    omega
  rcases (by omega : m = q ∨ m = q + 1) with rfl | rfl
  · by_cases less : 2 * r < den
    · rw [if_pos less]
    · have even : m % 2 = 0 := by
        by_contra odd
        have := (apart (by omega)).2
        omega
      rw [if_neg less, if_neg (by omega), if_pos (by simpa using even)]
  · rw [Nat.mul_succ] at low high apart
    by_cases more : den < 2 * r
    · rw [if_neg (by omega), if_pos more]
    · have odd : q % 2 = 1 := by
        by_contra even
        have := (apart (by omega)).1
        omega
      rw [if_neg (by omega), if_neg more, if_neg (by simp [odd])]

theorem log2_bounds {n : ℕ} (positive : 0 < n) : (2 : ℚ) ^ (n.log2 : ℤ) ≤ n ∧ (n : ℚ) < 2 ^ (n.log2 + 1 : ℤ) := by
  have low := Nat.log2_self_le positive.ne'
  have high := Nat.lt_log2_self (n := n)
  constructor
  · rw [zpow_natCast]
    exact_mod_cast low
  · rw [← Nat.cast_succ, zpow_natCast]
    exact_mod_cast high

/-- The unit is the one in which the quotient has 53 bits. -/
theorem unitExponent_eq {num den : ℕ} (positive : 0 < num) (positive' : 0 < den) {e : ℤ}
    (low : 2 ^ (e + 52) ≤ (num / den : ℚ)) (high : (num / den : ℚ) < 2 ^ (e + 53)) :
    unitExponent num den = max (-1074) e := by
  obtain ⟨numLow, numHigh⟩ := log2_bounds positive
  obtain ⟨denLow, denHigh⟩ := log2_bounds positive'
  have denPos : (0 : ℚ) < den := by exact_mod_cast positive'
  have above : (2 : ℚ) ^ ((num.log2 : ℤ) - den.log2 - 1) < num / den := by
    rw [lt_div_iff₀ denPos]
    calc (2 : ℚ) ^ ((num.log2 : ℤ) - den.log2 - 1) * den < 2 ^ ((num.log2 : ℤ) - den.log2 - 1) * 2 ^ (den.log2 + 1 : ℤ) := by gcongr
      _ = 2 ^ (num.log2 : ℤ) := by rw [← zpow_add₀ (by norm_num)]; congr 1; ring
      _ ≤ num := numLow
  have below : (num / den : ℚ) < 2 ^ ((num.log2 : ℤ) - den.log2 + 1) := by
    rw [div_lt_iff₀ denPos]
    calc (num : ℚ) < 2 ^ (num.log2 + 1 : ℤ) := numHigh
      _ = 2 ^ ((num.log2 : ℤ) - den.log2 + 1) * 2 ^ (den.log2 : ℤ) := by rw [← zpow_add₀ (by norm_num)]; congr 1; ring
      _ ≤ 2 ^ ((num.log2 : ℤ) - den.log2 + 1) * den := by gcongr
  -- the guess is the exponent asked for or the next one, and the whole part of the quotient tells which
  have first : e + 52 < (num.log2 : ℤ) - den.log2 + 1 := (zpow_lt_zpow_iff_right₀ (by norm_num : (1 : ℚ) < 2)).mp (low.trans_lt below)
  have second : (num.log2 : ℤ) - den.log2 - 1 < e + 53 := (zpow_lt_zpow_iff_right₀ (by norm_num : (1 : ℚ) < 2)).mp (above.trans high)
  unfold unitExponent
  dsimp only
  generalize guessed : (num.log2 : ℤ) - den.log2 - 52 = guess
  obtain ⟨unitPos, scaled⟩ := @scaleBy_spec num den positive' guess
  have whole : (scaleBy num den guess).1 / (scaleBy num den guess).2 < twoTo 52 ↔ (num / den : ℚ) < 2 ^ (guess + 52) := by
    rw [Nat.div_lt_iff_lt_mul unitPos, ← Nat.cast_lt (α := ℚ), scaled]
    push_cast
    rw [cast_twoTo, mul_lt_mul_iff_left₀ (by exact_mod_cast unitPos), div_lt_iff₀ (by positivity), zpow_add₀ (by norm_num), mul_comm]
    rfl
  congr 1
  rcases (by omega : guess = e ∨ guess = e + 1) with rfl | rfl
  · rw [if_neg (by rw [whole]; exact not_lt.mpr low)]
  · rw [if_pos (by rw [whole]; convert high using 2; ring), add_sub_cancel_right]

/-- The bits that `nearest` makes of a mantissa and an exponent. -/
def roundedBits (mantissa : ℕ) (exponent : ℤ) : ℕ :=
  if mantissa < twoTo 52 then mantissa else (exponent + 1075).toNat * twoTo 52 + (mantissa - twoTo 52)

/-- A rounded mantissa and its exponent; one past the greatest mantissa is carried into the exponent. -/
def carried (rounded : ℕ) (exponent : ℤ) : ℕ × ℤ :=
  if rounded == twoTo 53 then (twoTo 52, exponent + 1) else (rounded, exponent)

theorem nearest_eq {negative : Bool} {num den : ℕ} (positive : 0 < num) {unit exponent : ℤ} {mantissa : ℕ}
    (unitIs : unitExponent num den = unit)
    (parts : carried (divideEven (scaleBy num den unit).1 (scaleBy num den unit).2) unit = (mantissa, exponent))
    (small : exponent ≤ 971) : nearest negative num den = some (Float.ofBits (UInt64.ofNat
      ((if negative then twoTo 63 else 0) + roundedBits mantissa exponent))) := by
  unfold carried at parts
  unfold nearest roundedBits
  dsimp only
  rw [if_neg (by simpa using positive.ne'), unitIs, parts]
  dsimp only
  rw [if_neg (by omega)]
  split
  · rfl
  · rw [← Nat.add_assoc]

theorem roundedBits_eq {d : Dyadic} (normal : d.Normal) :
    (if d.negative then twoTo 63 else 0) + roundedBits d.mantissa d.exponent = (Decoded.finite d).bits := by
  have least := normal.exponent_ge
  have p52 := powers_of_two.2
  unfold roundedBits Decoded.bits
  dsimp only
  by_cases small : d.mantissa < twoTo 52
  · rw [if_pos small, if_pos small]
  · have next : (d.exponent + 1075).toNat = (d.exponent + 1074).toNat + 1 := by omega
    rw [if_neg small, if_neg small, next, Nat.succ_mul]
    omega

namespace Dyadic

variable {d : Dyadic} {v : ℚ}

theorem quarter_eq (e : ℤ) : (2 : ℚ) ^ (e - 2) = 2 ^ e / 4 := by
  rw [zpow_sub₀ (by norm_num)]
  norm_num

/-- The quantity lies within a half of the mantissa, and away from the ends when that is odd. -/
theorem Within.halves (within : d.Within v) : (d.mantissa - 1 / 2 : ℚ) ≤ v / 2 ^ d.exponent ∧ v / 2 ^ d.exponent ≤ d.mantissa + 1 / 2 ∧
    (d.mantissa % 2 = 1 → (d.mantissa - 1 / 2 : ℚ) < v / 2 ^ d.exponent ∧ v / 2 ^ d.exponent < d.mantissa + 1 / 2) := by
  obtain ⟨low, high, apart⟩ := within
  have unit : (0 : ℚ) < 2 ^ d.exponent := zpow_pos (by norm_num) _
  have least : (4 * d.mantissa - 2 : ℚ) ≤ (roundingInterval d).1 := by
    have : 4 * d.mantissa ≤ (roundingInterval d).1 + 2 := by
      rw [roundingInterval_low]
      split <;> omega
    rw [sub_le_iff_le_add]
    exact_mod_cast this
  have steps : (4 * d.mantissa - 2 : ℚ) * (2 ^ d.exponent / 4) ≤ (roundingInterval d).1 * (2 ^ d.exponent / 4) := by gcongr
  rw [quarter_eq, roundingInterval_high] at *
  push_cast at *
  rw [le_div_iff₀ unit, div_le_iff₀ unit, lt_div_iff₀ unit, div_lt_iff₀ unit]
  refine ⟨by linarith, by linarith, fun odd => ?_⟩
  obtain ⟨low, high⟩ := apart odd
  exact ⟨by linarith, by linarith⟩

theorem Within.quarter (within : d.Within v) (least : d.mantissa = twoTo 52) (above : d.exponent ≠ -1074) :
    (d.mantissa - 1 / 4 : ℚ) ≤ v / 2 ^ d.exponent := by
  -- below the least mantissa the numbers are twice as dense
  have unit : (0 : ℚ) < 2 ^ d.exponent := zpow_pos (by norm_num) _
  have low := within.ge_low
  have end_ : ((roundingInterval d).1 : ℚ) = 4 * d.mantissa - 1 := by
    have : (roundingInterval d).1 + 1 = 4 * d.mantissa := by
      have p52 := powers_of_two.2
      rw [roundingInterval_low, if_pos ⟨least, above⟩]
      omega
    rw [eq_sub_iff_add_eq]
    exact_mod_cast this
  rw [quarter_eq, end_] at low
  rw [le_div_iff₀ unit]
  linarith

end Dyadic

theorem divideEven_near {num den m : ℕ} (denPos : 0 < den) {e : ℤ} (low : (m - 1 / 2 : ℚ) ≤ num / den / 2 ^ e)
    (high : (num / den / 2 ^ e : ℚ) ≤ m + 1 / 2)
    (apart : m % 2 = 1 → (m - 1 / 2 : ℚ) < num / den / 2 ^ e ∧ (num / den / 2 ^ e : ℚ) < m + 1 / 2) :
    divideEven (scaleBy num den e).1 (scaleBy num den e).2 = m := by
  obtain ⟨unitPos, scaled⟩ := @scaleBy_spec num den denPos e
  generalize (num / den / 2 ^ e : ℚ) = q at *
  generalize (scaleBy num den e).1 = scaled at *
  generalize (scaleBy num den e).2 = unit at *
  have cast : (0 : ℚ) < unit := by exact_mod_cast unitPos
  refine divideEven_eq unitPos ?_ ?_ fun odd => ⟨?_, ?_⟩
  · have := mul_le_mul_of_nonneg_right low cast.le
    rw [← Nat.cast_le (α := ℚ)]
    push_cast
    linarith
  · have := mul_le_mul_of_nonneg_right high cast.le
    rw [← Nat.cast_le (α := ℚ)]
    push_cast
    linarith
  · have := mul_lt_mul_of_pos_right (apart odd).1 cast
    rw [← Nat.cast_lt (α := ℚ)]
    push_cast
    linarith
  · have := mul_lt_mul_of_pos_right (apart odd).2 cast
    rw [← Nat.cast_lt (α := ℚ)]
    push_cast
    linarith

theorem zpow_le_iff {v : ℚ} {n : ℤ} (low : 2 ^ n ≤ v) (high : v < 2 ^ (n + 1)) (k e : ℤ) : 2 ^ k ≤ v / 2 ^ e ↔ e + k ≤ n := by
  have two : (1 : ℚ) < 2 := by norm_num
  rw [le_div_iff₀ (zpow_pos (by norm_num) _), ← zpow_add₀ (by norm_num), add_comm k e]
  constructor
  · intro below
    have := (zpow_lt_zpow_iff_right₀ two).mp (below.trans_lt high)
    omega
  · intro below
    exact ((zpow_le_zpow_iff_right₀ two).mpr below).trans low

theorem cast_twoTo_zpow (n : ℕ) : (twoTo n : ℚ) = 2 ^ (n : ℤ) := by rw [cast_twoTo, zpow_natCast]

theorem carried_within {d : Dyadic} (normal : d.Normal) {num den : ℕ} (denPos : 0 < den) (within : d.Within (num / den : ℚ)) {n : ℤ}
    (low : 2 ^ n ≤ (num / den : ℚ)) (high : (num / den : ℚ) < 2 ^ (n + 1)) :
    carried (divideEven (scaleBy num den (max (-1074) (n - 52))).1 (scaleBy num den (max (-1074) (n - 52))).2)
      (max (-1074) (n - 52)) = (d.mantissa, d.exponent) := by
  obtain ⟨halfLow, halfHigh, apart⟩ := within.halves
  have p52 : (twoTo 52 : ℚ) = 2 ^ (52 : ℤ) := cast_twoTo_zpow 52
  have p53 : (twoTo 53 : ℚ) = 2 ^ (53 : ℤ) := cast_twoTo_zpow 53
  have bound : (d.mantissa : ℚ) + 1 ≤ 2 ^ (53 : ℤ) := by
    have : d.mantissa + 1 ≤ twoTo 53 := normal.mantissa_lt
    rw [← p53]
    exact_mod_cast this
  have notAbove : n - 52 ≤ d.exponent := by
    by_contra above
    have := (zpow_le_iff low high 53 d.exponent).mpr (by omega)
    linarith
  have least := normal.exponent_ge
  by_cases dense : d.exponent ≠ -1074 ∧ n < d.exponent + 52
  · -- the unit is a half of that of the number, whose mantissa is the least one
    obtain ⟨above, less⟩ := dense
    have below : ¬ 2 ^ (52 : ℤ) ≤ (num / den / 2 ^ d.exponent : ℚ) := by
      rw [zpow_le_iff low high]
      omega
    have top : d.mantissa = twoTo 52 := by
      have := normal.leading.resolve_left above
      by_contra other
      have more : twoTo 52 + 1 ≤ d.mantissa := by omega
      have cast : (2 : ℚ) ^ (52 : ℤ) + 1 ≤ d.mantissa := by
        rw [← p52]
        exact_mod_cast more
      exact below (by linarith)
    have quarter := within.quarter top above
    rw [top, p52] at quarter
    have half : n = d.exponent + 51 := by
      have := (zpow_le_iff low high 51 d.exponent).mp (by linarith)
      omega
    have unit : max (-1074) (n - 52) = d.exponent - 1 := by omega
    have doubled : (num / den / 2 ^ (d.exponent - 1) : ℚ) = 2 * (num / den / 2 ^ d.exponent) := by
      rw [zpow_sub_one₀ (by norm_num)]
      field_simp
    have rounded : divideEven (scaleBy num den (d.exponent - 1)).1 (scaleBy num den (d.exponent - 1)).2 = twoTo 53 := by
      refine divideEven_near denPos ?_ ?_ fun odd => absurd odd (by decide)
      · rw [doubled, p53]
        linarith
      · rw [doubled, p53]
        linarith
    rw [unit, rounded, carried, if_pos (by simp), sub_add_cancel, top]
  · have unit : max (-1074) (n - 52) = d.exponent := by omega
    rw [unit, divideEven_near denPos halfLow halfHigh apart, carried, if_neg]
    simpa using normal.mantissa_lt.ne

/-- What is nearest to a quantity that rounds to a number is the number. -/
theorem nearest_within {x : Float} {d : Dyadic} (decoded : decode x = .finite d) {num den : ℕ} (numPos : 0 < num)
    (denPos : 0 < den) (within : d.Within (num / den : ℚ)) : nearest d.negative num den = some x := by
  have normal := normal_of_decode decoded
  have positive : (0 : ℚ) < num / den := by positivity
  obtain ⟨n, low, high⟩ := exists_mem_Ico_zpow positive (by norm_num : (1 : ℚ) < 2)
  have unit := @unitExponent_eq num den numPos denPos (n - 52) (by rwa [sub_add_cancel]) (by rwa [show n - 52 + 53 = n + 1 by ring])
  rw [nearest_eq numPos unit (carried_within normal denPos within low high) normal.exponent_le, roundedBits_eq normal, ← decoded,
    bits_decode, UInt64.ofNat_toNat, Float.ofBits_toBits]

/-! ### Decimal numbers -/

theorem length_bounds {n : ℕ} (positive : 0 < n) :
    (10 : ℚ) ^ ((toString n).length - 1 : ℤ) ≤ n ∧ (n : ℚ) < 10 ^ ((toString n).length : ℤ) := by
  have nonempty : 0 < (toString n).length := Nat.length_repr_pos
  constructor
  · obtain ⟨k, length⟩ := Nat.exists_eq_succ_of_ne_zero nonempty.ne'
    have least : 10 ^ k ≤ n := by
      by_contra less
      cases k with
      | zero => omega
      | succ k =>
        have := (Nat.length_repr_le_iff (n := n) (Nat.succ_pos k)).mpr (by omega)
        have : (toString n).length ≤ k + 1 := this
        omega
    rw [length, Nat.cast_succ, add_sub_cancel_right, zpow_natCast]
    exact_mod_cast least
  · have most := (Nat.length_repr_le_iff (n := n) nonempty).mp (le_refl _)
    rw [zpow_natCast]
    exact_mod_cast most

theorem decode_zero (negative : Bool) : decode (if negative then -0.0 else 0.0) = .finite ⟨negative, 0, -1074⟩ := by
  cases negative
  · rfl
  · exact decode_neg (show decode 0.0 = .finite ⟨false, 0, -1074⟩ from rfl)

theorem eq_zero_of_mantissa {x : Float} {d : Dyadic} (decoded : decode x = .finite d) (zero : d.mantissa = 0) :
    x = if d.negative then -0.0 else 0.0 := by
  have least : d.exponent = -1074 := by
    have := twoTo_pos 52
    have := (normal_of_decode decoded).leading
    omega
  apply decode_injective
  rw [decoded, decode_zero, ← zero, ← least]

theorem within_lt {d : Dyadic} (normal : d.Normal) {v : ℚ} (within : d.Within v) : v < 2 ^ (1024 : ℤ) := by
  have unit : (0 : ℚ) < 2 ^ d.exponent := zpow_pos (by norm_num) _
  have bound : (d.mantissa : ℚ) + 1 ≤ 2 ^ (53 : ℤ) := by
    have : d.mantissa + 1 ≤ twoTo 53 := normal.mantissa_lt
    rw [← show (twoTo 53 : ℚ) = 2 ^ (53 : ℤ) from cast_twoTo_zpow 53]
    exact_mod_cast this
  have high := (div_le_iff₀ unit).mp within.halves.2.1
  calc v ≤ (d.mantissa + 1 / 2) * 2 ^ d.exponent := high
    _ < 2 ^ (53 : ℤ) * 2 ^ d.exponent := by gcongr; linarith
    _ ≤ 2 ^ (53 : ℤ) * 2 ^ (971 : ℤ) := by gcongr; exacts [by norm_num, normal.exponent_le]
    _ = 2 ^ (1024 : ℤ) := by rw [← zpow_add₀ (by norm_num)]; rfl

theorem mantissa_of_small {d : Dyadic} (normal : d.Normal) {v : ℚ} (within : d.Within v) (small : v < 2 ^ (-1075 : ℤ)) :
    d.mantissa = 0 := by
  have unit : (0 : ℚ) < 2 ^ d.exponent := zpow_pos (by norm_num) _
  have low := (le_div_iff₀ unit).mp within.halves.1
  by_contra some
  have least : (1 : ℚ) ≤ d.mantissa := by exact_mod_cast Nat.pos_of_ne_zero some
  have : (2 : ℚ) ^ (-1075 : ℤ) ≤ v := by
    calc (2 : ℚ) ^ (-1075 : ℤ) = 1 / 2 * 2 ^ (-1074 : ℤ) := by rw [one_div, ← zpow_neg_one, ← zpow_add₀ (by norm_num)]; rfl
      _ ≤ (d.mantissa - 1 / 2) * 2 ^ d.exponent := by
        gcongr
        · linarith
        · linarith
        · norm_num
        · exact normal.exponent_ge
      _ ≤ v := low
  exact absurd small (not_lt.mpr this)

theorem decimal_bounds {digits : ℕ} (positive : 0 < digits) (exponent : ℤ) :
    (10 : ℚ) ^ (exponent + (toString digits).length - 1) ≤ digits * 10 ^ exponent ∧
      (digits * 10 ^ exponent : ℚ) < 10 ^ (exponent + (toString digits).length) := by
  obtain ⟨least, greatest⟩ := length_bounds positive
  constructor
  · rw [add_sub_assoc, add_comm, zpow_add₀ (by norm_num)]
    gcongr
  · rw [add_comm, zpow_add₀ (by norm_num)]
    gcongr

theorem twoTo_le_tenTo {n : ℤ} (small : n ≤ 1100) : (2 : ℚ) ^ n ≤ 10 ^ (400 : ℤ) := by
  calc (2 : ℚ) ^ n ≤ 2 ^ (11 * 100 : ℤ) := zpow_le_zpow_right₀ (by norm_num) (by simpa using small)
    _ = ((2 : ℚ) ^ (11 : ℤ)) ^ (100 : ℤ) := zpow_mul _ _ _
    _ ≤ ((10 : ℚ) ^ (4 : ℤ)) ^ (100 : ℤ) := zpow_le_zpow_left₀ (by norm_num) (by norm_num) (by norm_num)
    _ = 10 ^ (400 : ℤ) := by rw [← zpow_mul]; rfl

/-- A decimal number that rounds to a number is read as it. -/
theorem ofDecimal_within {x : Float} {d : Dyadic} (decoded : decode x = .finite d) {digits : ℕ} {exponent : ℤ}
    (within : d.Within (digits * 10 ^ exponent)) : ofDecimal d.negative digits exponent = x := by
  have normal := normal_of_decode decoded
  unfold ofDecimal
  dsimp only
  by_cases none : digits = 0
  · subst none
    have zero : d.mantissa = 0 := mantissa_of_small normal within (by simp)
    rw [if_pos (by decide)]
    exact (eq_zero_of_mantissa decoded zero).symm
  have positive : 0 < digits := Nat.pos_of_ne_zero none
  obtain ⟨least, greatest⟩ := decimal_bounds positive exponent
  rw [if_neg (by simpa using none)]
  -- a magnitude that the shortcuts sort out is beyond the finite numbers or rounds to zero
  have notLarge : ¬ exponent + ((toString digits).length : ℤ) > 400 := by
    intro large
    have : (2 : ℚ) ^ (1024 : ℤ) < 2 ^ (1024 : ℤ) := by
      calc (2 : ℚ) ^ (1024 : ℤ) ≤ 10 ^ (400 : ℤ) := twoTo_le_tenTo (by norm_num)
        _ ≤ 10 ^ (exponent + (toString digits).length - 1) := by
          gcongr
          · norm_num
          · omega
        _ ≤ digits * 10 ^ exponent := least
        _ < 2 ^ (1024 : ℤ) := within_lt normal within
    exact lt_irrefl _ this
  rw [if_neg notLarge]
  by_cases tiny : exponent + ((toString digits).length : ℤ) < -400
  · rw [if_pos tiny]
    have small : (digits * 10 ^ exponent : ℚ) < 2 ^ (-1075 : ℤ) := by
      calc (digits * 10 ^ exponent : ℚ) < 10 ^ (exponent + (toString digits).length) := greatest
        _ ≤ 10 ^ (-400 : ℤ) := by
          gcongr
          · norm_num
        _ ≤ 2 ^ (-1075 : ℤ) := by
          rw [zpow_neg, zpow_neg]
          exact inv_anti₀ (by positivity) (twoTo_le_tenTo (by norm_num))
    exact (eq_zero_of_mantissa decoded (mantissa_of_small normal within small)).symm
  · rw [if_neg tiny]
    have found : (if exponent < 0 then nearest d.negative digits (tenTo exponent.natAbs)
        else nearest d.negative (digits * tenTo exponent.natAbs) 1) = some x := by
      split
      · rename_i negative
        obtain ⟨k, power⟩ := Int.exists_eq_neg_ofNat (le_of_lt negative)
        refine nearest_within decoded positive (tenTo_pos _) ?_
        rw [power, zpow_neg, zpow_natCast] at within
        rw [power, Int.natAbs_neg, Int.natAbs_natCast, cast_tenTo, div_eq_mul_inv]
        exact within
      · rename_i nonneg
        obtain ⟨k, power⟩ := Int.eq_ofNat_of_zero_le (not_lt.mp nonneg)
        refine nearest_within decoded (Nat.mul_pos positive (tenTo_pos _)) Nat.one_pos ?_
        rw [power, zpow_natCast] at within
        rw [power, Int.natAbs_natCast, Nat.cast_one, div_one, Nat.cast_mul, cast_tenTo]
        exact within
    rw [found]
    rfl

end ProceduralScene.Number
