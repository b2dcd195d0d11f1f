import Mathlib.Algebra.Order.Field.Power
import Mathlib.Tactic.Linarith
import Mathlib.Tactic.NormNum
import Mathlib.Tactic.Ring
import Mathlib.Tactic.GCongr
import Mathlib.Tactic.FieldSimp
import ProceduralScene.Proofs.RoundingInterval

/-!
The shortest digits of a floating number exist and read back as the number: they lie in the interval of the
quantities that round to it, and seventeen digits always do.
-/

set_option autoImplicit false

namespace ProceduralScene.Number

theorem cast_twoTo (n : ℕ) : (twoTo n : ℚ) = 2 ^ n := by
  simp [twoTo]

theorem cast_tenTo (n : ℕ) : (tenTo n : ℚ) = 10 ^ n := by
  simp [tenTo]

theorem twoTo_pos (n : ℕ) : 0 < twoTo n := Nat.pow_pos (by decide)

theorem tenTo_pos (n : ℕ) : 0 < tenTo n := Nat.pow_pos (by decide)

namespace Dyadic

theorem ratio_den_pos (d : Dyadic) : 0 < d.ratio.2 := by
  unfold ratio
  split
  · exact twoTo_pos _
  · exact Nat.one_pos

/-- The quotient is the magnitude. -/
theorem ratio_eq (d : Dyadic) : (d.ratio.1 : ℚ) = d.magnitude * d.ratio.2 := by
  unfold ratio magnitude
  split
  · rename_i negative
    obtain ⟨k, power⟩ := Int.exists_eq_neg_ofNat (le_of_lt negative)
    rw [power, cast_twoTo, Int.natAbs_neg, Int.natAbs_natCast, zpow_neg, zpow_natCast]
    field_simp
  · rename_i nonneg
    obtain ⟨k, power⟩ := Int.eq_ofNat_of_zero_le (not_lt.mp nonneg)
    rw [power]
    simp [cast_twoTo]

end Dyadic

/-- A power of ten as a quotient. -/
def unitRatio (exponent : Int) : ℕ × ℕ :=
  if exponent < 0 then (1, tenTo exponent.natAbs) else (tenTo exponent.natAbs, 1)

theorem unitRatio_den_pos (u : ℤ) : 0 < (unitRatio u).2 := by
  unfold unitRatio
  split
  · exact tenTo_pos _
  · exact Nat.one_pos

theorem unitRatio_eq (u : ℤ) : ((unitRatio u).1 : ℚ) = 10 ^ u * (unitRatio u).2 := by
  unfold unitRatio
  split
  · rename_i negative
    obtain ⟨k, power⟩ := Int.exists_eq_neg_ofNat (le_of_lt negative)
    rw [power, cast_tenTo, Int.natAbs_neg, Int.natAbs_natCast, zpow_neg, zpow_natCast]
    field_simp
    simp
  · rename_i nonneg
    obtain ⟨k, power⟩ := Int.eq_ofNat_of_zero_le (not_lt.mp nonneg)
    rw [power]
    simp [cast_tenTo]

theorem scaleByTen_eq (num den : ℕ) (u : ℤ) :
    scaleByTen num den u = (num * (unitRatio u).2, den * (unitRatio u).1) := by
  unfold scaleByTen unitRatio
  split <;> simp

section

variable (d : Dyadic) (unitTen : ℤ) (n : ℕ)

/-- A quarter of the unit of the mantissa as a quotient, over the common denominator with a power of ten. -/
def quarters (count : ℕ) : ℕ := count * (Dyadic.ratio ⟨false, 1, d.exponent - 2⟩).1 * (unitRatio unitTen).2

/-- The power of ten over the same denominator. -/
def decimalStep : ℕ := (Dyadic.ratio ⟨false, 1, d.exponent - 2⟩).2 * (unitRatio unitTen).1

/-- The common denominator. -/
def commonDen : ℕ := (Dyadic.ratio ⟨false, 1, d.exponent - 2⟩).2 * (unitRatio unitTen).2

theorem commonDen_pos : (0 : ℚ) < commonDen d unitTen := by
  exact_mod_cast Nat.mul_pos (Dyadic.ratio_den_pos _) (unitRatio_den_pos _)

theorem cast_quarters (count : ℕ) :
    (quarters d unitTen count : ℚ) = count * 2 ^ (d.exponent - 2) * commonDen d unitTen := by
  unfold quarters commonDen
  push_cast
  rw [Dyadic.ratio_eq]
  simp only [Dyadic.magnitude]
  push_cast
  ring

theorem cast_decimalStep : (decimalStep d unitTen : ℚ) = 10 ^ unitTen * commonDen d unitTen := by
  unfold decimalStep commonDen
  push_cast
  rw [unitRatio_eq]
  ring

/-- Whether `n` units read back as the number. -/
def readsBack : Bool :=
  let (low, high, closed) := roundingInterval d
  if closed then quarters d unitTen low ≤ n * decimalStep d unitTen && n * decimalStep d unitTen ≤ quarters d unitTen high
  else quarters d unitTen low < n * decimalStep d unitTen && n * decimalStep d unitTen < quarters d unitTen high

end

/-- The multiple of a step that is nearest to a quantity, the even one of two that are. -/
def nearestMultiple (exact step : ℕ) : ℕ :=
  if 2 * (exact % step) < step then exact / step else if step < 2 * (exact % step) then exact / step + 1
  else if exact / step % 2 == 0 then exact / step else exact / step + 1

theorem candidate?_eq (d : Dyadic) (lead : ℤ) (count : ℕ) :
    candidate? d lead count =
      (let unitTen := lead - (count : ℤ) + 1
      let exact := quarters d unitTen (4 * d.mantissa)
      let step := decimalStep d unitTen
      let farther := if nearestMultiple exact step == exact / step then exact / step + 1 else exact / step
      if readsBack d unitTen (nearestMultiple exact step) then some ⟨nearestMultiple exact step, unitTen⟩
      else if readsBack d unitTen farther then some ⟨farther, unitTen⟩
      else none) := rfl

theorem nearestMultiple_close (exact : ℕ) {step : ℕ} (positive : 0 < step) :
    2 * (nearestMultiple exact step * step) ≤ 2 * exact + step ∧
      2 * exact ≤ 2 * (nearestMultiple exact step * step) + step := by
  have parts := Nat.div_add_mod' exact step
  have small := Nat.mod_lt exact positive
  have next : (exact / step + 1) * step = exact / step * step + step := by ring
  unfold nearestMultiple
  split
  · omega
  · split
    · omega
    · split <;> omega

theorem quarters_le_iff (d : Dyadic) (unitTen : ℤ) (count n : ℕ) : quarters d unitTen count ≤ n * decimalStep d unitTen ↔
    (count : ℚ) * 2 ^ (d.exponent - 2) ≤ n * 10 ^ unitTen := by
  rw [← Nat.cast_le (α := ℚ), Nat.cast_mul, cast_quarters, cast_decimalStep, ← mul_assoc,
    mul_le_mul_iff_left₀ (commonDen_pos d unitTen)]

theorem le_quarters_iff (d : Dyadic) (unitTen : ℤ) (count n : ℕ) : n * decimalStep d unitTen ≤ quarters d unitTen count ↔
    (n : ℚ) * 10 ^ unitTen ≤ count * 2 ^ (d.exponent - 2) := by
  rw [← Nat.cast_le (α := ℚ), Nat.cast_mul, cast_quarters, cast_decimalStep, ← mul_assoc,
    mul_le_mul_iff_left₀ (commonDen_pos d unitTen)]

/-- What reads back as the number lies in its interval. -/
theorem within_of_readsBack {d : Dyadic} {unitTen : ℤ} {n : ℕ} (reads : readsBack d unitTen n = true) :
    d.Within (n * 10 ^ unitTen) := by
  by_cases even : d.mantissa % 2 = 0
  · have closed : quarters d unitTen (roundingInterval d).1 ≤ n * decimalStep d unitTen ∧
        n * decimalStep d unitTen ≤ quarters d unitTen (roundingInterval d).2.1 := by
      simpa [readsBack, roundingInterval, even] using reads
    rw [quarters_le_iff, le_quarters_iff] at closed
    refine ⟨closed.1, closed.2, fun odd => ?_⟩
    omega
  · have strict : quarters d unitTen (roundingInterval d).1 < n * decimalStep d unitTen ∧
        n * decimalStep d unitTen < quarters d unitTen (roundingInterval d).2.1 := by
      simpa [readsBack, roundingInterval, even] using reads
    rw [← not_le, ← not_le, le_quarters_iff, quarters_le_iff, not_le, not_le] at strict
    exact ⟨strict.1.le, strict.2.le, fun _ => strict⟩

theorem readsBack_of_between {d : Dyadic} {unitTen : ℤ} {n : ℕ}
    (above : quarters d unitTen (roundingInterval d).1 < n * decimalStep d unitTen)
    (below : n * decimalStep d unitTen < quarters d unitTen (roundingInterval d).2.1) :
    readsBack d unitTen n = true := by
  unfold readsBack
  simp only
  split
  · simp [above.le, below.le]
  · simp [above, below]

theorem within_of_candidate {d : Dyadic} {lead : ℤ} {count : ℕ} {found : DecimalDigits}
    (candidate : candidate? d lead count = some found) : d.Within (found.digits * 10 ^ found.exponent) := by
  rw [candidate?_eq] at candidate
  dsimp only at candidate
  by_cases near : readsBack d (lead - count + 1) (nearestMultiple (quarters d (lead - count + 1) (4 * d.mantissa))
      (decimalStep d (lead - count + 1))) = true
  · rw [if_pos near] at candidate
    cases candidate
    exact within_of_readsBack near
  · rw [if_neg near] at candidate
    obtain ⟨reads, same⟩ := Option.ite_none_right_eq_some.mp candidate
    cases same
    exact within_of_readsBack reads

/-- The narrower side of the rounding interval, in quarters of a unit. -/
def narrowSide (d : Dyadic) : ℕ := if d.mantissa = twoTo 52 ∧ d.exponent ≠ -1074 then 1 else 2

theorem decimalStep_pos (d : Dyadic) (unitTen : ℤ) : 0 < decimalStep d unitTen := by
  have : (0 : ℚ) < decimalStep d unitTen := by
    rw [cast_decimalStep]
    exact mul_pos (zpow_pos (by norm_num) _) (commonDen_pos d unitTen)
  exact_mod_cast this

theorem quarters_add (d : Dyadic) (unitTen : ℤ) (a b : ℕ) :
    quarters d unitTen (a + b) = quarters d unitTen a + quarters d unitTen b := by
  unfold quarters
  ring

/-- A step shorter than twice the narrower side of the interval has a multiple that reads back. -/
theorem candidate?_isSome {d : Dyadic} {lead : ℤ} {count : ℕ} (positive : 0 < d.mantissa)
    (short : decimalStep d (lead - count + 1) < 2 * quarters d (lead - count + 1) (narrowSide d)) :
    (candidate? d lead count).isSome = true := by
  have side : narrowSide d ≤ 2 := by
    unfold narrowSide
    split <;> omega
  have low : (roundingInterval d).1 + narrowSide d = 4 * d.mantissa := by
    rw [Dyadic.roundingInterval_low]
    unfold narrowSide at side ⊢
    omega
  have high : (roundingInterval d).2.1 = 4 * d.mantissa + (2 - narrowSide d) + narrowSide d := by
    rw [Dyadic.roundingInterval_high]
    omega
  have near := nearestMultiple_close (quarters d (lead - count + 1) (4 * d.mantissa))
    (decimalStep_pos d (lead - count + 1))
  have reads : readsBack d (lead - count + 1) (nearestMultiple (quarters d (lead - count + 1) (4 * d.mantissa))
      (decimalStep d (lead - count + 1))) = true := by
    have lowQuarters : quarters d (lead - count + 1) (4 * d.mantissa) =
        quarters d (lead - count + 1) (roundingInterval d).1 + quarters d (lead - count + 1) (narrowSide d) := by
      rw [← low, quarters_add]
    have highQuarters : quarters d (lead - count + 1) (roundingInterval d).2.1 =
        quarters d (lead - count + 1) (4 * d.mantissa) + quarters d (lead - count + 1) (2 - narrowSide d) +
          quarters d (lead - count + 1) (narrowSide d) := by
      rw [high, quarters_add, quarters_add]
    exact readsBack_of_between (by omega) (by omega)
  rw [candidate?_eq]
  dsimp only
  rw [if_pos reads]
  rfl

theorem tenTo_le_five_twoTo : ∀ k < 340, 10 ^ k ≤ 5 * 2 ^ ((100000 * k + 30102) / 30103) := by decide +kernel

theorem twoTo_le_five_tenTo : ∀ j < 1130, 2 ^ j ≤ 5 * 10 ^ ((30103 * j + 99999) / 100000) := by decide +kernel

/-- The estimate of a decimal exponent from a binary one is never too large. -/
theorem tenTo_estimate_le {l : ℤ} (least : -1130 < l) (greatest : l < 1130) :
    (10 : ℚ) ^ (l * 30103).fdiv 100000 ≤ 5 * 2 ^ l := by
  rw [Int.fdiv_eq_ediv_of_nonneg _ (by decide)]
  rcases le_or_gt 0 l with nonneg | negative
  · obtain ⟨n, rfl⟩ := Int.eq_ofNat_of_zero_le nonneg
    obtain ⟨k, power⟩ : ∃ k : ℕ, ((n : ℤ) * 30103) / 100000 = k := ⟨n * 30103 / 100000, by omega⟩
    rw [power, zpow_natCast, zpow_natCast]
    have enough : (100000 * k + 30102) / 30103 ≤ n := by omega
    have := (tenTo_le_five_twoTo k (by omega)).trans
      (Nat.mul_le_mul_left 5 (Nat.pow_le_pow_right (by decide) enough))
    exact_mod_cast this
  · obtain ⟨j, rfl⟩ := Int.exists_eq_neg_ofNat negative.le
    have power : (-(j : ℤ) * 30103) / 100000 = -((30103 * j + 99999) / 100000 : ℕ) := by omega
    rw [power, zpow_neg, zpow_neg, zpow_natCast, zpow_natCast]
    have := twoTo_le_five_tenTo j (by omega)
    have cast : (2 : ℚ) ^ j ≤ 5 * 10 ^ ((30103 * j + 99999) / 100000) := by exact_mod_cast this
    rw [inv_le_iff_one_le_mul₀ (by positivity), ← div_eq_mul_inv]
    field_simp
    linarith

theorem atLeast_iff (num den : ℕ) (u : ℤ) :
    (scaleByTen num den u).2 ≤ (scaleByTen num den u).1 ↔ (den : ℚ) * 10 ^ u ≤ num := by
  have positive : (0 : ℚ) < (unitRatio u).2 := by exact_mod_cast unitRatio_den_pos u
  rw [scaleByTen_eq, ← Nat.cast_le (α := ℚ), Nat.cast_mul, Nat.cast_mul, unitRatio_eq, ← mul_assoc,
    mul_le_mul_iff_left₀ positive]

/-- The leading digit of a quotient stands for no more than the quotient. -/
theorem tenTo_leadingExponent_le {num den : ℕ} (positive : num ≠ 0)
    (least : -1130 < (Nat.log2 num : ℤ) - Nat.log2 den) (greatest : (Nat.log2 num : ℤ) - Nat.log2 den < 1130) :
    (den : ℚ) * 10 ^ leadingExponent num den ≤ num := by
  unfold leadingExponent
  simp only [decide_eq_true_eq, atLeast_iff]
  split
  · assumption
  · split
    · assumption
    · have estimate := tenTo_estimate_le least greatest
      have below : (2 : ℚ) ^ Nat.log2 num ≤ num := by exact_mod_cast Nat.log2_self_le positive
      have above : (den : ℚ) ≤ 2 ^ (Nat.log2 den + 1) := by exact_mod_cast Nat.lt_log2_self.le
      have powers : (2 : ℚ) ^ ((Nat.log2 num : ℤ) - Nat.log2 den) * 2 ^ Nat.log2 den = 2 ^ Nat.log2 num := by
        rw [← zpow_natCast, ← zpow_natCast, ← zpow_add₀ (by norm_num), sub_add_cancel]
      rw [zpow_sub_one₀ (by norm_num)]
      calc (den : ℚ) * (10 ^ (((Nat.log2 num : ℤ) - Nat.log2 den) * 30103).fdiv 100000 * 10⁻¹)
          ≤ 2 ^ (Nat.log2 den + 1) * (5 * 2 ^ ((Nat.log2 num : ℤ) - Nat.log2 den) * 10⁻¹) := by gcongr
        _ = 2 ^ ((Nat.log2 num : ℤ) - Nat.log2 den) * 2 ^ Nat.log2 den := by ring
        _ ≤ num := powers.trans_le below

/-- The logarithms of the quotient of a number stay in the range of the exponents. -/
theorem log2_ratio {d : Dyadic} (normal : d.Normal) (positive : 0 < d.mantissa) :
    -1130 < (Nat.log2 d.ratio.1 : ℤ) - Nat.log2 d.ratio.2 ∧ (Nat.log2 d.ratio.1 : ℤ) - Nat.log2 d.ratio.2 < 1130 := by
  have least := normal.exponent_ge
  have greatest := normal.exponent_le
  have small : Nat.log2 d.mantissa < 53 := (Nat.log2_lt (by omega)).mpr normal.mantissa_lt
  unfold Dyadic.ratio
  split
  · have : Nat.log2 (twoTo d.exponent.natAbs) = d.exponent.natAbs := Nat.log2_two_pow
    simp only [this]
    omega
  · have : Nat.log2 (d.mantissa * twoTo d.exponent.natAbs) < 53 + d.exponent.natAbs := by
      rw [Nat.log2_lt (Nat.mul_pos positive (twoTo_pos _)).ne', Nat.pow_add]
      exact Nat.mul_lt_mul_of_pos_right normal.mantissa_lt (twoTo_pos _)
    have one : Nat.log2 1 = 0 := by decide
    simp only [one]
    omega

/-- The leading digit of a number stands for no more than the number. -/
theorem tenTo_lead_le {d : Dyadic} (normal : d.Normal) (positive : 0 < d.mantissa) :
    (10 : ℚ) ^ leadingExponent d.ratio.1 d.ratio.2 ≤ d.magnitude := by
  have den : (0 : ℚ) < d.ratio.2 := by exact_mod_cast d.ratio_den_pos
  have mantissa : (0 : ℚ) < d.mantissa := by exact_mod_cast positive
  have magnitude : 0 < d.magnitude := mul_pos mantissa (zpow_pos (by norm_num) _)
  have nonzero : d.ratio.1 ≠ 0 := by
    intro zero
    have product := d.ratio_eq
    rw [zero, Nat.cast_zero] at product
    exact (mul_pos magnitude den).ne product
  obtain ⟨least, greatest⟩ := log2_ratio normal positive
  have lead := tenTo_leadingExponent_le nonzero least greatest
  rw [d.ratio_eq, mul_comm] at lead
  exact le_of_mul_le_mul_right lead den

/-- Seventeen digits are enough for every number. -/
theorem candidate?_seventeen {d : Dyadic} (normal : d.Normal) (positive : 0 < d.mantissa) :
    (candidate? d (leadingExponent d.ratio.1 d.ratio.2) 17).isSome = true := by
  apply candidate?_isSome positive
  have lead := tenTo_lead_le normal positive
  generalize leadingExponent d.ratio.1 d.ratio.2 = first at lead
  have narrow : 2 * d.mantissa < narrowSide d * 10 ^ 16 := by
    have p53 : twoTo 53 = 9007199254740992 := by decide
    have p52 := powers_of_two.2
    have small := normal.mantissa_lt
    unfold narrowSide
    split <;> omega
  have narrowCast : (2 * d.mantissa : ℚ) < narrowSide d * 10 ^ 16 := by exact_mod_cast narrow
  have unit : (0 : ℚ) < 2 ^ d.exponent := zpow_pos (by norm_num) _
  have shorter : (10 : ℚ) ^ (first - (17 : ℕ) + 1) < 2 * (narrowSide d * 2 ^ (d.exponent - 2)) := by
    have tens : (10 : ℚ) ^ (first - (17 : ℕ) + 1) * 10 ^ 16 = 10 ^ first := by
      rw [← zpow_natCast, ← zpow_add₀ (by norm_num)]
      congr 1
      omega
    have quarter : (2 : ℚ) ^ (d.exponent - 2) * 4 = 2 ^ d.exponent := by
      rw [zpow_sub₀ (by norm_num)]
      norm_num
    rw [← mul_lt_mul_iff_left₀ (show (0 : ℚ) < 2 * 10 ^ 16 by norm_num)]
    calc (10 : ℚ) ^ (first - (17 : ℕ) + 1) * (2 * 10 ^ 16) = 2 * 10 ^ first := by rw [← tens]; ring
      _ ≤ 2 * (d.mantissa * 2 ^ d.exponent) := by
        rw [Dyadic.magnitude] at lead
        gcongr
      _ = 2 * d.mantissa * 2 ^ d.exponent := by ring
      _ < narrowSide d * 10 ^ 16 * 2 ^ d.exponent := by gcongr
      _ = 2 * (narrowSide d * 2 ^ (d.exponent - 2)) * (2 * 10 ^ 16) := by rw [← quarter]; ring
  have common := commonDen_pos d (first - (17 : ℕ) + 1)
  rw [← Nat.cast_lt (α := ℚ), cast_decimalStep, Nat.cast_mul, cast_quarters]
  calc (10 : ℚ) ^ (first - (17 : ℕ) + 1) * commonDen d (first - (17 : ℕ) + 1)
      < 2 * (narrowSide d * 2 ^ (d.exponent - 2)) * commonDen d (first - (17 : ℕ) + 1) := by gcongr
    _ = _ := by push_cast; ring

theorem shortestFrom_candidate {d : Dyadic} {lead : ℤ} (enough : (candidate? d lead 17).isSome = true) (fuel : ℕ) :
    ∀ count, ∃ used, candidate? d lead used = some (shortestFrom d lead count fuel) := by
  induction fuel with
  | zero =>
    intro count
    obtain ⟨found, same⟩ := Option.isSome_iff_exists.mp enough
    exact ⟨17, by rw [shortestFrom, same, Option.getD_some]⟩
  | succ fuel ih =>
    intro count
    rw [shortestFrom]
    split
    · rename_i found same
      exact ⟨count, same⟩
    · exact ih (count + 1)

/-- The shortest digits of a number read back as the number. -/
theorem within_shortest {d : Dyadic} (normal : d.Normal) (positive : 0 < d.mantissa) :
    d.Within ((shortest d).digits * 10 ^ (shortest d).exponent) := by
  obtain ⟨used, candidate⟩ := shortestFrom_candidate (candidate?_seventeen normal positive) 17 1
  exact within_of_candidate candidate

end ProceduralScene.Number
