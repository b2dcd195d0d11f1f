import Mathlib
import ProceduralScene.Proofs.FloatArithmetic
import ProceduralScene.Proofs.LoneVariable

/-!
The remainder of integers. The operator turns its operands into floating numbers: of those that are numbers of the
format the remainder is exact, as no bit of it is lost. The function divides integers of any size and rounds down.
-/

set_option autoImplicit false

namespace ProceduralScene

namespace Number

-- Counted in a smaller unit, whole numbers have the same quotient and so the same remainder.
theorem mod_scaled {a b l r : ℕ} {unit : ℚ} (positive : 0 < unit) (left : (a : ℚ) = l * unit) (right : (b : ℚ) = r * unit) :
    ((l % r : ℕ) : ℚ) * unit = (a % b : ℕ) := by
  have quotient : l / r = a / b := by
    rw [← @Nat.floor_div_eq_div ℚ, ← @Nat.floor_div_eq_div ℚ _ _ _ _ a, left, right, mul_div_mul_right _ _ positive.ne']
  have own : ((l % r : ℕ) : ℚ) = l - r * (a / b : ℕ) := by
    have whole : ((r * (l / r) + l % r : ℕ) : ℚ) = l := by rw [Nat.div_add_mod]
    rw [quotient] at whole
    push_cast at whole
    linarith
  have other : ((a % b : ℕ) : ℚ) = a - b * (a / b : ℕ) := by
    have whole : ((b * (a / b) + a % b : ℕ) : ℚ) = a := by rw [Nat.div_add_mod]
    push_cast at whole
    linarith
  rw [own, other, left, right]
  ring

namespace Dyadic

variable {d : Dyadic}

theorem magnitude_of_int {a : ℤ} (whole : d.value = a) : d.magnitude = a.natAbs := by
  rw [← abs_value, whole, Nat.cast_natAbs, Int.cast_abs]

theorem magnitude_scaled {unit : ℤ} (below : unit ≤ d.exponent) :
    d.magnitude = (d.mantissa * twoTo (d.exponent - unit).toNat : ℕ) * 2 ^ unit := by
  obtain ⟨k, gap⟩ := Int.eq_ofNat_of_zero_le (by omega : 0 ≤ d.exponent - unit)
  rw [gap, Int.toNat_natCast, Nat.cast_mul, cast_twoTo_zpow, mul_assoc, ← zpow_add₀ (by norm_num), magnitude]
  congr 2
  omega

/-- What is left of the first number by the second, counted in the smaller one of their units. -/
def rest (d e : Dyadic) : Dyadic :=
  ⟨d.negative, d.mantissa * twoTo (d.exponent - min d.exponent e.exponent).toNat %
    (e.mantissa * twoTo (e.exponent - min d.exponent e.exponent).toNat), min d.exponent e.exponent⟩

-- The operand whose unit is the smaller one keeps its mantissa, and the rest is not above it.
theorem rest_lt {e : Dyadic} (normal : d.Normal) (normal' : e.Normal) (some : e.mantissa ≠ 0) :
    (rest d e).mantissa < twoTo 53 := by
  unfold rest
  dsimp only
  rcases le_total d.exponent e.exponent with smaller | smaller
  · apply (Nat.mod_le _ _).trans_lt
    rw [min_eq_left smaller, sub_self]
    exact (Nat.mul_one _).trans_lt normal.mantissa_lt
  · apply (Nat.mod_lt _ (Nat.mul_pos (Nat.pos_of_ne_zero some) (twoTo_pos _))).trans
    rw [min_eq_right smaller, sub_self]
    exact (Nat.mul_one _).trans_lt normal'.mantissa_lt

theorem tmod_nonpos {a : ℤ} (below : a ≤ 0) (b : ℤ) : a.tmod b ≤ 0 := by
  have opposite := Int.tmod_nonneg b (Int.neg_nonneg_of_nonpos below)
  rw [Int.neg_tmod] at opposite
  omega

theorem value_rest {e : Dyadic} {a b : ℤ} (whole : d.value = a) (whole' : e.value = b) : (rest d e).value = (a.tmod b : ℤ) := by
  have scaled := magnitude_scaled (min_le_left d.exponent e.exponent)
  have scaled' := magnitude_scaled (min_le_right d.exponent e.exponent)
  rw [magnitude_of_int whole] at scaled
  rw [magnitude_of_int whole'] at scaled'
  have size : (rest d e).magnitude = |(a.tmod b : ℤ)| := by
    rw [← Nat.cast_natAbs, Int.natAbs_tmod]
    exact mod_scaled (unit_pos _) scaled scaled'
  have sign : (rest d e).negative = d.negative := rfl
  have atLeast := d.magnitude_nonneg
  rw [value] at whole
  rw [value, sign, size]
  by_cases negative : d.negative
  · have below : a ≤ 0 := by
      rw [if_pos negative] at whole
      have : (a : ℚ) ≤ 0 := by linarith
      exact_mod_cast this
    rw [if_pos negative, abs_of_nonpos (tmod_nonpos below b), Int.cast_neg, neg_neg]
  · have above : 0 ≤ a := by
      rw [if_neg negative] at whole
      have : (0 : ℚ) ≤ a := by linarith
      exact_mod_cast this
    rw [if_neg negative, abs_of_nonneg (Int.tmod_nonneg b above)]

end Dyadic

theorem remainder_denotes {x y : Float} {a b : ℤ} (left : Denotes x a) (right : Denotes y b) (some : b ≠ 0) :
    Denotes (remainder x y) (a.tmod b : ℤ) := by
  obtain ⟨d, decoded, whole⟩ := left
  obtain ⟨e, decoded', whole'⟩ := right
  have normal := normal_of_decode decoded
  have normal' := normal_of_decode decoded'
  have divisor : e.mantissa ≠ 0 := by
    intro none
    rw [Dyadic.value_of_mantissa none] at whole'
    exact some (by exact_mod_cast whole'.symm)
  have opened : remainder x y =
      (nearest d.negative (Dyadic.rest d e).ratio.1 (Dyadic.rest d e).ratio.2).getD x := by
    unfold remainder
    rw [decoded, decoded']
    exact if_neg (by simpa using divisor)
  -- the rest fits the bits, so rounding it to the nearest number changes nothing
  obtain ⟨f, isNormal, sign, size⟩ := Dyadic.exists_shifted (Dyadic.rest_lt normal normal' divisor)
    (le_min normal.exponent_ge normal'.exponent_ge) ((min_le_left _ _).trans normal.exponent_le) d.negative
  have same : f.value = (Dyadic.rest d e).value := by
    rw [Dyadic.value, sign, size]
    rfl
  have ratio : f.magnitude = (Dyadic.rest d e).ratio.1 / (Dyadic.rest d e).ratio.2 := by
    rw [Dyadic.ratio_eq, mul_div_cancel_right₀ _ (by exact_mod_cast (Dyadic.ratio_den_pos _).ne'), size]
    rfl
  obtain ⟨z, found, denotes⟩ := nearest_magnitude isNormal (Dyadic.ratio_den_pos _) ratio
  rw [sign] at found
  rw [opened, found, ← Dyadic.value_rest whole whole', ← same]
  exact denotes

theorem Denotes.not_infinite {x : Float} {v : ℚ} (denotes : Denotes x v) : x.isInf = false := by
  obtain ⟨d, decoded, -⟩ := denotes
  change x.toModel.unpack.isInf = false
  rw [Dyadic.unpack_of_decode decoded, Dyadic.unpacked]
  split <;> rfl

end Number

variable {a b : ℤ}

namespace Scalar

theorem truncatedRemainder_ints (exact : Number.Dyadic.Exact a) (exact' : Number.Dyadic.Exact b) (some : b ≠ 0) :
    truncatedRemainder (.int a) (.int b) = .ok (.int (a.tmod b)) := by
  obtain ⟨x, xIs, xDenotes⟩ := toFloat_int exact
  obtain ⟨y, yIs, yDenotes⟩ := toFloat_int exact'
  obtain ⟨d, decoded, whole⟩ := Number.remainder_denotes xDenotes yDenotes some
  have usable : ¬ (y == 0.0 || x.isInf && !y.isNaN) = true := by
    simp [yDenotes.beq_zero (by exact_mod_cast some), xDenotes.not_infinite]
  rw [truncatedRemainder, xIs, yIs]
  change (if (y == 0.0 || x.isInf && !y.isNaN) = true then _ else _) = _
  rw [if_neg usable, decoded]
  dsimp only
  rw [(Number.Dyadic.truncate_eq whole).2]
  rfl

theorem flooredRemainder_ints (some : b ≠ 0) : flooredRemainder (.int a) (.int b) = .ok (.int (a.fmod b)) :=
  if_neg (by simpa using some)

end Scalar

namespace Expression

theorem applyProduct_ints (exact : Number.Dyadic.Exact a) (exact' : Number.Dyadic.Exact b) (some : b ≠ 0) :
    applyProduct "%" (.int a) (.int b) = .ok (.int (a.tmod b)) := by
  have divisor : (Value.int b).isZero = false := beq_false_of_ne some
  unfold applyProduct
  rw [divisor]
  exact Scalar.truncatedRemainder_ints exact exact' some

-- The function takes the remainder again, of the first one plus the divisor, which changes nothing.
theorem floorMod_ints (some : b ≠ 0) (calls : ℕ) : floorMod.call calls [.int a, .int b] = .ok (.int (a.fmod b)) := by
  change (Scalar.flooredRemainder (.int a) (.int b) >>= fun once => _) = _
  rw [Scalar.flooredRemainder_ints some]
  change Scalar.flooredRemainder (.int (a.fmod b + b)) (.int b) = _
  rw [Scalar.flooredRemainder_ints some, Int.add_fmod_right, Int.fmod_fmod]

theorem fmod_neg_bounds (negative : b < 0) : b < a.fmod b ∧ a.fmod b ≤ 0 := by
  -- with both signs turned around the divisor is positive, and so is the remainder
  have low := Int.fmod_nonneg_of_pos (-a) (Int.neg_pos_of_neg negative)
  have high := Int.fmod_lt_of_pos (-a) (Int.neg_pos_of_neg negative)
  rw [Int.neg_fmod_neg] at low high
  omega

/-- The operator and the function on integers that are numbers of the format: the remainders differ by a multiple of the
divisor, and have the sign of the dividend and of the divisor. -/
theorem remainders_ints (exact : Number.Dyadic.Exact a) (exact' : Number.Dyadic.Exact b) (some : b ≠ 0) (calls : ℕ) :
    ∃ r m : ℤ, applyProduct "%" (.int a) (.int b) = .ok (.int r) ∧ floorMod.call calls [.int a, .int b] = .ok (.int m) ∧
      r = a - b * a.tdiv b ∧ |r| < |b| ∧ (0 ≤ a → 0 ≤ r) ∧ (a ≤ 0 → r ≤ 0) ∧
      (0 < b → 0 ≤ m ∧ m < b) ∧ (b < 0 → b < m ∧ m ≤ 0) ∧ r ≡ m [ZMOD b] := by
  have truncated := Int.tmod_add_mul_tdiv a b
  have floored := Int.fmod_add_mul_fdiv a b
  refine ⟨_, _, applyProduct_ints exact exact' some, floorMod_ints some calls, by omega, ?_, Int.tmod_nonneg b,
    fun below => Number.Dyadic.tmod_nonpos below b,
    fun positive => ⟨Int.fmod_nonneg_of_pos a positive, Int.fmod_lt_of_pos a positive⟩, fmod_neg_bounds, ?_⟩
  · rw [Int.abs_eq_natAbs, Int.abs_eq_natAbs, Int.natAbs_tmod]
    exact_mod_cast Nat.mod_lt _ (Int.natAbs_pos.mpr some)
  · apply Int.modEq_iff_dvd.mpr
    exact ⟨a.tdiv b - a.fdiv b, by rw [mul_sub]; omega⟩

/-- Of an operand past the bits of the format the last ones are lost, and the remainder with them. -/
example : (applyProduct "%" (.int 9007199254740993) (.int 2)).toOption.map Value.isZero = some true ∧
    (floorMod.call 0 [.int 9007199254740993, .int 2]).toOption.map Value.isZero = some false := by decide +kernel

/-! ### Texts -/

theorem wordless_plain {text : List Char} (plain : ∀ c ∈ text, isNameStart c = false ∧ c ≠ '(') : Wordless text where
  calls member := (plain _ (List.mem_of_mem_drop member)).2 rfl
  absent := by
    intro name nameable
    obtain ⟨identifier, same⟩ := nameable_text nameable
    rw [same]
    exact hasWord_nameless identifier text (nameless_plain (fun c member => (plain c member).1) none)

def remainderText (a b : ℤ) : String := toString a ++ " % " ++ toString b

theorem chars_remainderText {c : Char} (member : c ∈ (remainderText a b).toList) :
    c.isDigit = true ∨ c = '-' ∨ c = ' ' ∨ c = '%' := by
  have chars : ∀ {n : ℤ}, c ∈ (toString n).toList → c.isDigit = true ∨ c = '-' := by
    intro n inside
    rw [toList_int, List.mem_append] at inside
    rcases inside with sign | digit
    · split at sign
      · exact .inr (List.mem_singleton.mp sign)
      · cases sign
    · exact .inl (Number.allDigits_toString _ c digit)
  rw [remainderText, String.toList_append, String.toList_append, List.mem_append, List.mem_append] at member
  rcases member with (left | operator) | right
  · exact (chars left).imp_right .inl
  · have : c = ' ' ∨ c = '%' ∨ c = ' ' := by simpa using operator
    grind
  · exact (chars right).imp_right .inl

theorem ends_int (n : ℤ) : (∃ c rest, (toString n).toList = c :: rest ∧ (c.isDigit = true ∨ c = '-')) ∧
    ∃ c, (toString n).toList.getLast? = some c ∧ c.isDigit = true := by
  have only := Number.allDigits_toString n.natAbs
  have nonempty := Number.toList_toString_ne_nil n.natAbs
  rw [toList_int]
  generalize (toString n.natAbs).toList = digits at only nonempty ⊢
  constructor
  · split
    · exact ⟨'-', digits, rfl, .inr rfl⟩
    · obtain ⟨c, rest, rfl⟩ := List.exists_cons_of_ne_nil nonempty
      exact ⟨c, rest, rfl, .inl (only c List.mem_cons_self)⟩
  · refine ⟨digits.getLast nonempty, ?_, only _ (List.getLast_mem nonempty)⟩
    rw [List.getLast?_append, List.getLast?_eq_some_getLast nonempty]
    rfl

theorem isSpace_digit {c : Char} (digit : c.isDigit = true) : Text.isSpace c = false :=
  isSpace_word (isWord_of_isAlphanum (by simp [Char.isAlphanum, digit]))

theorem dropAssignment_remainderText (a b : ℤ) : dropAssignment (remainderText a b).toList = (remainderText a b).toList := by
  obtain ⟨first, rest, starts, solid⟩ := (ends_int a).1
  obtain ⟨last, ends, digit⟩ := (ends_int b).2
  rw [remainderText, String.toList_append, String.toList_append, starts, List.append_assoc, List.cons_append]
  apply dropAssignment_solid
  · rcases solid with digit | rfl
    · exact isSpace_digit digit
    · decide
  · rcases solid with digit | rfl
    · exact Number.ne_of_isDigit digit (by decide)
    · decide
  · intro c found
    rw [← List.cons_append, ← List.append_assoc, List.getLast?_append, ends] at found
    cases found
    exact isSpace_digit digit

theorem spaced_minusWords {words : List Word} {text : List Char} (negated : Bool) (numeral : Numeral)
    (apart : (Word.number numeral).Apart text.head?) (rest : Spaced words text) :
    Spaced (minusWords false negated numeral ++ words) ((if negated then ['-'] else []) ++ numeral.text ++ text) := by
  have number : Spaced (.number numeral :: words) (numeral.text ++ text) := .word trivial apart rest
  cases negated with
  | false => exact number
  | true => exact .word (by decide) (apart_symbol (by decide) _) number

def remainderTerm (a b : ℤ) (left right : Numeral) : Term :=
  .binary .product "%" (by decide) (minusTerm (decide (a < 0)) left) (minusTerm (decide (b < 0)) right)

def remainderWords (a b : ℤ) (left right : Numeral) : List Word :=
  minusWords false (decide (a < 0)) left ++ operatorWord "%" :: minusWords false (decide (b < 0)) right

theorem spells_remainder (a b : ℤ) (left right : Numeral) :
    Spells .ternary (remainderTerm a b left right) (remainderWords a b left right) :=
  spells_looser (.binary (spells_looser (spells_minusTerm _ left) (by decide)) (spells_minusTerm _ right)) (Nat.zero_le _)

-- The blanks stand on both sides of the operator; a sign needs none.
theorem spaced_remainder {left right : Numeral}
    (leftDigits : (toString a).toList = (if decide (a < 0) then ['-'] else []) ++ left.text)
    (rightDigits : (toString b).toList = (if decide (b < 0) then ['-'] else []) ++ right.text) :
    Spaced (remainderWords a b left right) (remainderText a b).toList := by
  have operand := @spaced_minusWords [] [] (decide (b < 0)) right (by simp [Word.Apart]) .nil
  rw [List.append_nil, List.append_nil] at operand
  have operator : Spaced (operatorWord "%" :: minusWords false (decide (b < 0)) right)
      (" % ".toList ++ (toString b).toList) := by
    rw [rightDigits]
    exact .blank (by decide) (.word (by decide) (apart_symbol (by decide) _) (.blank (by decide) operand))
  have whole := spaced_minusWords (decide (a < 0)) left (by rintro c ⟨⟩; decide) operator
  rw [← leftDigits, ← List.append_assoc] at whole
  rwa [remainderText, String.toList_append, String.toList_append]

theorem natAbs_lt_tenTo {n : ℤ} (bits : |n| ≤ 2 ^ 53) {limit : ℕ} (few : 16 < limit) : n.natAbs < Number.tenTo limit := by
  rw [Int.abs_eq_natAbs] at bits
  calc n.natAbs ≤ 10 ^ 16 := by omega
    _ < 10 ^ limit := Nat.pow_lt_pow_right (by decide) few

theorem evaluateReduced_remainder (bits : |a| ≤ 2 ^ 53) (bits' : |b| ≤ 2 ^ 53) (some : b ≠ 0) (env : Environment) :
    evaluateReduced env (remainderText a b).toList = .ok (.int (a.tmod b)) := by
  obtain ⟨left, -, leftDigits, leftIs⟩ := exists_numeral (natAbs_lt_tenTo bits (by decide))
  obtain ⟨right, -, rightDigits, rightIs⟩ := exists_numeral (natAbs_lt_tenTo bits' (by decide))
  have value : (remainderTerm a b left right).value env = .ok (.int (a.tmod b)) := by
    rw [remainderTerm, Term.value, leftIs, rightIs]
    exact applyProduct_ints (Number.exact_int bits) (Number.exact_int bits') some
  exact ok_of_toOption (by
    rw [evaluateReduced_spelled env (spells_remainder a b left right) (spaced_remainder leftDigits rightDigits), value]
    rfl)

end Expression

namespace Evaluator

open Expression

-- No stage finds anything in the text, so it is read as it stands, and nothing is called or recorded.
theorem evaluateFresh_wordless (ev : Evaluator) {nodeText : NodeText} {symbols : Bindings}
    (named : ev.WellNamed nodeText symbols) (path : Option String) {text : String} {value : Value}
    (wordless : Wordless text.toList) (free : dollarFree none text.toList = true)
    (bare : dropAssignment text.toList = text.toList)
    (reads : evaluateReduced ((ev.setting nodeText symbols path).environment []) text.toList = .ok value) :
    ev.evaluateFresh nodeText text symbols path = (value, ev) := by
  have substituted : (substituteVariables (ev.setting nodeText symbols path) (String.ofList (dropAssignment text.toList)) none 0
      (dropAssignment text.toList)).run.run ⟨[], ev.calls, ev.log⟩ = (.ok text.toList, ⟨[], ev.calls, ev.log⟩) := by
    rw [bare, substituteVariables_free _ _ _ free]
    rfl
  have settled := @evaluateText_settled _ text.toList.length _ _ _ _
    (untouched_wordless wordless named.functions named.constants named.symbols _) substituted
  unfold evaluateFresh
  dsimp only
  rw [nestingBound, settled]
  have empty : Bindings.get? (String.ofList (Text.trim text.toList)) [] = none := rfl
  dsimp only
  rw [empty, reads]

/-- The remainder of integers of the bits of the format, written out and evaluated as a text. -/
theorem evaluateFresh_remainder (ev : Evaluator) {nodeText : NodeText} {symbols : Bindings}
    (named : ev.WellNamed nodeText symbols) (path : Option String) {a b : ℤ} (bits : |a| ≤ 2 ^ 53) (bits' : |b| ≤ 2 ^ 53)
    (some : b ≠ 0) :
    ev.evaluateFresh nodeText (remainderText a b) symbols path = (.int (a.tmod b), ev) := by
  have chars : ∀ c ∈ (remainderText a b).toList, isNameStart c = false ∧ c ≠ '(' ∧ c ≠ '$' ∧ isQuote c = false := by
    intro c member
    rcases chars_remainderText member with digit | rfl | rfl | rfl
    · have apart : ∀ {other : Char}, other.isDigit = false → c ≠ other := fun none => Number.ne_of_isDigit digit none
      exact ⟨noStart_digit digit, apart (by decide), apart (by decide), by simp [isQuote, apart]⟩
    all_goals decide
  apply ev.evaluateFresh_wordless named path
  · exact wordless_plain fun c member => ⟨(chars c member).1, (chars c member).2.1⟩
  · exact (clean_unmarked fun c member => (chars c member).2.2).free
  · exact dropAssignment_remainderText a b
  · exact evaluateReduced_remainder bits bits' some _

end Evaluator

end ProceduralScene
