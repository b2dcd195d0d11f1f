import Mathlib.Data.List.TakeWhile
import ProceduralScene.Proofs.ShortestDigits

/-!
What the text of a finite number says: every layout of its digits stands for a quantity that rounds to the number, so
that no two finite numbers have one text.
-/

set_option autoImplicit false

namespace ProceduralScene.Number

/-- The exponent that follows the mark of an exponent. -/
def exponentValue : List Char → ℤ
  | '-' :: digits => -(Nat.ofDigitChars 10 digits 0 : ℤ)
  | _ :: digits => Nat.ofDigitChars 10 digits 0
  | [] => 0

/-- The quantity that a decimal text without a sign stands for. -/
def decimalValue (text : List Char) : ℚ :=
  let significand := text.takeWhile (· != 'e')
  let fraction := (significand.dropWhile (· != '.')).drop 1
  (Nat.ofDigitChars 10 (significand.filter (· != '.')) 0 : ℚ) *
    10 ^ (exponentValue ((text.dropWhile (· != 'e')).drop 1) - (fraction.length : ℤ))

def AllDigits (text : List Char) : Prop := ∀ c ∈ text, c.isDigit = true

theorem ne_of_isDigit {c other : Char} (digit : c.isDigit = true) (none : other.isDigit = false) : c ≠ other := by
  rintro rfl
  rw [digit] at none
  cases none

section

variable {whole fraction tail : List Char} (digits : AllDigits whole) (digits' : AllDigits fraction)

include digits

theorem filter_point : whole.filter (· != '.') = whole :=
  List.filter_eq_self.mpr fun c member => bne_iff_ne.mpr (ne_of_isDigit (digits c member) rfl)

theorem dropWhile_point (rest : List Char) : (whole ++ '.' :: rest).dropWhile (· != '.') = '.' :: rest := by
  rw [List.dropWhile_append_of_pos fun c member => bne_iff_ne.mpr (ne_of_isDigit (digits c member) rfl)]
  rfl

theorem dropWhile_point_none : whole.dropWhile (· != '.') = [] :=
  List.dropWhile_eq_nil_iff.mpr fun c member => bne_iff_ne.mpr (ne_of_isDigit (digits c member) rfl)

theorem beforeMark (c : Char) (member : c ∈ whole) : (c != 'e') = true :=
  bne_iff_ne.mpr (ne_of_isDigit (digits c member) rfl)

theorem decimalValue_mark : decimalValue (whole ++ 'e' :: tail) =
    Nat.ofDigitChars 10 whole 0 * 10 ^ exponentValue tail := by
  unfold decimalValue
  rw [List.takeWhile_append_of_pos (beforeMark digits), List.dropWhile_append_of_pos (beforeMark digits)]
  simp [filter_point digits, dropWhile_point_none digits]

include digits'

theorem beforeMark_point (c : Char) (member : c ∈ whole ++ '.' :: fraction) : (c != 'e') = true := by
  rcases List.mem_append.mp member with inWhole | point | inFraction
  · exact beforeMark digits c inWhole
  · rfl
  · exact beforeMark digits' c ‹_›

theorem decimalValue_point : decimalValue (whole ++ '.' :: fraction) =
    Nat.ofDigitChars 10 (whole ++ fraction) 0 * 10 ^ (-(fraction.length : ℤ)) := by
  unfold decimalValue
  have noMark := beforeMark_point digits digits'
  dsimp only
  rw [List.takeWhile_eq_self_iff.mpr noMark, List.dropWhile_eq_nil_iff.mpr noMark, dropWhile_point digits,
    List.filter_append, filter_point digits]
  simp [filter_point digits', exponentValue]

theorem decimalValue_point_mark : decimalValue (whole ++ '.' :: fraction ++ 'e' :: tail) =
    Nat.ofDigitChars 10 (whole ++ fraction) 0 * 10 ^ (exponentValue tail - (fraction.length : ℤ)) := by
  unfold decimalValue
  rw [List.takeWhile_append_of_pos (beforeMark_point digits digits'),
    List.dropWhile_append_of_pos (beforeMark_point digits digits')]
  simp only [List.takeWhile_cons, List.dropWhile_cons, bne_self_eq_false, Bool.false_eq_true, if_false, List.append_nil,
    dropWhile_point digits, List.filter_append, filter_point digits]
  simp [filter_point digits']

end

theorem toList_toString (n : ℕ) : (toString n).toList = Nat.toDigits 10 n := by
  rw [Nat.toString_eq_ofList_toDigits, String.toList_ofList]

theorem allDigits_toString (n : ℕ) : AllDigits (toString n).toList := by
  rw [toList_toString]
  exact fun c member => Nat.isDigit_of_mem_toDigits (by decide) (by decide) member

theorem toList_toString_ne_nil (n : ℕ) : (toString n).toList ≠ [] := by
  rw [toList_toString]
  exact Nat.toDigits_ne_nil

theorem ofDigitChars_toString (n : ℕ) : Nat.ofDigitChars 10 (toString n).toList 0 = n := by
  rw [toList_toString, Nat.ofDigitChars_ten_toDigits]

/-- An exponent is shown with a sign and digits. -/
theorem exponentText_parts (e : ℤ) : ∃ sign digits, (exponentText e).toList = 'e' :: sign :: digits ∧
    (sign = '+' ∨ sign = '-') ∧ digits ≠ [] ∧ AllDigits digits ∧ exponentValue (sign :: digits) = e := by
  obtain ⟨digits, same, value, only⟩ : ∃ digits : List Char,
      (if (toString e.natAbs).length < 2 then "0" ++ toString e.natAbs else toString e.natAbs).toList = digits ∧
        Nat.ofDigitChars 10 digits 0 = e.natAbs ∧ AllDigits digits := by
    split
    · refine ⟨'0' :: (toString e.natAbs).toList, by rw [String.toList_append]; rfl, ofDigitChars_toString _, ?_⟩
      intro c member
      rcases List.mem_cons.mp member with rfl | member
      · rfl
      · exact allDigits_toString _ c member
    · exact ⟨_, rfl, ofDigitChars_toString _, allDigits_toString _⟩
  have text : (exponentText e).toList = (if e < 0 then "e-" else "e+").toList ++ digits := by
    rw [← same, ← String.toList_append]
    rfl
  have some : digits ≠ [] := by
    rintro rfl
    split at same
    · rw [String.toList_append] at same
      cases same
    · exact toList_toString_ne_nil _ same
  by_cases negative : e < 0
  · refine ⟨'-', digits, by rw [text, if_pos negative]; rfl, .inr rfl, some, only, ?_⟩
    show -(Nat.ofDigitChars 10 digits 0 : ℤ) = e
    omega
  · refine ⟨'+', digits, by rw [text, if_neg negative]; rfl, .inl rfl, some, only, ?_⟩
    show (Nat.ofDigitChars 10 digits 0 : ℤ) = e
    omega

theorem exponentText_spec (e : ℤ) : ∃ tail, (exponentText e).toList = 'e' :: tail ∧ exponentValue tail = e ∧
    ∀ c ∈ tail, c.isDigit = true ∨ c = '+' ∨ c = '-' := by
  obtain ⟨sign, digits, text, signs, -, only, value⟩ := exponentText_parts e
  refine ⟨sign :: digits, text, value, fun c member => ?_⟩
  rcases List.mem_cons.mp member with rfl | member
  · exact .inr signs
  · exact .inl (only c member)

/-- The digits without the zeros at their end. -/
def significant (digits : List Char) : List Char := (digits.reverse.dropWhile (· == '0')).reverse

theorem significant_spec (digits : List Char) :
    ∃ count, digits = significant digits ++ List.replicate count '0' := by
  refine ⟨(digits.reverse.takeWhile (· == '0')).length, ?_⟩
  have zeros : digits.reverse.takeWhile (· == '0') =
      List.replicate (digits.reverse.takeWhile (· == '0')).length '0' :=
    List.eq_replicate_iff.mpr ⟨rfl, fun c member => eq_of_beq (List.mem_takeWhile_imp (p := (· == '0')) member)⟩
  have parts := congrArg List.reverse (List.takeWhile_append_dropWhile (p := (· == '0')) (l := digits.reverse))
  rw [List.reverse_append, List.reverse_reverse, zeros, List.reverse_replicate] at parts
  exact parts.symm

theorem allDigits_append {first second : List Char} (digits : AllDigits first) (digits' : AllDigits second) :
    AllDigits (first ++ second) := fun c member => (List.mem_append.mp member).elim (digits c) (digits' c)

theorem allDigits_replicate (n : ℕ) : AllDigits (List.replicate n '0') := by
  intro c member
  rw [List.eq_of_mem_replicate member]
  rfl

theorem toList_zeros (n : ℕ) : (zeros n).toList = List.replicate n '0' := String.toList_ofList

/-- A character of the text of a finite number without its sign. -/
def IsNumeral (c : Char) : Prop := c.isDigit = true ∨ c = '.' ∨ c = 'e' ∨ c = '+' ∨ c = '-'

/-- A text without a sign for a quantity, with a mark that the text of an integer does not have. -/
structure Shows (v : ℚ) (body : List Char) : Prop where
  value : decimalValue body = v
  unsigned : body.head? ≠ some '-'
  numeral : ∀ c ∈ body, IsNumeral c
  marked : '.' ∈ body ∨ 'e' ∈ body

theorem unsigned_append {whole rest : List Char} (digits : AllDigits whole) (unsigned : rest.head? ≠ some '-') :
    (whole ++ rest).head? ≠ some '-' := by
  cases whole with
  | nil => exact unsigned
  | cons c whole =>
    intro signed
    exact absurd (Option.some.inj signed) (ne_of_isDigit (digits c List.mem_cons_self) rfl)

section

variable {whole fraction tail : List Char} (digits : AllDigits whole) (digits' : AllDigits fraction)
  (marks : ∀ c ∈ tail, c.isDigit = true ∨ c = '+' ∨ c = '-')

include digits

theorem shows_mark (marks : ∀ c ∈ tail, c.isDigit = true ∨ c = '+' ∨ c = '-') :
    Shows (Nat.ofDigitChars 10 whole 0 * 10 ^ exponentValue tail) (whole ++ 'e' :: tail) where
  value := decimalValue_mark digits
  unsigned := unsigned_append digits (by simp)
  numeral := by
    intro c member
    rcases List.mem_append.mp member with inWhole | member
    · exact .inl (digits c inWhole)
    · rcases List.mem_cons.mp member with mark | inTail
      · exact .inr (.inr (.inl mark))
      · rcases marks c inTail with digit | sign | sign
        · exact .inl digit
        · exact .inr (.inr (.inr (.inl sign)))
        · exact .inr (.inr (.inr (.inr sign)))
  marked := .inr (by simp)

include digits'

theorem numeral_point (c : Char) (member : c ∈ whole ++ '.' :: fraction) : IsNumeral c := by
  rcases List.mem_append.mp member with inWhole | member
  · exact .inl (digits c inWhole)
  · rcases List.mem_cons.mp member with point | inFraction
    · exact .inr (.inl point)
    · exact .inl (digits' c inFraction)

theorem shows_point :
    Shows (Nat.ofDigitChars 10 (whole ++ fraction) 0 * 10 ^ (-(fraction.length : ℤ))) (whole ++ '.' :: fraction) where
  value := decimalValue_point digits digits'
  unsigned := unsigned_append digits (by simp)
  numeral := numeral_point digits digits'
  marked := .inl (by simp)

theorem shows_point_mark (marks : ∀ c ∈ tail, c.isDigit = true ∨ c = '+' ∨ c = '-') :
    Shows (Nat.ofDigitChars 10 (whole ++ fraction) 0 * 10 ^ (exponentValue tail - (fraction.length : ℤ)))
      (whole ++ '.' :: fraction ++ 'e' :: tail) where
  value := decimalValue_point_mark digits digits'
  unsigned := by
    rw [List.append_assoc]
    exact unsigned_append digits (by simp)
  numeral := by
    intro c member
    rcases List.mem_append.mp member with before | member
    · exact numeral_point digits digits' c before
    · exact (shows_mark (show AllDigits [] from fun _ none => nomatch none) marks).numeral c member
  marked := .inl (by simp)

end

/-- The layout of digits whose first one stands for a power of ten. -/
def layout (digits : List Char) (lead : ℤ) : String :=
  if lead < -4 || 16 ≤ lead then pointAfterFirst (String.ofList digits) ++ exponentText lead
  else if lead < 0 then "0." ++ zeros (lead.natAbs - 1) ++ String.ofList digits
  else if digits.length ≤ lead.toNat + 1 then
    String.ofList digits ++ zeros (lead.toNat + 1 - digits.length) ++ ".0"
  else String.ofList (digits.take (lead.toNat + 1) ++ '.' :: digits.drop (lead.toNat + 1))

theorem allDigits_take {digits : List Char} (only : AllDigits digits) (n : ℕ) : AllDigits (digits.take n) :=
  fun c member => only c (List.mem_of_mem_take member)

theorem allDigits_drop {digits : List Char} (only : AllDigits digits) (n : ℕ) : AllDigits (digits.drop n) :=
  fun c member => only c (List.mem_of_mem_drop member)

theorem shows_layout {digits : List Char} (only : AllDigits digits) (lead : ℤ) :
    Shows (Nat.ofDigitChars 10 digits 0 * 10 ^ (lead + 1 - digits.length)) (layout digits lead).toList := by
  unfold layout
  split
  · obtain ⟨tail, text, value, marks⟩ := exponentText_spec lead
    rw [String.toList_append, text, pointAfterFirst, String.toList_ofList]
    split
    · rename_i short
      rw [String.toList_ofList]
      have shown := shows_mark only marks
      rw [value] at shown
      rcases Nat.le_one_iff_eq_zero_or_eq_one.mp short with none | one
      · have empty := List.length_eq_zero_iff.mp none
        subst empty
        simpa [Nat.ofDigitChars] using shown
      · rw [one, Nat.cast_one, add_sub_cancel_right]
        exact shown
    · rename_i long
      rw [String.toList_ofList]
      have shown := shows_point_mark (allDigits_take only 1) (allDigits_drop only 1) marks
      have exponent : lead - ((digits.drop 1).length : ℤ) = lead + 1 - digits.length := by
        rw [List.length_drop]
        omega
      rw [value, List.take_append_drop, exponent] at shown
      exact shown
  · split
    · rename_i large negative
      have shown := shows_point (show AllDigits ['0'] from allDigits_replicate 1)
        (allDigits_append (allDigits_replicate (lead.natAbs - 1)) only)
      have exponent : -((List.replicate (lead.natAbs - 1) '0' ++ digits).length : ℤ) = lead + 1 - digits.length := by
        rw [List.length_append, List.length_replicate]
        omega
      have leading : Nat.ofDigitChars 10 (['0'] ++ (List.replicate (lead.natAbs - 1) '0' ++ digits)) 0 =
          Nat.ofDigitChars 10 digits 0 := by
        rw [Nat.ofDigitChars_append, Nat.ofDigitChars_append]
        rw [Nat.ofDigitChars_replicate_zero]
        rfl
      rw [exponent, leading] at shown
      rw [String.toList_append, String.toList_append, String.toList_ofList, toList_zeros, String.toList_ofList,
        List.append_assoc]
      exact shown
    · split
      · rename_i large nonneg short
        have shown := shows_point (allDigits_append only (allDigits_replicate (lead.toNat + 1 - digits.length)))
          (show AllDigits ['0'] from allDigits_replicate 1)
        have quantity : (Nat.ofDigitChars 10 (digits ++ List.replicate (lead.toNat + 1 - digits.length) '0' ++ ['0']) 0 : ℚ) *
            10 ^ (-(['0'].length : ℤ)) = Nat.ofDigitChars 10 digits 0 * 10 ^ (lead + 1 - digits.length) := by
          have zeros : Nat.ofDigitChars 10 (digits ++ List.replicate (lead.toNat + 1 - digits.length) '0' ++ ['0']) 0 =
              10 * (10 ^ (lead.toNat + 1 - digits.length) * Nat.ofDigitChars 10 digits 0) := by
            rw [Nat.ofDigitChars_append, Nat.ofDigitChars_append, Nat.ofDigitChars_replicate_zero]
            rfl
          have exponent : lead + 1 - digits.length = ((lead.toNat + 1 - digits.length : ℕ) : ℤ) := by omega
          rw [zeros, exponent, zpow_natCast]
          push_cast
          simp only [List.length_singleton, Nat.cast_one, zpow_neg, zpow_one]
          ring
        rw [quantity] at shown
        rw [String.toList_append, String.toList_append, toList_zeros, String.toList_ofList]
        exact shown
      · rename_i large nonneg long
        have shown := shows_point (allDigits_take only (lead.toNat + 1)) (allDigits_drop only (lead.toNat + 1))
        have exponent : -((digits.drop (lead.toNat + 1)).length : ℤ) = lead + 1 - digits.length := by
          rw [List.length_drop]
          omega
        rw [List.take_append_drop, exponent] at shown
        rw [String.toList_ofList]
        exact shown

/-- The digits found for a number stand for the same quantity without the zeros at their end. -/
theorem significant_value (n : ℕ) (e : ℤ) :
    (Nat.ofDigitChars 10 (significant (toString n).toList) 0 : ℚ) *
      10 ^ (e + (toString n).length - 1 + 1 - (significant (toString n).toList).length) = n * 10 ^ e := by
  obtain ⟨count, parts⟩ := significant_spec (toString n).toList
  have length := congrArg List.length parts
  have value := congrArg (fun digits => Nat.ofDigitChars 10 digits 0) parts
  simp only [ofDigitChars_toString, Nat.ofDigitChars_append, Nat.ofDigitChars_replicate_zero] at value
  rw [List.length_append, List.length_replicate, String.length_toList] at length
  have exponent : e + (toString n).length - 1 + 1 - (significant (toString n).toList).length = e + count := by omega
  have cast : (n : ℚ) = 10 ^ count * Nat.ofDigitChars 10 (significant (toString n).toList) 0 := by exact_mod_cast value
  rw [exponent, zpow_add₀ (by norm_num), zpow_natCast, cast]
  ring

theorem allDigits_significant {digits : List Char} (only : AllDigits digits) : AllDigits (significant digits) := by
  intro c member
  obtain ⟨count, parts⟩ := significant_spec digits
  refine only c ?_
  rw [parts]
  exact List.mem_append_left _ member

theorem within_zero {d : Dyadic} (zero : d.mantissa = 0) : d.Within 0 where
  ge_low := by simp [roundingInterval, zero]
  le_high := mul_nonneg (Nat.cast_nonneg _) (Dyadic.quarter_pos _).le
  apart := by
    intro odd
    omega

theorem shortestText_zero {x : Float} {d : Dyadic} (decoded : decode x = .finite d) (zero : d.mantissa = 0) :
    (shortestText x).toList = (signText d.negative).toList ++ ['0', '.', '0'] := by
  unfold shortestText
  rw [decoded]
  dsimp only
  rw [if_pos (beq_iff_eq.mpr zero), String.toList_append]
  rfl

/-- The digits that a number is shown with. -/
def shownDigits (d : Dyadic) : List Char := significant (toString (shortest d).digits).toList

theorem shortestText_layout {x : Float} {d : Dyadic} (decoded : decode x = .finite d) (some : d.mantissa ≠ 0) :
    (shortestText x).toList = (signText d.negative).toList ++
      (layout (shownDigits d) ((shortest d).exponent + (toString (shortest d).digits).length - 1)).toList := by
  unfold shortestText
  rw [decoded]
  dsimp only
  rw [if_neg (by simpa using some), ← String.toList_append]
  simp only [layout, shownDigits, significant, String.length_ofList, String.toList_ofList]
  rfl

/-- The text of a finite number: the sign, and then a text of a quantity that rounds to the number. -/
theorem shortestText_shows {x : Float} {d : Dyadic} (decoded : decode x = .finite d) :
    ∃ v body, (shortestText x).toList = (signText d.negative).toList ++ body ∧ d.Within v ∧ Shows v body := by
  by_cases zero : d.mantissa = 0
  · have zeroDigit : AllDigits ['0'] := allDigits_replicate 1
    have shown := shows_point zeroDigit zeroDigit
    refine ⟨0, ['0', '.', '0'], shortestText_zero decoded zero, within_zero zero, ?_⟩
    simpa [Nat.ofDigitChars] using shown
  · refine ⟨(shortest d).digits * 10 ^ (shortest d).exponent, _, shortestText_layout decoded zero,
      within_shortest (normal_of_decode decoded) (Nat.pos_of_ne_zero zero), ?_⟩
    rw [← significant_value]
    exact shows_layout (allDigits_significant (allDigits_toString _)) _

theorem signText_append {negative negative' : Bool} {body body' : List Char} (unsigned : body.head? ≠ some '-')
    (unsigned' : body'.head? ≠ some '-') (same : (signText negative).toList ++ body = (signText negative').toList ++ body') :
    negative = negative' ∧ body = body' := by
  cases negative <;> cases negative'
  · exact ⟨rfl, same⟩
  · exact absurd (congrArg List.head? same) unsigned
  · exact absurd (congrArg List.head? same).symm unsigned'
  · exact ⟨rfl, (List.cons.inj same).2⟩

/-- Different finite numbers have different texts. -/
theorem eq_of_shortestText {x y : Float} {d d' : Dyadic} (decoded : decode x = .finite d) (decoded' : decode y = .finite d')
    (same : shortestText x = shortestText y) : x = y := by
  obtain ⟨v, body, text, within, shown⟩ := shortestText_shows decoded
  obtain ⟨v', body', text', within', shown'⟩ := shortestText_shows decoded'
  rw [same, text'] at text
  obtain ⟨sign, equal⟩ := signText_append shown'.unsigned shown.unsigned text
  have value : v = v' := by rw [← shown.value, ← shown'.value, equal]
  rw [← value] at within'
  have numbers := Dyadic.within_unique (normal_of_decode decoded) (normal_of_decode decoded') sign.symm within within'
  exact decode_injective (by rw [decoded, decoded', numbers])

end ProceduralScene.Number
