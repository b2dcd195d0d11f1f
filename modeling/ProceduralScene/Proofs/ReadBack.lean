import ProceduralScene.Proofs.NearestNumber
import ProceduralScene.Proofs.ShownNumber
import ProceduralScene.Proofs.Spelling

/-!
Numbers survive being shown and read: the text of a finite number is a numeral behind a sign, and the numeral is read as
the number.
-/

set_option autoImplicit false

namespace ProceduralScene.Expression

open Number

/-! ### Digits and exponents -/

theorem isDecimal_of_isDigit {c : Char} (digit : c.isDigit = true) : Text.isDecimal c = true := by
  simp [Text.isDecimal, Text.digitValue?, digit]

theorem digitsValue_digits {digits : List Char} (only : AllDigits digits) : digitsValue digits = Nat.ofDigitChars 10 digits 0 := by
  unfold digitsValue Nat.ofDigitChars
  refine List.foldl_ext _ _ 0 fun n c member => ?_
  simp [Text.digitValue?, only c member]

/-- The sign, the mark and the digits of an exponent as a number shows them. -/
inductive ShownExponent : List Char → Prop
  | none : ShownExponent []
  | some {sign : Char} {digits : List Char} (signs : sign = '+' ∨ sign = '-') (nonempty : digits ≠ [])
      (only : AllDigits digits) : ShownExponent ('e' :: sign :: digits)

theorem power_shown {exponent : List Char} (shown : ShownExponent exponent) :
    (if (exponent.drop 1).head? == some '-' then -(digitsValue ((exponent.drop 1).filter Text.isDecimal) : ℤ)
      else digitsValue ((exponent.drop 1).filter Text.isDecimal)) = exponentValue (exponent.drop 1) := by
  cases shown with
  | none => rfl
  | @some sign digits signs nonempty only =>
    have kept : digits.filter Text.isDecimal = digits :=
      List.filter_eq_self.mpr fun c member => isDecimal_of_isDigit (only c member)
    have noDigit : Text.isDecimal sign = false := by rcases signs with rfl | rfl <;> decide
    rw [List.drop_one, List.tail_cons, List.filter_cons_of_neg (by simp [noDigit]), kept, digitsValue_digits only]
    rcases signs with rfl | rfl <;> rfl

theorem decimalFloat_shown {significand exponent : List Char} (significant : ∀ c ∈ significand, c.isDigit = true ∨ c = '.')
    (shown : ShownExponent exponent) (negative : Bool) : ∃ (n : ℕ) (e : ℤ),
      decimalFloat negative (significand ++ exponent) = ofDecimal negative n e ∧
        decimalValue (significand ++ exponent) = n * 10 ^ e := by
  have inside : ∀ c ∈ significand, (c != 'e') = true ∧ (!(c == 'e' || c == 'E')) = true := by
    intro c member
    rcases significant c member with digit | rfl
    · simp [ne_of_isDigit digit (show 'e'.isDigit = false from rfl), ne_of_isDigit digit (show 'E'.isDigit = false from rfl)]
    · decide
  have stops : ∀ c ∈ exponent.head?, (c != 'e') = false ∧ (!(c == 'e' || c == 'E')) = false := by
    intro c head
    cases shown with
    | none => cases head
    | some => cases head; decide
  -- a shown number has no capital mark, so the reader of the text cuts it where the reader of its quantity does
  have taken := takeWhile_run (fun c member => (inside c member).1) fun c head => (stops c head).1
  have dropped := dropWhile_run (fun c member => (inside c member).1) fun c head => (stops c head).1
  have taken' := takeWhile_run (fun c member => (inside c member).2) fun c head => (stops c head).2
  have dropped' := dropWhile_run (fun c member => (inside c member).2) fun c head => (stops c head).2
  have filtered : significand.filter Text.isDecimal = significand.filter (· != '.') := by
    refine List.filter_congr fun c member => ?_
    rcases significant c member with digit | rfl
    · rw [isDecimal_of_isDigit digit]
      exact (bne_iff_ne.mpr (ne_of_isDigit digit rfl)).symm
    · decide
  have digits : AllDigits (significand.filter (· != '.')) := by
    intro c member
    obtain ⟨inSignificand, noPoint⟩ := List.mem_filter.mp member
    exact (significant c inSignificand).resolve_right (by simpa using noPoint)
  refine ⟨Nat.ofDigitChars 10 (significand.filter (· != '.')) 0,
    exponentValue (exponent.drop 1) - (((significand.dropWhile (· != '.')).drop 1).length : ℤ), ?_, ?_⟩
  · unfold decimalFloat
    dsimp only
    rw [taken', dropped', filtered, digitsValue_digits digits, power_shown shown]
  · unfold decimalValue
    rw [taken, dropped]

/-! ### Numerals -/

/-- A numeral as numbers are shown: ASCII digits, also behind a point if there is one, and an exponent with a sign. -/
structure Numeral.Shown (numeral : Numeral) : Prop where
  some : numeral.whole ≠ []
  whole : AllDigits numeral.whole
  fraction : ∀ digits ∈ numeral.fraction, digits ≠ [] ∧ AllDigits digits
  exponent : ShownExponent (exponentText numeral.exponent)

theorem exists_shown {whole : List Char} (some : whole ≠ []) (only : AllDigits whole) {fraction : Option (List Char)}
    (behind : ∀ digits ∈ fraction, digits ≠ [] ∧ AllDigits digits) {exponent : List Char} (shown : ShownExponent exponent) :
    ∃ numeral : Numeral, whole ++ (fractionText fraction ++ exponent) = numeral.text ∧ numeral.Shown := by
  have decimal : ∀ {digits : List Char}, AllDigits digits → ∀ c ∈ digits, Text.isDecimal c = true :=
    fun only c member => isDecimal_of_isDigit (only c member)
  have parts : ∃ found : Option Exponent, exponent = exponentText found := by
    cases shown with
    | none => exact ⟨.none, rfl⟩
    | @some sign digits signs nonempty only =>
      exact ⟨.some ⟨'e', .some sign, digits, .inl rfl, by simpa using signs, nonempty, decimal only⟩, rfl⟩
  obtain ⟨found, rfl⟩ := parts
  exact ⟨⟨whole, fraction, found, decimal only, fun digits member => decimal (behind digits member).2, .inl some⟩, rfl,
    some, only, behind, shown⟩

theorem layout_shown {digits : List Char} (only : AllDigits digits) (some : digits ≠ []) (lead : ℤ) :
    ∃ numeral : Numeral, (layout digits lead).toList = numeral.text ∧ numeral.Shown := by
  have nothing : ∀ digits ∈ (none : Option (List Char)), digits ≠ [] ∧ AllDigits digits := by simp
  have behind : ∀ {fraction : List Char}, fraction ≠ [] → AllDigits fraction →
      ∀ digits ∈ Option.some fraction, digits ≠ [] ∧ AllDigits digits := by
    intro fraction nonempty only digits member
    cases member
    exact ⟨nonempty, only⟩
  unfold layout
  split
  · -- an exponent, behind one digit or with a point behind the first of them
    obtain ⟨sign, marks, text, signs, nonempty, only', -⟩ := exponentText_parts lead
    have exponent : ShownExponent ('e' :: sign :: marks) := .some signs nonempty only'
    rw [String.toList_append, text, pointAfterFirst, String.toList_ofList]
    split
    · rw [String.toList_ofList]
      exact exists_shown some only nothing exponent
    · rename_i long
      have first : digits.take 1 ≠ [] := by simpa using some
      have more : digits.drop 1 ≠ [] := by
        rw [Ne, List.drop_eq_nil_iff]
        omega
      rw [String.toList_ofList, List.append_assoc]
      exact exists_shown first (allDigits_take only 1) (behind more (allDigits_drop only 1)) exponent
  · split
    · -- zeros behind the point
      have fraction : List.replicate (lead.natAbs - 1) '0' ++ digits ≠ [] := by simp [some]
      have shown := exists_shown (List.cons_ne_nil '0' []) (allDigits_replicate 1)
        (behind fraction (allDigits_append (allDigits_replicate _) only)) .none
      rw [String.toList_append, String.toList_append, String.toList_ofList, toList_zeros]
      simpa [fractionText] using shown
    · split
      · -- zeros before the point, and one behind it
        rename_i short
        have whole : digits ++ List.replicate (lead.toNat + 1 - digits.length) '0' ≠ [] := by simp [some]
        have shown := exists_shown whole (allDigits_append only (allDigits_replicate _))
          (behind (List.cons_ne_nil '0' []) (allDigits_replicate 1)) .none
        rw [String.toList_append, String.toList_append, toList_zeros, String.toList_ofList]
        simpa [fractionText] using shown
      · -- a point between the digits
        rename_i long
        have first : digits.take (lead.toNat + 1) ≠ [] := by simpa using some
        have more : digits.drop (lead.toNat + 1) ≠ [] := by
          rw [Ne, List.drop_eq_nil_iff]
          omega
        have shown := exists_shown first (allDigits_take only _) (behind more (allDigits_drop only _)) .none
        rw [String.toList_ofList]
        simpa [fractionText] using shown

/-! ### The text of a finite number -/

theorem shownDigits_some {d : Number.Dyadic} (normal : d.Normal) (some : d.mantissa ≠ 0) : shownDigits d ≠ [] := by
  intro none
  have within := within_shortest normal (Nat.pos_of_ne_zero some)
  rw [← significant_value, show significant (toString (shortest d).digits).toList = [] from none] at within
  exact some (mantissa_of_small normal within (by simp [Nat.ofDigitChars]))

/-- The text of a finite number is a numeral behind a sign, and the numeral stands for a quantity that rounds to it. -/
theorem shortestText_shown {x : Float} {d : Number.Dyadic} (decoded : decode x = .finite d) : ∃ numeral : Numeral,
    (shortestText x).toList = (signText d.negative).toList ++ numeral.text ∧ numeral.Shown ∧ d.Within (decimalValue numeral.text) := by
  have numeral : ∃ numeral : Numeral, (shortestText x).toList = (signText d.negative).toList ++ numeral.text ∧ numeral.Shown := by
    by_cases zero : d.mantissa = 0
    · obtain ⟨numeral, text, shown⟩ := @exists_shown ['0'] (by simp) (allDigits_replicate 1) (some ['0'])
        (by simp [AllDigits]) [] .none
      exact ⟨numeral, by rw [shortestText_zero decoded zero, ← text]; rfl, shown⟩
    · obtain ⟨numeral, text, shown⟩ := layout_shown (allDigits_significant (allDigits_toString _))
        (shownDigits_some (normal_of_decode decoded) zero) ((shortest d).exponent + (toString (shortest d).digits).length - 1)
      exact ⟨numeral, by rw [shortestText_layout decoded zero, ← text]; rfl, shown⟩
  obtain ⟨numeral, text, shown⟩ := numeral
  obtain ⟨v, body, text', within, shows⟩ := shortestText_shows decoded
  have same := List.append_cancel_left (text.symm.trans text')
  exact ⟨numeral, text, shown, by rw [same, shows.value]; exact within⟩

theorem significand_shown {numeral : Numeral} (shown : numeral.Shown) :
    ∀ c ∈ numeral.whole ++ fractionText numeral.fraction, c.isDigit = true ∨ c = '.' := by
  intro c member
  rcases List.mem_append.mp member with inWhole | inFraction
  · exact .inl (shown.whole c inWhole)
  · cases behind : numeral.fraction with
    | none =>
      rw [behind] at inFraction
      cases inFraction
    | some digits =>
      rw [behind] at inFraction
      rcases List.mem_cons.mp inFraction with point | member
      · exact .inr point
      · exact .inl ((shown.fraction digits behind).2 c member)

theorem decimalFloat_numeral {numeral : Numeral} (shown : numeral.Shown) {y : Float} {d : Number.Dyadic} (decoded : decode y = .finite d)
    (within : d.Within (decimalValue numeral.text)) : decimalFloat d.negative numeral.text = y := by
  have parts : numeral.text = numeral.whole ++ fractionText numeral.fraction ++ exponentText numeral.exponent := by
    rw [Numeral.text, List.append_assoc]
  obtain ⟨n, e, read, value⟩ := decimalFloat_shown (significand_shown shown) shown.exponent d.negative
  rw [← parts] at read value
  rw [value] at within
  rw [read, ofDecimal_within decoded within]

theorem numberFormValue_shortestText {x : Float} {d : Number.Dyadic} (decoded : decode x = .finite d) :
    numberFormValue (shortestText x).toList = x := by
  obtain ⟨numeral, text, shown, within⟩ := shortestText_shown decoded
  have read := decimalFloat_numeral shown decoded within
  rw [text]
  cases negative : d.negative with
  | true =>
    rw [negative] at read
    exact read
  | false =>
    rw [negative] at read
    obtain ⟨c, rest, whole⟩ := List.exists_cons_of_ne_nil shown.some
    have unsigned : c ≠ '-' := ne_of_isDigit (shown.whole c (by rw [whole]; exact List.mem_cons_self)) rfl
    rw [Numeral.text, whole] at read ⊢
    show numberFormValue (c :: _) = x
    rw [numberFormValue]
    · exact read
    · intro rest same
      exact unsigned (List.cons.inj same).1

end ProceduralScene.Expression
