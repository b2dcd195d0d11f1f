import ProceduralScene.Expression.Reduced

/-!
The character classes: what the binary search over a table of code points finds, that blanks are no digits, and that
digits of every script may stand in words.
-/

set_option autoImplicit false

namespace ProceduralScene.Text

/-- The points lie in ascending order. -/
def ascending : List Nat → Bool
  | a :: b :: rest => a ≤ b && ascending (b :: rest)
  | _ => true

theorem pairwise_ascending {points : List Nat} (ordered : ascending points = true) : points.Pairwise (· ≤ ·) := by
  induction points with
  | nil => exact .nil
  | cons a rest ih =>
    cases rest with
    | nil => exact List.pairwise_singleton _ _
    | cons b rest =>
      simp only [ascending, Bool.and_eq_true, decide_eq_true_eq] at ordered
      have further := ih ordered.2
      refine List.pairwise_cons.mpr ⟨fun c member => ?_, further⟩
      rcases List.mem_cons.mp member with rfl | later
      · exact ordered.1
      · exact Nat.le_trans ordered.1 ((List.pairwise_cons.mp further).1 c later)

variable {points : Array Nat}

theorem getD_of_lt {i : Nat} (within : i < points.size) : points.getD i 0 = points[i] := by
  rw [Array.getD_eq_getD_getElem?, Array.getElem?_eq_getElem within, Option.getD_some]

theorem getD_le_getD (ordered : ascending points.toList = true) {i j : Nat} (le : i ≤ j) (within : j < points.size) :
    points.getD i 0 ≤ points.getD j 0 := by
  rw [getD_of_lt (Nat.lt_of_le_of_lt le within), getD_of_lt within]
  rcases Nat.eq_or_lt_of_le le with rfl | less
  · exact Nat.le_refl _
  · exact List.pairwise_iff_getElem.mp (pairwise_ascending ordered) i j _ _ less

/-- The points before `found` lie at or below the code, and the others above it. -/
structure Separates (points : Array Nat) (code found : Nat) : Prop where
  bound : found ≤ points.size
  below : ∀ i, i < found → points.getD i 0 ≤ code
  above : ∀ i, found ≤ i → i < points.size → code < points.getD i 0

theorem separates_countUpTo (ordered : ascending points.toList = true) (code : Nat) :
    ∀ (fuel low high : Nat), low ≤ high → high ≤ points.size → high - low < Nat.pow 2 fuel →
      (∀ i, i < low → points.getD i 0 ≤ code) → (∀ i, high ≤ i → i < points.size → code < points.getD i 0) →
      Separates points code (countUpTo points code low high fuel) := by
  intro fuel
  induction fuel with
  | zero =>
    intro low high le bound small below above
    have same : low = high := by simp at small; omega
    subst same
    exact ⟨bound, below, above⟩
  | succ fuel ih =>
    intro low high le bound small below above
    rw [countUpTo]
    split
    · have same : low = high := by omega
      subst same
      exact ⟨bound, below, above⟩
    · have half : high - low < Nat.pow 2 fuel * 2 := small
      dsimp only
      split
      · rename_i more reached
        refine ih _ _ (by omega) bound (by omega) ?_ above
        intro i before
        exact Nat.le_trans (getD_le_getD ordered (by omega) (by omega)) reached
      · rename_i more passed
        refine ih _ _ (by omega) (by omega) (by omega) below ?_
        intro i after within
        exact Nat.lt_of_lt_of_le (Nat.lt_of_not_le passed) (getD_le_getD ordered after within)

theorem separates_class (ordered : ascending points.toList = true) (small : points.size < 4294967296) (code : Nat) :
    Separates points code (countUpTo points code 0 points.size 32) :=
  separates_countUpTo ordered code 32 0 points.size (Nat.zero_le _) (Nat.le_refl _) (by omega)
    (fun i before => absurd before (Nat.not_lt_zero i)) (fun i after within => absurd within (Nat.not_lt_of_le after))

theorem ascending_spacePoints : ascending spacePoints.toList = true := by decide

theorem ascending_digitZeros : ascending digitZeros.toList = true := by decide

/-- Every block of so many codes lies between two points of the table, the first of them at an even place. -/
def blocksInside (width : Nat) : List Nat → List Nat → Nat → Bool
  | _, [], _ => true
  | low :: high :: points, z :: zeros, fuel + 1 =>
    if high ≤ z then blocksInside width points (z :: zeros) fuel
    else low ≤ z && z + width ≤ high && blocksInside width (low :: high :: points) zeros fuel
  | _, _, _ => false

/-- The high code points of white space. -/
def highSpaces : List Nat :=
  [133, 160, 5760, 8192, 8193, 8194, 8195, 8196, 8197, 8198, 8199, 8200, 8201, 8202, 8232, 8233, 8239, 8287, 12288]

-- the table of words is long, so it is evaluated once for all that is used of it
theorem wordPoints_table :
    ascending wordPoints.toList = true ∧ wordPoints.size < 4294967296 ∧
      blocksInside 10 wordPoints.toList digitZeros.toList 1000 = true ∧
      blocksInside 1 wordPoints.toList.tail highSpaces 1000 = true := by
  decide +kernel

theorem ascending_wordPoints : ascending wordPoints.toList = true := wordPoints_table.1

theorem digits_inside_words : blocksInside 10 wordPoints.toList digitZeros.toList 1000 = true := wordPoints_table.2.2.1

theorem spaces_between_words : blocksInside 1 wordPoints.toList.tail highSpaces 1000 = true := wordPoints_table.2.2.2

theorem inClass_between (ordered : ascending points.toList = true) (small : points.size < 4294967296) {c : Char}
    (member : inClass points c = true) :
    ∃ i, 2 * i < points.size ∧ points.getD (2 * i) 0 ≤ c.toNat ∧
      (2 * i + 1 < points.size → c.toNat < points.getD (2 * i + 1) 0) := by
  have found := separates_class ordered small c.toNat
  rw [inClass, beq_iff_eq] at member
  have bound := found.bound
  refine ⟨countUpTo points c.toNat 0 points.size 32 / 2, by omega, found.below _ (by omega), fun within => ?_⟩
  exact found.above _ (by omega) within

theorem inClass_of_between (ordered : ascending points.toList = true) (small : points.size < 4294967296) {c : Char} {i : Nat}
    (within : 2 * i + 1 < points.size) (low : points.getD (2 * i) 0 ≤ c.toNat)
    (high : c.toNat < points.getD (2 * i + 1) 0) : inClass points c = true := by
  have found := separates_class ordered small c.toNat
  rw [inClass, beq_iff_eq]
  have after : 2 * i < countUpTo points c.toNat 0 points.size 32 := by
    refine Nat.lt_of_not_le fun le => ?_
    exact Nat.not_lt_of_le low (found.above _ le (by omega))
  have before : countUpTo points c.toNat 0 points.size 32 ≤ 2 * i + 1 := by
    refine Nat.le_of_not_lt fun less => ?_
    exact Nat.not_lt_of_le (found.below _ less) high
  omega

theorem not_inClass_of_between (ordered : ascending points.toList = true) (small : points.size < 4294967296) {c : Char}
    {i : Nat} (within : 2 * i + 2 < points.size) (low : points.getD (2 * i + 1) 0 ≤ c.toNat)
    (high : c.toNat < points.getD (2 * i + 2) 0) : inClass points c = false := by
  have found := separates_class ordered small c.toNat
  have after : 2 * i + 1 < countUpTo points c.toNat 0 points.size 32 := by
    refine Nat.lt_of_not_le fun le => ?_
    exact Nat.not_lt_of_le low (found.above _ le (by omega))
  have before : countUpTo points c.toNat 0 points.size 32 ≤ 2 * i + 2 := by
    refine Nat.le_of_not_lt fun less => ?_
    exact Nat.not_lt_of_le (found.below _ less) high
  rw [inClass, beq_eq_false_iff_ne]
  omega

/-! ### Digits -/

theorem digit_block {c : Char} (decimal : isDecimal c = true) (high : 128 ≤ c.toNat) :
    ∃ z ∈ digitZeros.toList, z ≤ c.toNat ∧ c.toNat < z + 10 := by
  have noDigit : c.isDigit = false := by
    rw [Char.isDigit, Bool.and_eq_false_iff, decide_eq_false_iff_not, decide_eq_false_iff_not]
    refine .inr fun le => ?_
    have small : c.toNat ≤ 57 := UInt32.le_iff_toNat_le.mp le
    omega
  rw [isDecimal, digitValue?, noDigit, if_neg Bool.false_ne_true, if_neg (by omega)] at decimal
  dsimp only at decimal
  split at decimal
  · rename_i inside
    rw [Bool.and_eq_true, decide_eq_true_eq, decide_eq_true_eq] at inside
    have found := separates_class ascending_digitZeros (by decide) c.toNat
    have bound := found.bound
    refine ⟨_, ?_, found.below (countUpTo digitZeros c.toNat 0 digitZeros.size 32 - 1) (by omega), inside.2⟩
    rw [getD_of_lt (by omega)]
    exact Array.getElem_mem_toList _
  · cases decimal

theorem block_inside {width : Nat} : ∀ (fuel : Nat) (points zeros : List Nat),
    blocksInside width points zeros fuel = true →
    ∀ z ∈ zeros, ∃ i, ∃ within : 2 * i + 1 < points.length,
      points[2 * i] ≤ z ∧ z + width ≤ points[2 * i + 1] := by
  intro fuel
  induction fuel with
  | zero =>
    intro points zeros inside z member
    cases zeros with
    | nil => cases member
    | cons first rest => cases points with
      | nil => cases inside
      | cons low points => cases points <;> cases inside
  | succ fuel ih =>
    intro points zeros inside z member
    cases zeros with
    | nil => cases member
    | cons first rest =>
      cases points with
      | nil => cases inside
      | cons low points =>
        cases points with
        | nil => cases inside
        | cons high points =>
          rw [blocksInside] at inside
          split at inside
          · obtain ⟨i, within, found⟩ := ih _ _ inside z member
            exact ⟨i + 1, by simp only [List.length_cons]; omega, by simpa [Nat.mul_add] using found⟩
          · simp only [Bool.and_eq_true, decide_eq_true_eq] at inside
            rcases List.mem_cons.mp member with rfl | later
            · exact ⟨0, by simp, inside.1⟩
            · exact ih _ _ inside.2 z later

theorem isWord_of_isDecimal {c : Char} (decimal : isDecimal c = true) : isWord c = true := by
  rw [isWord]
  split
  · rename_i low
    rw [isDecimal, digitValue?] at decimal
    split at decimal
    · rename_i digit
      rw [Char.isAlphanum, digit, Bool.or_true, Bool.true_or]
    · cases decimal
  · rename_i high
    obtain ⟨z, member, above, below⟩ := digit_block decimal (by omega)
    obtain ⟨i, within, start, stop⟩ := block_inside _ _ _ digits_inside_words z member
    rw [Array.length_toList] at within
    rw [Array.getElem_toList] at start stop
    refine inClass_of_between ascending_wordPoints wordPoints_table.2.1 within ?_ ?_
    · rw [getD_of_lt (by omega)]
      omega
    · rw [getD_of_lt within]
      omega

/-! ### Blanks -/

theorem no_blank_in_blocks : ∀ z ∈ digitZeros.toList, ∀ i < 10,
    spacePoints.getD (2 * i + 1) 0 ≤ z ∨ z + 10 ≤ spacePoints.getD (2 * i) 0 := by decide

theorem not_isDecimal_of_isSpace {c : Char} (space : isSpace c = true) : isDecimal c = false := by
  rw [isSpace] at space
  split at space
  · rename_i low
    have noDigit : c.isDigit = false := by
      rw [Char.isDigit, Bool.and_eq_false_iff, decide_eq_false_iff_not, decide_eq_false_iff_not]
      simp only [Bool.or_eq_true, beq_iff_eq, Bool.and_eq_true, decide_eq_true_eq] at space
      refine .inl fun le => ?_
      have large : 48 ≤ c.toNat := UInt32.le_iff_toNat_le.mp le
      rcases space with (rfl | range) | range
      · contradiction
      · omega
      · omega
    rw [isDecimal, digitValue?, noDigit, if_neg Bool.false_ne_true, if_pos low]
    rfl
  · rename_i high
    obtain ⟨i, within, start, stop⟩ := inClass_between ascending_spacePoints (by decide) space
    have few : 2 * i < 20 := within
    refine Bool.eq_false_iff.mpr fun decimal => ?_
    obtain ⟨z, member, above, below⟩ := digit_block decimal (by omega)
    have next := stop (show 2 * i + 1 < 20 by omega)
    rcases no_blank_in_blocks z member i (by omega) with before | after
    · omega
    · omega

theorem toNat_of_isSpace {c : Char} (space : isSpace c = true) :
    c.toNat ≤ 32 ∨ 128 ≤ c.toNat := by
  rw [isSpace] at space
  split at space
  · simp only [Bool.or_eq_true, beq_iff_eq, Bool.and_eq_true, decide_eq_true_eq] at space
    rcases space with (rfl | range) | range
    · exact .inl (by decide)
    · exact .inl (by omega)
    · exact .inl (by omega)
  · exact .inr (by omega)

end ProceduralScene.Text

namespace ProceduralScene.Expression

/-! ### Characters of plain text -/

theorem isDigit_iff {c : Char} : c.isDigit = true ↔ 48 ≤ c.toNat ∧ c.toNat ≤ 57 := by
  show (decide (c.val ≥ 48) && decide (c.val ≤ 57)) = true ↔ _
  simp only [Bool.and_eq_true, decide_eq_true_eq, ge_iff_le, UInt32.le_iff_toNat_le]
  exact Iff.rfl

theorem isAlpha_iff {c : Char} :
    c.isAlpha = true ↔ 65 ≤ c.toNat ∧ c.toNat ≤ 90 ∨ 97 ≤ c.toNat ∧ c.toNat ≤ 122 := by
  delta Char.isAlpha Char.isUpper Char.isLower
  simp only [Bool.or_eq_true, Bool.and_eq_true, decide_eq_true_eq, ge_iff_le, UInt32.le_iff_toNat_le]
  exact Iff.rfl

theorem isAlphanum_iff {c : Char} : c.isAlphanum = true ↔
    (65 ≤ c.toNat ∧ c.toNat ≤ 90 ∨ 97 ≤ c.toNat ∧ c.toNat ≤ 122) ∨ 48 ≤ c.toNat ∧ c.toNat ≤ 57 := by
  rw [Char.isAlphanum, Bool.or_eq_true, isAlpha_iff, isDigit_iff]

theorem isDecimal_ascii {c : Char} (low : c.toNat < 128) : Text.isDecimal c = c.isDigit := by
  rw [Text.isDecimal, Text.digitValue?]
  split
  · rename_i digit
    rw [digit]
    rfl
  · rename_i noDigit
    exact (Bool.eq_false_iff.mpr noDigit).symm

theorem isWord_of_isAlphanum {c : Char} (letter : c.isAlphanum = true) : Text.isWord c = true := by
  have range := isAlphanum_iff.mp letter
  rw [Text.isWord, if_pos (by omega), letter, Bool.true_or]

theorem isNameChar_of_isNameStart {c : Char} (start : isNameStart c = true) : isNameChar c = true := by
  rw [isNameStart, Bool.or_eq_true] at start
  rw [isNameChar, Bool.or_eq_true, Char.isAlphanum, Bool.or_eq_true]
  exact start.imp_left .inl

theorem toNat_of_isNameChar {c : Char} (char : isNameChar c = true) : 48 ≤ c.toNat ∧ c.toNat ≤ 122 := by
  rw [isNameChar, Bool.or_eq_true, beq_iff_eq] at char
  rcases char with letter | rfl
  · have range := isAlphanum_iff.mp letter
    omega
  · decide

theorem toNat_of_isNameStart {c : Char} (start : isNameStart c = true) : 65 ≤ c.toNat ∧ c.toNat ≤ 122 := by
  rw [isNameStart, Bool.or_eq_true, beq_iff_eq] at start
  rcases start with letter | rfl
  · have range := isAlpha_iff.mp letter
    omega
  · decide

theorem isWord_of_isNameChar {c : Char} (char : isNameChar c = true) : Text.isWord c = true := by
  rw [isNameChar, Bool.or_eq_true, beq_iff_eq] at char
  rcases char with letter | rfl
  · exact isWord_of_isAlphanum letter
  · decide

theorem isAlphanum_of_isHexDigit {c : Char} (hex : isHexDigit c = true) : c.isAlphanum = true := by
  simp only [isHexDigit, Bool.or_eq_true, Bool.and_eq_true, decide_eq_true_eq, isDigit_iff, Char.le_def,
    UInt32.le_iff_toNat_le] at hex
  change ((48 ≤ c.toNat ∧ c.toNat ≤ 57) ∨ (97 ≤ c.toNat ∧ c.toNat ≤ 102)) ∨ (65 ≤ c.toNat ∧ c.toNat ≤ 70) at hex
  rw [isAlphanum_iff]
  omega

theorem isNameStart_begins {c : Char} (start : isNameStart c = true) :
    Text.isDecimal c = false ∧ c ≠ '.' ∧ isQuote c = false := by
  have range := toNat_of_isNameStart start
  refine ⟨?_, ?_, ?_⟩
  · refine Bool.eq_false_iff.mpr fun decimal => ?_
    rw [isDecimal_ascii (by omega)] at decimal
    have digit := isDigit_iff.mp decimal
    omega
  · rintro rfl
    exact absurd range (by decide)
  · refine Bool.eq_false_iff.mpr fun quote => ?_
    simp only [isQuote, Bool.or_eq_true, beq_iff_eq] at quote
    rcases quote with rfl | rfl <;> exact absurd range (by decide)

/-- A blank is outside the printing characters of plain text. -/
theorem ne_of_isSpace {c d : Char} (space : Text.isSpace c = true) (printing : 33 ≤ d.toNat ∧ d.toNat < 128) : c ≠ d := by
  rintro rfl
  rcases Text.toNat_of_isSpace space with low | high
  · omega
  · omega

theorem isNameChar_of_isSpace {c : Char} (space : Text.isSpace c = true) : isNameChar c = false := by
  refine Bool.eq_false_iff.mpr fun char => ?_
  have range := toNat_of_isNameChar char
  exact ne_of_isSpace space (by omega) rfl

theorem isHexDigit_of_isSpace {c : Char} (space : Text.isSpace c = true) : isHexDigit c = false := by
  refine Bool.eq_false_iff.mpr fun hex => ?_
  have range := isAlphanum_iff.mp (isAlphanum_of_isHexDigit hex)
  exact ne_of_isSpace space (by omega) rfl

end ProceduralScene.Expression
