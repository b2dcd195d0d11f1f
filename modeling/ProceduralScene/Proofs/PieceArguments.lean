import ProceduralScene.Proofs.PieceTexts

/-!
The arguments of a call as pieces: they are cut at the commas outside brackets, and lose the blanks around them.
-/

set_option autoImplicit false

namespace ProceduralScene.Expression

namespace Pieces

def isNil : Pieces → Bool
  | .nil => true
  | _ => false

def commaFree : Pieces → Bool
  | .nil => true
  | .mark c rest => c != ',' && commaFree rest
  | .run _ rest | .value _ rest | .literal _ _ rest | .brackets _ _ rest => commaFree rest

/-- The pieces before the first comma, and those between the others. -/
def parts : Pieces → Pieces × List Pieces
  | .nil => (.nil, [])
  | .mark c rest => if c = ',' then (.nil, (parts rest).1 :: (parts rest).2) else (.mark c (parts rest).1, (parts rest).2)
  | .run cs rest => (.run cs (parts rest).1, (parts rest).2)
  | .value v rest => (.value v (parts rest).1, (parts rest).2)
  | .literal quote content rest => (.literal quote content (parts rest).1, (parts rest).2)
  | .brackets round inside rest => (.brackets round inside (parts rest).1, (parts rest).2)

def dropBlanks : Pieces → Pieces
  | .mark c rest => if Text.isSpace c then dropBlanks rest else .mark c rest
  | pieces => pieces

def trimEnd : Pieces → Pieces
  | .nil => .nil
  | .mark c rest => if Text.isSpace c && (trimEnd rest).isNil then .nil else .mark c (trimEnd rest)
  | .run cs rest => .run cs (trimEnd rest)
  | .value v rest => .value v (trimEnd rest)
  | .literal quote content rest => .literal quote content (trimEnd rest)
  | .brackets round inside rest => .brackets round inside (trimEnd rest)

def trim (pieces : Pieces) : Pieces := pieces.dropBlanks.trimEnd

def withoutEmptyLast : Pieces → List Pieces → List Pieces
  | last, [] => if last.isNil then [] else [last]
  | first, next :: others => first :: withoutEmptyLast next others

/-- The trimmed arguments; an empty last one is dropped. -/
def arguments (pieces : Pieces) : List Pieces :=
  withoutEmptyLast pieces.parts.1.trim (pieces.parts.2.map trim)

end Pieces

/-! ### Trimming -/

def dropEnd (text : List Char) : List Char := (text.reverse.dropWhile Text.isSpace).reverse

theorem trim_eq (text : List Char) : Text.trim text = dropEnd (text.dropWhile Text.isSpace) := rfl

theorem dropEnd_cons (c : Char) (text : List Char) : dropEnd (c :: text) =
    if Text.isSpace c && (dropEnd text).isEmpty then [] else c :: dropEnd text := by
  unfold dropEnd
  rw [List.reverse_cons, List.dropWhile_append, List.isEmpty_reverse]
  cases (text.reverse.dropWhile Text.isSpace) with
  | nil => cases space : Text.isSpace c <;> simp [List.dropWhile, space]
  | cons d more => simp

theorem dropEnd_solid {cs : List Char} (nonempty : cs ≠ []) (solid : ∀ c ∈ cs.getLast?, Text.isSpace c = false)
    (text : List Char) : dropEnd (cs ++ text) = cs ++ dropEnd text := by
  induction cs with
  | nil => exact absurd rfl nonempty
  | cons c cs ih =>
    rw [List.cons_append, dropEnd_cons]
    cases cs with
    | nil => simp [solid c rfl]
    | cons d cs =>
      rw [ih (List.cons_ne_nil _ _) fun e last => solid e (by rw [List.getLast?_cons_cons]; exact last)]
      simp

theorem dropEnd_split (text : List Char) : ∃ after, (∀ c ∈ after, Text.isSpace c = true) ∧ text = dropEnd text ++ after := by
  refine ⟨(text.reverse.takeWhile Text.isSpace).reverse, fun c member => ?_, ?_⟩
  · exact List.all_eq_true.mp List.all_takeWhile c (List.mem_reverse.mp member)
  · rw [dropEnd, ← List.reverse_append, List.takeWhile_append_dropWhile, List.reverse_reverse]

/-- A text is its trimmed text between blanks, and the trimmed text ends with none. -/
theorem trim_split (text : List Char) : ∃ before after, (∀ c ∈ before, Text.isSpace c = true) ∧
    (∀ c ∈ after, Text.isSpace c = true) ∧ text = before ++ (Text.trim text ++ after) ∧
    ∀ c ∈ (Text.trim text).getLast?, Text.isSpace c = false := by
  obtain ⟨after, blank, same⟩ := dropEnd_split (text.dropWhile Text.isSpace)
  refine ⟨text.takeWhile Text.isSpace, after, fun c => List.all_eq_true.mp List.all_takeWhile c, blank, ?_, fun c last => ?_⟩
  · rw [trim_eq, ← same, List.takeWhile_append_dropWhile]
  · rw [trim_eq, dropEnd, List.getLast?_reverse] at last
    have stops := List.head?_dropWhile_not Text.isSpace (text.dropWhile Text.isSpace).reverse
    rw [last] at stops
    simpa using stops

namespace Pieces

variable {slots : Bindings} {named : Bool} {pieces : Pieces} {text : List Char}

theorem writes_nil (writes : Writes slots .nil text) : text = [] := by
  cases writes
  rfl

theorem isNil_writes (writes : Writes slots pieces text) : pieces.isNil = text.isEmpty := by
  cases writes with
  | run nonempty _ => simp [isNil, nonempty]
  | value i _ _ => simp [isNil, slotName_toList, slotMark]
  | _ => rfl

theorem writes_dropBlanks (writes : Writes slots pieces text) : ∀ {edge : Edge} {callee : Callee} {found : Argument},
    orderly named edge callee found pieces = true → Writes slots pieces.dropBlanks (text.dropWhile Text.isSpace) := by
  induction writes with
  | nil => exact fun _ => .nil
  | @mark c rest text further ih =>
    intro edge callee found fits
    obtain ⟨-, -, -, fits⟩ := orderly_mark.mp fits
    rw [dropBlanks, List.dropWhile_cons]
    split
    · exact ih fits
    · exact .mark further
  | @run cs _ _ nonempty further _ =>
    intro edge callee found fits
    obtain ⟨-, -, wordy, -, -⟩ := orderly_run.mp fits
    obtain ⟨c, cs, rfl⟩ := List.exists_cons_of_ne_nil nonempty
    rw [List.cons_append, List.dropWhile_cons_of_neg (by simp [isSpace_word (wordy c List.mem_cons_self)])]
    exact .run nonempty further
  | value i kept further _ =>
    intro edge callee found fits
    obtain ⟨c, cs, same⟩ : ∃ c cs, (slotName i).toList = c :: cs := ⟨_, _, slotName_toList i⟩
    have wordy := slotName_wordy i c (by rw [same]; exact List.mem_cons_self)
    have stays := Writes.value i kept further
    rw [same, List.cons_append] at stays ⊢
    rwa [List.dropWhile_cons_of_neg (by simp [isSpace_word wordy])]
  | literal further _ =>
    intro edge callee found fits
    obtain ⟨quoting, -, -⟩ := orderly_literal.mp fits
    rw [List.dropWhile_cons_of_neg (by simp [isSpace_quote quoting])]
    exact .literal further
  | @brackets round _ _ _ _ inside further _ _ =>
    intro edge callee found fits
    rw [List.dropWhile_cons_of_neg (by simp [isSpace_opening])]
    exact .brackets inside further

theorem writes_trimEnd (writes : Writes slots pieces text) : ∀ {edge : Edge} {callee : Callee} {found : Argument},
    orderly named edge callee found pieces = true → Writes slots pieces.trimEnd (dropEnd text) := by
  induction writes with
  | nil => exact fun _ => .nil
  | @mark c rest text _ ih =>
    intro edge callee found fits
    obtain ⟨-, -, -, fits⟩ := orderly_mark.mp fits
    have further := ih fits
    rw [trimEnd, dropEnd_cons, isNil_writes further]
    split
    · exact .nil
    · exact .mark further
  | @run cs _ _ nonempty _ ih =>
    intro edge callee found fits
    obtain ⟨-, -, wordy, -, fits⟩ := orderly_run.mp fits
    rw [dropEnd_solid nonempty fun c last => isSpace_word (wordy c (List.mem_of_getLast? last))]
    exact .run nonempty (ih fits)
  | value i kept _ ih =>
    intro edge callee found fits
    obtain ⟨-, -, fits⟩ := orderly_value.mp fits
    have nonempty : (slotName i).toList ≠ [] := by simp [slotName_toList, slotMark]
    rw [dropEnd_solid nonempty fun c last => isSpace_word (slotName_wordy i c (List.mem_of_getLast? last))]
    exact .value i kept (ih fits)
  | @literal quote content _ text _ ih =>
    intro edge callee found fits
    obtain ⟨quoting, -, fits⟩ := orderly_literal.mp fits
    have split : quote :: (content ++ quote :: text) = (quote :: (content ++ [quote])) ++ text := by simp
    have last : (quote :: (content ++ [quote])).getLast? = some quote := by
      rw [← List.cons_append, List.getLast?_concat]
    rw [split, dropEnd_solid (List.cons_ne_nil _ _) fun c same => by
      rw [last] at same
      cases same
      exact isSpace_quote quoting]
    have further : Writes slots (.literal quote content _) _ := .literal (ih fits)
    simpa [trimEnd] using further
  | @brackets round _ _ text after inside _ _ ih =>
    intro edge callee found fits
    obtain ⟨-, fits⟩ := orderly_brackets.mp fits
    have split : opening round :: (text ++ closing round :: after) = (opening round :: (text ++ [closing round])) ++ after := by
      simp
    have last : (opening round :: (text ++ [closing round])).getLast? = some (closing round) := by
      rw [← List.cons_append, List.getLast?_concat]
    rw [split, dropEnd_solid (List.cons_ne_nil _ _) fun c same => by
      rw [last] at same
      cases same
      exact isSpace_closing round]
    have further : Writes slots (.brackets round _ _) _ := .brackets inside (ih fits)
    simpa [trimEnd] using further

/-! ### Orderly arguments -/

theorem startsName_trimEnd (pieces : Pieces) : pieces.trimEnd.startsName = pieces.startsName ∧
    pieces.trimEnd.namesWhole = pieces.namesWhole := by
  cases pieces with
  | mark c rest =>
    rw [trimEnd]
    split <;> exact ⟨rfl, rfl⟩
  | run cs rest => cases cs <;> exact ⟨rfl, rfl⟩
  | _ => exact ⟨rfl, rfl⟩

theorem startsName_parts (pieces : Pieces) : pieces.parts.1.startsName = pieces.startsName ∧
    pieces.parts.1.namesWhole = pieces.namesWhole := by
  cases pieces with
  | mark c rest =>
    rw [parts]
    split <;> exact ⟨rfl, rfl⟩
  | run cs rest => cases cs <;> exact ⟨rfl, rfl⟩
  | _ => exact ⟨rfl, rfl⟩

theorem after_space (found : Argument) {c : Char} (space : Text.isSpace c = true) : found.after c = found := by
  have noComma : c ≠ ',' := ne_of_isSpace space (by decide)
  cases found <;> simp [Argument.after, noComma, space]

theorem behind_space {c : Char} (space : Text.isSpace c = true) : Edge.behind (some c) = .plain := by
  have noPoint : c ≠ '.' := ne_of_isSpace space (by decide)
  have noDollar : c ≠ '$' := ne_of_isSpace space (by decide)
  simp [Edge.behind, Text.isWord_of_isSpace space, noPoint, noDollar]

/-- Where nothing but blanks is left, the argument may end. -/
theorem complete_of_blank {edge : Edge} {callee : Callee} {found : Argument}
    (fits : orderly named edge callee found pieces = true) (blank : pieces.trimEnd.isNil = true) :
    found.complete = true := by
  induction pieces generalizing edge callee found with
  | nil => exact fits
  | mark c rest ih =>
    rw [trimEnd] at blank
    split at blank
    · rename_i both
      rw [Bool.and_eq_true] at both
      obtain ⟨-, -, -, fits⟩ := orderly_mark.mp fits
      rw [after_space found both.1] at fits
      exact ih fits both.2
    · cases blank
  | _ => cases blank

theorem orderly_trimEnd {edge : Edge} {callee : Callee} {found : Argument}
    (fits : orderly named edge callee found pieces = true) :
    orderly named edge callee found pieces.trimEnd = true := by
  induction pieces generalizing edge callee found with
  | nil => exact fits
  | mark c rest ih =>
    obtain ⟨mark, comma, name, further⟩ := orderly_mark.mp fits
    obtain ⟨starts, whole⟩ := startsName_trimEnd rest
    rw [trimEnd]
    split
    · rename_i both
      rw [Bool.and_eq_true] at both
      rw [after_space found both.1] at further
      exact complete_of_blank further both.2
    · exact orderly_mark.mpr ⟨mark, comma, by rw [starts, whole]; exact name, ih further⟩
  | run cs rest ih =>
    obtain ⟨noWord, nonempty, wordy, free, further⟩ := orderly_run.mp fits
    exact orderly_run.mpr ⟨noWord, nonempty, wordy, free, ih further⟩
  | value v rest ih =>
    obtain ⟨noWord, noDollar, further⟩ := orderly_value.mp fits
    exact orderly_value.mpr ⟨noWord, noDollar, ih further⟩
  | literal quote content rest ih =>
    obtain ⟨quoting, free, further⟩ := orderly_literal.mp fits
    exact orderly_literal.mpr ⟨quoting, free, ih further⟩
  | brackets round inside rest _ ih =>
    obtain ⟨within, further⟩ := orderly_brackets.mp fits
    exact orderly_brackets.mpr ⟨within, ih further⟩

theorem orderly_dropBlanks {found : Argument} (fits : orderly named .plain .none found pieces = true) :
    orderly named .plain .none found pieces.dropBlanks = true := by
  induction pieces with
  | mark c rest ih =>
    rw [dropBlanks]
    split
    · rename_i space
      obtain ⟨-, -, -, further⟩ := orderly_mark.mp fits
      rw [behind_space space, after_space found space, Callee.none_after] at further
      exact ih further
    · exact fits
  | _ => exact fits

theorem orderly_trim {found : Argument} (fits : orderly named .plain .none found pieces = true) :
    orderly named .plain .none found pieces.trim = true := orderly_trimEnd (orderly_dropBlanks fits)

theorem writes_trim (writes : Writes slots pieces text) {found : Argument}
    (fits : orderly named .plain .none found pieces = true) : Writes slots pieces.trim (Text.trim text) :=
  writes_trimEnd (writes_dropBlanks writes fits) (orderly_dropBlanks fits)

/-- The parts of orderly pieces are orderly, each from the start of an argument. -/
theorem orderly_parts {edge : Edge} {callee : Callee} {found : Argument}
    (fits : orderly named edge callee found pieces = true) :
    orderly named edge callee found pieces.parts.1 = true ∧ pieces.parts.1.commaFree = true ∧
      ∀ part ∈ pieces.parts.2, orderly named .plain .none (found.after ',') part = true ∧ part.commaFree = true := by
  -- behind a comma nothing was read of the next argument, whatever was read of this one
  have next : ∀ found : Argument, found.next.after ',' = found.after ',' := by
    intro found
    cases found <;> rfl
  induction pieces generalizing edge callee found with
  | nil => exact ⟨fits, rfl, fun _ member => nomatch member⟩
  | mark c rest ih =>
    obtain ⟨mark, comma, name, further⟩ := orderly_mark.mp fits
    rw [parts]
    split
    · rename_i same
      subst same
      rw [show Edge.behind (some ',') = .plain by decide, show callee.after ',' = .none by cases callee <;> rfl] at further
      obtain ⟨first, free, others⟩ := ih further
      rw [show (found.after ',').after ',' = found.after ',' by cases found <;> rfl] at others
      refine ⟨comma rfl, rfl, fun part member => ?_⟩
      rcases List.mem_cons.mp member with rfl | member
      · exact ⟨first, free⟩
      · exact others part member
    · rename_i other
      have after : (found.after c).after ',' = found.after ',' := by
        cases space : Text.isSpace c
        · cases found <;> simp [Argument.after, other, space, Argument.next]
        · rw [after_space found space]
      obtain ⟨first, free, others⟩ := ih further
      rw [after] at others
      obtain ⟨starts, whole⟩ := startsName_parts rest
      refine ⟨orderly_mark.mpr ⟨mark, comma, by rw [starts, whole]; exact name, first⟩, ?_, others⟩
      simp [commaFree, other, free]
  | run cs rest ih =>
    obtain ⟨noWord, nonempty, wordy, clear, further⟩ := orderly_run.mp fits
    obtain ⟨first, free, others⟩ := ih further
    rw [next] at others
    exact ⟨orderly_run.mpr ⟨noWord, nonempty, wordy, clear, first⟩, free, others⟩
  | value v rest ih =>
    obtain ⟨noWord, noDollar, further⟩ := orderly_value.mp fits
    obtain ⟨first, free, others⟩ := ih further
    rw [next] at others
    exact ⟨orderly_value.mpr ⟨noWord, noDollar, first⟩, free, others⟩
  | literal quote content rest ih =>
    obtain ⟨quoting, clear, further⟩ := orderly_literal.mp fits
    obtain ⟨first, free, others⟩ := ih further
    rw [show (found.literal quote).after ',' = found.after ',' by cases found <;> rfl] at others
    exact ⟨orderly_literal.mpr ⟨quoting, clear, first⟩, free, others⟩
  | brackets round inside rest _ ih =>
    obtain ⟨within, further⟩ := orderly_brackets.mp fits
    obtain ⟨first, free, others⟩ := ih further
    rw [next] at others
    exact ⟨orderly_brackets.mpr ⟨within, first⟩, free, others⟩

theorem commaFree_trimEnd (free : pieces.commaFree = true) : pieces.trimEnd.commaFree = true := by
  induction pieces with
  | nil => rfl
  | mark c rest ih =>
    rw [commaFree, Bool.and_eq_true] at free
    rw [trimEnd]
    split
    · rfl
    · rw [commaFree, free.1, ih free.2]
      rfl
  | run cs rest ih | value v rest ih | literal quote content rest ih => exact ih free
  | brackets round inside rest _ ih => exact ih free

theorem commaFree_dropBlanks (free : pieces.commaFree = true) : pieces.dropBlanks.commaFree = true := by
  induction pieces with
  | mark c rest ih =>
    rw [dropBlanks]
    split
    · rw [commaFree, Bool.and_eq_true] at free
      exact ih free.2
    · exact free
  | _ => exact free

/-- A part that can be passed: orderly from its start, without a comma of its own. -/
structure Passed (named : Bool) (start : Argument) (part : Pieces) : Prop where
  orderly : part.orderly named .plain .none start = true
  commaFree : part.commaFree = true

theorem passed_trim {start : Argument} (passed : Passed named start pieces) : Passed named start pieces.trim :=
  ⟨orderly_trim passed.orderly, commaFree_trimEnd (commaFree_dropBlanks passed.commaFree)⟩

theorem withoutEmptyLast_subset (others : List Pieces) : ∀ first, withoutEmptyLast first others ⊆ first :: others := by
  induction others with
  | nil =>
    intro first
    rw [withoutEmptyLast]
    split
    · exact List.nil_subset _
    · exact fun _ member => member
  | cons next others ih =>
    intro first argument member
    rw [withoutEmptyLast, List.mem_cons] at member
    rcases member with rfl | member
    · exact List.mem_cons_self
    · exact List.mem_cons_of_mem _ (ih next member)

theorem passed_arguments {start : Argument} (starts : start.after ',' = start)
    (fits : orderly named .plain .none start pieces = true) : ∀ argument ∈ pieces.arguments, Passed named start argument := by
  intro argument member
  obtain ⟨first, free, others⟩ := orderly_parts fits
  rw [starts] at others
  rcases List.mem_cons.mp (withoutEmptyLast_subset _ _ member) with rfl | member
  · exact passed_trim ⟨first, free⟩
  · obtain ⟨part, found, rfl⟩ := List.mem_map.mp member
    exact passed_trim ⟨(others part found).1, (others part found).2⟩

end Pieces

/-! ### The texts of arguments -/

theorem splitArgsFrom_quiet {cs : List Char} (quiet : ∀ c ∈ cs, Quiet c) {depth : Int} (noCut : depth ≠ 0 ∨ ',' ∉ cs) :
    ∀ current tail : List Char,
      splitArgsFrom none depth current (cs ++ tail) = splitArgsFrom none depth (cs.reverse ++ current) tail := by
  induction cs with
  | nil => exact fun _ _ => rfl
  | cons c cs ih =>
    intro current tail
    have this := quiet c List.mem_cons_self
    have noComma : (c == ',' && depth == 0) = false := by
      rcases noCut with deep | free
      · simp [deep]
      · have other : c ≠ ',' := fun same => free (same ▸ List.mem_cons_self)
        simp [other]
    have further := ih (fun d member => quiet d (List.mem_cons_of_mem c member))
      (noCut.imp_right fun free member => free (List.mem_cons_of_mem c member)) (c :: current) tail
    have level : bracketStep depth c = depth := by
      simp [bracketStep, this.opens, this.closes, this.opensList, this.closesList]
    rw [List.cons_append, splitArgsFrom]
    simp only [Option.isSome_none, Bool.false_eq_true, if_false, noComma, stepQuote_quiet this, level, further,
      List.reverse_cons, List.append_assoc, List.singleton_append]

theorem splitArgsFrom_one {c : Char} (quiet : Quiet c) {depth : Int} (noCut : depth ≠ 0 ∨ c ≠ ',')
    (current tail : List Char) : splitArgsFrom none depth current (c :: tail) = splitArgsFrom none depth (c :: current) tail :=
  @splitArgsFrom_quiet [c] (by simpa using quiet) depth (noCut.imp_right fun other => by simpa using other.symm) current tail

theorem splitArgsFrom_literal {quote : Char} (quoting : isQuote quote = true) {content : List Char}
    (free : quote ∉ content) (depth : Int) (current tail : List Char) :
    splitArgsFrom none depth current (quote :: (content ++ quote :: tail)) =
      splitArgsFrom none depth ((quote :: (content ++ [quote])).reverse ++ current) tail := by
  have within : ∀ (content current : List Char), quote ∉ content →
      splitArgsFrom (some quote) depth current (content ++ quote :: tail) =
        splitArgsFrom none depth (quote :: (content.reverse ++ current)) tail := by
    intro content
    induction content with
    | nil => exact fun current _ => by simp [splitArgsFrom, stepQuote]
    | cons c content ih =>
      intro current free
      have other : c ≠ quote := fun equal => free (equal ▸ List.mem_cons_self)
      have further := ih (c :: current) fun member => free (List.mem_cons_of_mem c member)
      rw [List.cons_append, splitArgsFrom]
      simp only [Option.isSome_some, if_true, stepQuote, beq_iff_eq, other, if_false, further, List.reverse_cons,
        List.append_assoc, List.singleton_append]
  have noComma : quote ≠ ',' := by
    rintro rfl
    cases quoting
  have level : bracketStep depth quote = depth := by
    simp only [isQuote, Bool.or_eq_true, beq_iff_eq] at quoting
    rcases quoting with rfl | rfl <;> simp [bracketStep]
  rw [splitArgsFrom]
  simp only [Option.isSome_none, Bool.false_eq_true, if_false, Bool.false_and, stepQuote, quoting, if_true, level,
    within content _ free, show (quote == ',') = false by simp [noComma]]
  simp

theorem splitArgsFrom_opening (round : Bool) (depth : Int) (current tail : List Char) :
    splitArgsFrom none depth current (opening round :: tail) =
      splitArgsFrom none (depth + 1) (opening round :: current) tail := by
  cases round <;> simp [splitArgsFrom, opening, bracketStep, stepQuote, isQuote]

theorem splitArgsFrom_closing (round : Bool) (depth : Int) (current tail : List Char) :
    splitArgsFrom none depth current (closing round :: tail) =
      splitArgsFrom none (depth - 1) (closing round :: current) tail := by
  cases round <;> simp [splitArgsFrom, closing, bracketStep, stepQuote, isQuote]

def argumentTexts : List Char → List (List Char) → List (List Char)
  | last, [] => if (Text.trim last).isEmpty then [] else [Text.trim last]
  | first, next :: others => Text.trim first :: argumentTexts next others

namespace Pieces

variable {slots : Bindings} {named : Bool} {pieces : Pieces} {text : List Char}

/-- Within brackets no comma ends an argument. -/
theorem splitArgsFrom_enclosed (writes : Writes slots pieces text) : ∀ {edge : Edge} {callee : Callee} {found : Argument},
    orderly named edge callee found pieces = true → ∀ depth : Int, 0 < depth → ∀ current tail : List Char,
    splitArgsFrom none depth current (text ++ tail) = splitArgsFrom none depth (text.reverse ++ current) tail := by
  induction writes with
  | nil => exact fun _ _ _ _ _ => rfl
  | @mark c _ text _ ih =>
    intro edge callee found fits depth deep current tail
    obtain ⟨mark, -, -, fits⟩ := orderly_mark.mp fits
    rw [List.cons_append, splitArgsFrom_one (isMark_spec mark).2 (.inl (Int.ne_of_gt deep)), ih fits depth deep]
    simp
  | run _ _ ih =>
    intro edge callee found fits depth deep current tail
    obtain ⟨-, -, wordy, -, fits⟩ := orderly_run.mp fits
    rw [List.append_assoc, splitArgsFrom_quiet (fun c member => quiet_word (wordy c member)) (.inl (Int.ne_of_gt deep)),
      ih fits depth deep]
    simp
  | value i _ _ ih =>
    intro edge callee found fits depth deep current tail
    obtain ⟨-, -, fits⟩ := orderly_value.mp fits
    rw [List.append_assoc, splitArgsFrom_quiet (fun c member => quiet_word (slotName_wordy i c member))
      (.inl (Int.ne_of_gt deep)), ih fits depth deep]
    simp
  | literal _ ih =>
    intro edge callee found fits depth deep current tail
    obtain ⟨quoting, free, fits⟩ := orderly_literal.mp fits
    rw [List.cons_append, List.append_assoc, List.cons_append, splitArgsFrom_literal quoting free, ih fits depth deep]
    simp
  | brackets _ _ inner ih =>
    intro edge callee found fits depth deep current tail
    obtain ⟨within, fits⟩ := orderly_brackets.mp fits
    rw [List.cons_append, List.append_assoc, List.cons_append, splitArgsFrom_opening,
      inner within (depth + 1) (by omega), splitArgsFrom_closing, show depth + 1 - 1 = depth by omega, ih fits depth deep]
    simp

/-- The commas outside brackets cut the text as they cut the pieces. -/
theorem splitArgsFrom_parts (writes : Writes slots pieces text) : ∀ {edge : Edge} {callee : Callee} {found : Argument},
    orderly named edge callee found pieces = true → ∃ first others, Writes slots pieces.parts.1 first ∧
      List.Forall₂ (Writes slots) pieces.parts.2 others ∧
      ∀ current : List Char, splitArgsFrom none 0 current text = argumentTexts (current.reverse ++ first) others := by
  induction writes with
  | nil =>
    intro edge callee found fits
    refine ⟨[], [], .nil, .nil, fun current => ?_⟩
    simp [splitArgsFrom, argumentTexts]
  | @mark c rest text _ ih =>
    intro edge callee found fits
    obtain ⟨mark, -, -, fits⟩ := orderly_mark.mp fits
    obtain ⟨first, others, writes, further, split⟩ := ih fits
    rw [parts]
    by_cases comma : c = ','
    · subst comma
      refine ⟨[], first :: others, .nil, .cons writes further, fun current => ?_⟩
      rw [splitArgsFrom]
      simp [split, argumentTexts]
    · rw [if_neg comma]
      refine ⟨c :: first, others, .mark writes, further, fun current => ?_⟩
      rw [splitArgsFrom_one (isMark_spec mark).2 (.inr comma), split]
      simp
  | @run cs _ text nonempty _ ih =>
    intro edge callee found fits
    obtain ⟨-, -, wordy, -, fits⟩ := orderly_run.mp fits
    obtain ⟨first, others, writes, further, split⟩ := ih fits
    have free : ',' ∉ cs := fun member => absurd (wordy ',' member) (by decide)
    refine ⟨cs ++ first, others, .run nonempty writes, further, fun current => ?_⟩
    rw [splitArgsFrom_quiet (fun c member => quiet_word (wordy c member)) (.inr free), split]
    simp
  | value i kept _ ih =>
    intro edge callee found fits
    obtain ⟨-, -, fits⟩ := orderly_value.mp fits
    obtain ⟨first, others, writes, further, split⟩ := ih fits
    have free : ',' ∉ (slotName i).toList := fun member => absurd (slotName_wordy i ',' member) (by decide)
    refine ⟨(slotName i).toList ++ first, others, .value i kept writes, further, fun current => ?_⟩
    rw [splitArgsFrom_quiet (fun c member => quiet_word (slotName_wordy i c member)) (.inr free), split]
    simp
  | @literal quote content _ text _ ih =>
    intro edge callee found fits
    obtain ⟨quoting, free, fits⟩ := orderly_literal.mp fits
    obtain ⟨first, others, writes, further, split⟩ := ih fits
    refine ⟨quote :: (content ++ quote :: first), others, .literal writes, further, fun current => ?_⟩
    rw [splitArgsFrom_literal quoting free, split]
    simp
  | @brackets round _ _ text after inside _ _ ih =>
    intro edge callee found fits
    obtain ⟨within, fits⟩ := orderly_brackets.mp fits
    obtain ⟨first, others, writes, further, split⟩ := ih fits
    refine ⟨opening round :: (text ++ closing round :: first), others, .brackets inside writes, further, fun current => ?_⟩
    rw [splitArgsFrom_opening, splitArgsFrom_enclosed inside within (0 + 1) (by decide), splitArgsFrom_closing,
      show (0 : Int) + 1 - 1 = 0 by decide, split]
    simp

theorem writes_withoutEmptyLast {others : List Pieces} {texts : List (List Char)}
    (writes : List.Forall₂ (fun part text => Writes slots part.trim (Text.trim text)) others texts) :
    ∀ {first : Pieces} {start : List Char}, Writes slots first.trim (Text.trim start) →
    List.Forall₂ (Writes slots) (withoutEmptyLast first.trim (others.map trim)) (argumentTexts start texts) := by
  induction writes with
  | nil =>
    intro first start writes
    rw [List.map_nil, withoutEmptyLast, argumentTexts, isNil_writes writes]
    split
    · exact .nil
    · exact .cons writes .nil
  | cons next _ ih =>
    intro first start writes
    rw [List.map_cons, withoutEmptyLast, argumentTexts]
    exact .cons writes (ih next)

/-- The arguments that are cut from the text of a call are texts of its arguments. -/
theorem splitArgs_writes (writes : Writes slots pieces text) {found : Argument}
    (fits : orderly named .plain .none found pieces = true) : List.Forall₂ (Writes slots) pieces.arguments (splitArgs text) := by
  obtain ⟨first, others, start, further, split⟩ := splitArgsFrom_parts writes fits
  obtain ⟨fitsFirst, -, fitsOthers⟩ := orderly_parts fits
  have trimmed : ∀ {parts : List Pieces} {texts : List (List Char)}, List.Forall₂ (Writes slots) parts texts →
      (∀ part ∈ parts, orderly named .plain .none (found.after ',') part = true) →
      List.Forall₂ (fun part text => Writes slots part.trim (Text.trim text)) parts texts := by
    intro parts texts all
    induction all with
    | nil => exact fun _ => .nil
    | cons one _ ih =>
      intro fits
      exact .cons (writes_trim one (fits _ List.mem_cons_self)) (ih fun part member => fits part (List.mem_cons_of_mem _ member))
  rw [splitArgs, split]
  exact writes_withoutEmptyLast (trimmed further fun part member => (fitsOthers part member).1) (writes_trim start fitsFirst)

/-! ### Quoted arguments -/

/-- What follows the literal that an argument starts with does not end in its quote. -/
theorem no_closing_quote {quote : Char} (quoting : isQuote quote = true) (writes : Writes slots pieces text) :
    ∀ {edge : Edge} {callee : Callee} {found : Argument}, found = .single quote ∨ (∃ quoted, found = .several quote quoted) →
    orderly named edge callee found pieces = true → pieces.commaFree = true → text.getLast? ≠ some quote := by
  have next : ∀ found : Argument, found = .single quote ∨ (∃ quoted, found = .several quote quoted) →
      found.next = .several quote false := by
    rintro found (rfl | ⟨_, rfl⟩) <;> rfl
  have wordLast : ∀ {cs : List Char}, cs ≠ [] → (∀ c ∈ cs, Text.isWord c = true) → cs.getLast? ≠ some quote := by
    intro cs _ wordy last
    have wordy := wordy quote (List.mem_of_getLast? last)
    rw [isWord_of_isQuote quoting] at wordy
    cases wordy
  induction writes with
  | nil => exact fun _ _ _ last => nomatch last
  | @mark c rest text writes ih =>
    intro edge callee found state fits free
    obtain ⟨mark, -, -, fits⟩ := orderly_mark.mp fits
    rw [commaFree, Bool.and_eq_true, bne_iff_ne] at free
    have after : found.after c = .single quote ∨ ∃ quoted, found.after c = .several quote quoted := by
      have same := next found state
      rcases state with rfl | ⟨quoted, rfl⟩
      all_goals
        rw [Argument.after, if_neg free.1]
        · split
          · simp
          · rw [same]
            simp
        · simp
    have further := ih after fits free.2
    cases text with
    | nil =>
      intro last
      rw [List.getLast?_singleton, Option.some.injEq] at last
      rw [← last, (isMark_spec mark).2.quote] at quoting
      cases quoting
    | cons d text =>
      rw [List.getLast?_cons_cons]
      exact further
  | @run cs rest text nonempty writes ih =>
    intro edge callee found state fits free
    obtain ⟨-, -, wordy, -, fits⟩ := orderly_run.mp fits
    have further := ih (.inr ⟨false, next found state⟩) fits free
    rw [List.getLast?_append]
    cases last : text.getLast? with
    | none => exact wordLast nonempty wordy
    | some d => rw [← last]; exact fun same => further (by simpa [last] using same)
  | @value v rest text i kept writes ih =>
    intro edge callee found state fits free
    obtain ⟨-, -, fits⟩ := orderly_value.mp fits
    have further := ih (.inr ⟨false, next found state⟩) fits free
    rw [List.getLast?_append]
    cases last : text.getLast? with
    | none => exact wordLast (by simp [slotName_toList, slotMark]) (slotName_wordy i)
    | some d => rw [← last]; exact fun same => further (by simpa [last] using same)
  | @literal other content rest text writes ih =>
    intro edge callee found state fits free
    obtain ⟨-, -, fits⟩ := orderly_literal.mp fits
    have literal : found.literal other = .several quote (other == quote) := by
      rcases state with rfl | ⟨_, rfl⟩ <;> rfl
    rw [literal] at fits
    have split : other :: (content ++ other :: text) = (other :: (content ++ [other])) ++ text := by simp
    rw [split, List.getLast?_append]
    cases last : text.getLast? with
    | none =>
      have ended : text = [] := List.getLast?_eq_none_iff.mp last
      subst ended
      have none : rest = .nil := by
        have empty := isNil_writes writes
        cases rest <;> first | rfl | cases empty
      subst none
      rw [← List.cons_append, List.getLast?_concat]
      intro same
      cases same
      rw [beq_self_eq_true] at fits
      cases fits
    | some d =>
      have further := ih (.inr ⟨_, rfl⟩) fits free
      exact fun same => further (by rw [last]; exact same)
  | @brackets round inside rest text after _ writes _ ih =>
    intro edge callee found state fits free
    obtain ⟨-, fits⟩ := orderly_brackets.mp fits
    have further := ih (.inr ⟨false, next found state⟩) fits free
    have split : opening round :: (text ++ closing round :: after) = (opening round :: (text ++ [closing round])) ++ after := by
      simp
    rw [split, List.getLast?_append]
    cases last : after.getLast? with
    | none =>
      rw [← List.cons_append, List.getLast?_concat]
      intro same
      cases same
      cases round <;> cases quoting
    | some d => exact fun same => further (by rw [last]; exact same)

/-- An argument between quotes is one literal. -/
theorem isQuoted_writes (writes : Writes slots pieces text) (passed : Passed named .empty pieces) (quoted : isQuoted text = true) :
    ∃ quote content, pieces = .literal quote content .nil ∧ String.ofList ((text.drop 1).dropLast) = String.ofList content := by
  obtain ⟨fits, free⟩ := passed
  obtain ⟨first, last, same, quoting, starts, ends⟩ : ∃ first last, first = last ∧ isQuote first = true ∧
      text.head? = some first ∧ text.getLast? = some last := by
    unfold isQuoted at quoted
    split at quoted
    · rename_i first _ _ last ends
      rw [Bool.and_eq_true, beq_iff_eq] at quoted
      exact ⟨first, last, quoted.1, quoted.2, rfl, ends⟩
    · cases quoted
  subst same
  cases writes with
  | nil => cases starts
  | mark _ =>
    cases starts
    rw [(isMark_spec (orderly_mark.mp fits).1).2.quote] at quoting
    cases quoting
  | @run cs _ _ nonempty _ =>
    obtain ⟨-, -, wordy, -, -⟩ := orderly_run.mp fits
    obtain ⟨c, cs, rfl⟩ := List.exists_cons_of_ne_nil nonempty
    cases starts
    rw [(quiet_word (wordy first List.mem_cons_self)).quote] at quoting
    cases quoting
  | value i _ _ =>
    have wordy : Text.isWord first = true := slotName_wordy i first (by
      rw [slotName_toList] at starts ⊢
      exact List.mem_append_left _ (List.mem_of_mem_head? starts))
    rw [(quiet_word wordy).quote] at quoting
    cases quoting
  | @literal quote content rest text writes =>
    cases starts
    obtain ⟨-, -, fits⟩ := orderly_literal.mp fits
    have split : first :: (content ++ first :: text) = (first :: (content ++ [first])) ++ text := by simp
    cases after : text.getLast? with
    | none =>
      have ended : text = [] := List.getLast?_eq_none_iff.mp after
      subst ended
      have none : rest = .nil := by
        have empty := isNil_writes writes
        cases rest <;> first | rfl | cases empty
      subst none
      exact ⟨first, content, rfl, by rw [List.drop_one, List.tail_cons, List.dropLast_concat]⟩
    | some d =>
      rw [split, List.getLast?_append, after] at ends
      exact absurd (after.trans ends) (no_closing_quote quoting writes (.inl rfl) fits free)
  | @brackets round _ _ _ _ _ _ =>
    cases starts
    cases round <;> cases quoting

theorem isQuoted_literal {quote : Char} {content : List Char} (writes : Writes slots (.literal quote content .nil) text)
    (quoting : isQuote quote = true) : isQuoted text = true := by
  cases writes with
  | literal writes =>
    rw [writes_nil writes, isQuoted.eq_def]
    have last : (quote :: (content ++ [quote])).getLast? = some quote := by rw [← List.cons_append, List.getLast?_concat]
    rw [last]
    cases content with
    | nil => simp [quoting]
    | cons c content => simp [quoting]

end Pieces

end ProceduralScene.Expression
