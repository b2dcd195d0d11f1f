import ProceduralScene.Proofs.Lexemes

/-!
The rules for older spellings as passes over lexemes. A rule finds nothing inside of a word, so that it sees the text
as the words and marks it is made of.
-/

set_option autoImplicit false

namespace ProceduralScene.Spelling

open Expression

/-! ### The rules as turns -/

def contextName : List Char := "ctx".toList

def mathName : List Char := "Math".toList

def startsName (run : List Char) : Bool := run.head?.any isNameStart

/-- The constants of `Math` by their old and new names. -/
def constants : List (List Char × List Char) := [("PI".toList, "pi".toList), ("E".toList, "e".toList)]

/-- Blanks and an opening parenthesis. -/
inductive Opens : List Lexeme → List Lexeme → Prop
  | here {inner : List Lexeme} : Opens (.mark '(' :: inner) inner
  | blank {c : Char} {rest inner : List Lexeme} : Text.isSpace c = true → Opens rest inner → Opens (.mark c :: rest) inner

/-- A name qualified several times over. -/
def prefixed (name : List Char) : Nat → List Lexeme → List Lexeme
  | 0, rest => rest
  | n + 1, rest => .word name :: .mark '.' :: prefixed name n rest

inductive ContextTurn : Turn
  | variable {name : List Char} {rest : List Lexeme} : startsName name = true →
      ContextTurn (prefixed contextName 1 (.word name :: rest)) [.mark '$', .word name] rest

inductive ConstantTurn : Turn
  | constant {old new : List Char} {rest : List Lexeme} : (old, new) ∈ constants →
      ConstantTurn (prefixed mathName 1 (.word old :: rest)) [.word new] rest

inductive CallTurn : Turn
  | call {name : Identifier} {rest inner : List Lexeme} : Opens rest inner →
      CallTurn (prefixed mathName 1 (.word name.text :: rest)) [.word name.text, .mark '('] inner

inductive LiteralTurn (old new : List Char) : Turn
  | literal {rest : List Lexeme} : LiteralTurn old new (old.map .mark ++ rest) (new.map .mark) rest

theorem isName_contextName : IsName contextName := ⟨by decide, List.all_eq_true.mp (by decide)⟩

theorem isName_mathName : IsName mathName := ⟨by decide, List.all_eq_true.mp (by decide)⟩

theorem qualified_iff {name : List Char} (isName : IsName name) {before : Option Char} {parts : List Lexeme}
    (parted : Parted before parts) {behind : List Char} :
    qualified? (name ++ ['.']) before (spelled parts) = some behind ↔
      ∃ rest, parts = prefixed name 1 rest ∧ behind = spelled rest := by
  constructor
  · intro found
    rw [qualified?] at found
    by_cases inside : before.any Text.isWord = true
    · rw [if_pos inside] at found
      cases found
    · rw [if_neg inside] at found
      have split := dropWord_some.mp found
      rw [List.append_assoc] at split
      obtain ⟨rest, rfl, point⟩ := spelled_eq_word parted isName (by simp; decide) split
      obtain ⟨more, rfl, rfl⟩ := spelled_eq_mark parted.2.2 (by decide) point.symm
      exact ⟨more, rfl, rfl⟩
  · intro qualified
    obtain ⟨rest, rfl, rfl⟩ := qualified
    rw [qualified?, if_neg (by simp [parted.1])]
    exact dropWord_some.mpr (by simp [prefixed])

theorem qualified_bounded {word : List Char} {before : Option Char} (inside : before.any Text.isWord = true)
    (text : List Char) : qualified? word before text = none := by
  rw [qualified?, if_pos inside]

theorem isName_identifier (name : Identifier) : IsName name.text where
  nonempty := by simp [Identifier.text]
  whole := by
    intro c member
    rcases List.mem_cons.mp member with rfl | later
    · exact isWord_of_isNameChar (isNameChar_of_isNameStart name.starts)
    · exact isWord_of_isNameChar (name.continues c later)

/-! ### Context variables -/

theorem cutName_word {before : Option Char} {run : List Char} {rest : List Lexeme} (starts : startsName run = true)
    (parted : Parted before (.word run :: rest)) :
    cutName? (run ++ spelled rest) = some (run.takeWhile isNameChar, run.dropWhile isNameChar ++ spelled rest) := by
  have stops : ∀ c ∈ (spelled rest).head?, isNameChar c = false := fun c head =>
    Bool.eq_false_iff.mpr fun char =>
      absurd (isWord_of_isNameChar char) (by simp [head_parted (getLast_wordy parted.2.1) parted.2.2 c head])
  match run with
  | [] => cases starts
  | c :: run =>
    have start : isNameStart c = true := by simpa [startsName] using starts
    have char := isNameChar_of_isNameStart start
    have all : ∀ d ∈ run.takeWhile isNameChar, isNameChar d = true := List.all_eq_true.mp List.all_takeWhile
    have ends : ∀ d ∈ (run.dropWhile isNameChar ++ spelled rest).head?, isNameChar d = false := by
      intro d head
      cases left : run.dropWhile isNameChar with
      | nil => exact stops d (by simpa [left] using head)
      | cons e more =>
        have notChar := List.head?_dropWhile_not isNameChar run
        simp_all
    have whole : run ++ spelled rest = run.takeWhile isNameChar ++ (run.dropWhile isNameChar ++ spelled rest) := by
      rw [← List.append_assoc, List.takeWhile_append_dropWhile]
    rw [List.cons_append, cutName?, if_pos start, whole, takeWhile_run all ends, dropWhile_run all ends]
    simp [char]

theorem startsName_of_cutName {before : Option Char} {parts : List Lexeme} (parted : Parted before parts)
    {name behind : List Char} (cut : cutName? (spelled parts) = some (name, behind)) :
    ∃ run rest, parts = .word run :: rest ∧ startsName run = true := by
  obtain ⟨identifier, rfl, same⟩ := cutName_found cut
  have wordy := isWord_of_isNameChar (isNameChar_of_isNameStart identifier.starts)
  match parts with
  | [] => cases same
  | .mark c :: rest =>
    rw [spelled_mark, Identifier.text, List.cons_append] at same
    injection same with first
    exact absurd parted.1 (by simp [first, wordy])
  | .word run :: rest =>
    obtain ⟨c, run, rfl, _⟩ := isName_cons parted.2.1
    rw [spelled_word, Identifier.text, List.cons_append, List.cons_append] at same
    injection same with first
    exact ⟨_, _, rfl, by simp [startsName, first, identifier.starts]⟩

theorem context_bounded : Bounded contextVariable := by
  intro before c text inside _
  rw [contextVariable, qualified_bounded inside]
  rfl

theorem context_turns {before : Option Char} {parts : List Lexeme} {result : List Char × Nat}
    (parted : Parted before parts) (found : contextVariable before (spelled parts) = some result) :
    Turns ContextTurn parts := by
  simp only [contextVariable, Option.bind_eq_bind, Option.bind_eq_some_iff] at found
  obtain ⟨text, qualified, ⟨name, behind⟩, cut, _⟩ := found
  obtain ⟨more, rfl, rfl⟩ := (qualified_iff isName_contextName parted).mp qualified
  obtain ⟨run, rest, rfl, starts⟩ := startsName_of_cutName parted.2.2.2 cut
  exact ⟨_, _, .variable starts⟩

theorem context_follows : Follows contextVariable ContextTurn where
  kept := kept_of_turns context_bounded context_turns
  turned := by
    rintro before parts new behind parted ⟨starts⟩
    rename_i name
    have qualified := (qualified_iff isName_contextName parted).mpr ⟨_, rfl, rfl⟩
    have afterPoint := parted.2.2.2
    have cut := cutName_word starts afterPoint
    -- the name that is cut is the front of the word; its back is copied
    have whole : name.takeWhile isNameChar ++ name.dropWhile isNameChar = name := List.takeWhile_append_dropWhile
    generalize name.takeWhile isNameChar = front, name.dropWhile isNameChar = back at whole cut
    subst whole
    obtain ⟨identifier, rfl, _⟩ := cutName_found cut
    have text : spelled (prefixed contextName 1 (.word (identifier.text ++ back) :: behind)) =
        (contextName ++ '.' :: identifier.text) ++ (back ++ spelled behind) := by
      simp [prefixed]
    have found : contextVariable before ((contextName ++ '.' :: identifier.text) ++ (back ++ spelled behind)) =
        some ('$' :: identifier.text, (contextName ++ '.' :: identifier.text).length) := by
      rw [← text, contextVariable]
      have size : (spelled (prefixed contextName 1 (.word (identifier.text ++ back) :: behind))).length -
          (back ++ spelled behind).length = (contextName ++ '.' :: identifier.text).length := by
        rw [text, List.length_append, Nat.add_sub_cancel]
      simp only [Option.bind_eq_bind, Option.bind_eq_some_iff]
      exact ⟨_, qualified, _, cut, by rw [size]; rfl⟩
    refine ⟨_, afterPoint.2.2, ?_, fun result next => ⟨by decide, by decide, afterPoint.2.1, next⟩⟩
    rw [text, apply_found (by simp) found]
    have last : (contextName ++ '.' :: identifier.text).getLast? = identifier.text.getLast? :=
      last_append (contextName ++ ['.']) (isName_identifier identifier).nonempty
    rw [last, apply_inside context_bounded _ (getLast_wordy (isName_identifier identifier)) fun c member =>
      afterPoint.2.1.whole c (List.mem_append_right _ member), List.getLast?_append]
    simp

/-! ### Constants -/

theorem constant_bounded : Bounded constant := by
  intro before c text inside _
  rw [constant, qualified_bounded inside]
  rfl

theorem ends_of_endsWord {text : List Char} (ends : endsWord text = true) : ∀ c ∈ text.head?, Text.isWord c = false := by
  intro c head
  rw [endsWord, head] at ends
  simpa using ends

theorem endsWord_parted {before : Option Char} (wordy : before.any Text.isWord = true) {parts : List Lexeme}
    (parted : Parted before parts) : endsWord (spelled parts) = true := by
  have stops := head_parted wordy parted
  cases head : (spelled parts).head? with
  | none => rw [endsWord, head]; rfl
  | some c => rw [endsWord, head, Option.any_some, stops c head]; rfl

theorem constant_turns {before : Option Char} {parts : List Lexeme} {result : List Char × Nat}
    (parted : Parted before parts) (found : constant before (spelled parts) = some result) :
    Turns ConstantTurn parts := by
  rw [constant, Option.bind_eq_bind, Option.bind_eq_some_iff] at found
  obtain ⟨text, qualified, found⟩ := found
  obtain ⟨more, rfl, rfl⟩ := (qualified_iff isName_mathName parted).mp qualified
  have afterPoint := parted.2.2.2
  split at found
  · rename_i behind same
    by_cases ends : endsWord behind = true
    · obtain ⟨rest, rfl, _⟩ := spelled_eq_word afterPoint ⟨by decide, List.all_eq_true.mp (by decide)⟩ (ends_of_endsWord ends)
        (show _ = "PI".toList ++ behind from same)
      exact ⟨_, _, .constant (List.mem_cons_self)⟩
    · rw [if_neg ends] at found
      cases found
  · rename_i behind same
    by_cases ends : endsWord behind = true
    · obtain ⟨rest, rfl, _⟩ := spelled_eq_word afterPoint ⟨by decide, List.all_eq_true.mp (by decide)⟩ (ends_of_endsWord ends)
        (show _ = "E".toList ++ behind from same)
      exact ⟨_, _, .constant (List.mem_cons_of_mem _ List.mem_cons_self)⟩
    · rw [if_neg ends] at found
      cases found
  · cases found

theorem constant_names {old new : List Char} (known : (old, new) ∈ constants) : IsName old ∧ IsName new := by
  have all : ∀ names ∈ constants, (names.1 ≠ [] ∧ names.1.all Text.isWord = true) ∧
      names.2 ≠ [] ∧ names.2.all Text.isWord = true := by
    decide
  obtain ⟨⟨someOld, oldWord⟩, someNew, newWord⟩ := all _ known
  exact ⟨⟨someOld, List.all_eq_true.mp oldWord⟩, someNew, List.all_eq_true.mp newWord⟩

theorem constant_found {before : Option Char} {old new : List Char} {behind : List Lexeme}
    (known : (old, new) ∈ constants) (parted : Parted before (prefixed mathName 1 (.word old :: behind))) :
    constant before (mathName ++ '.' :: old ++ spelled behind) = some (new, (mathName ++ '.' :: old).length) := by
  have qualified := (qualified_iff isName_mathName parted).mpr ⟨_, rfl, rfl⟩
  have afterName := parted.2.2.2
  have ends := endsWord_parted (getLast_wordy afterName.2.1) afterName.2.2
  have text : spelled (prefixed mathName 1 (.word old :: behind)) = mathName ++ '.' :: old ++ spelled behind := by
    simp [prefixed]
  rw [← text, constant, Option.bind_eq_bind, Option.bind_eq_some_iff]
  refine ⟨_, qualified, ?_⟩
  simp only [constants, List.mem_cons, List.not_mem_nil, or_false, Prod.mk.injEq] at known
  rcases known with ⟨rfl, rfl⟩ | ⟨rfl, rfl⟩
  · exact if_pos ends
  · exact if_pos ends

theorem constant_follows : Follows constant ConstantTurn where
  kept := kept_of_turns constant_bounded constant_turns
  turned := by
    rintro before parts new behind parted ⟨known⟩
    rename_i old new
    obtain ⟨oldName, newName⟩ := constant_names known
    have text : spelled (prefixed mathName 1 (.word old :: behind)) = mathName ++ '.' :: old ++ spelled behind := by
      simp [prefixed]
    have last : (mathName ++ '.' :: old).getLast? = old.getLast? := last_append (mathName ++ ['.']) oldName.nonempty
    refine ⟨old.getLast?, parted.2.2.2.2.2, ?_, fun result next => ⟨parted.1, newName, ?_⟩⟩
    · rw [text, apply_found (by simp) (constant_found known parted), last]
      simp
    · exact parted_alike (by rw [getLast_wordy oldName, getLast_wordy newName]) next

/-! ### Calls -/

theorem call_bounded : Bounded call := by
  intro before c text inside _
  rw [call, qualified_bounded inside]
  rfl

theorem opens_of_dropWhile {rest : List Lexeme} : ∀ {before : Option Char} {inner : List Char}, Parted before rest →
    (spelled rest).dropWhile Text.isSpace = '(' :: inner → ∃ more, Opens rest more := by
  induction rest with
  | nil => intro before inner _ same; cases same
  | cons part rest ih =>
    intro before inner parted same
    match part with
    | .word run =>
      obtain ⟨c, run, rfl, wordy⟩ := isName_cons parted.2.1
      have notSpace : Text.isSpace c = false :=
        Bool.eq_false_iff.mpr fun space => absurd wordy (by simp [Text.isWord_of_isSpace space])
      rw [spelled_word, List.cons_append, List.dropWhile_cons_of_neg (by simp [notSpace])] at same
      injection same with first
      exact absurd wordy (by rw [first]; decide)
    | .mark c =>
      by_cases space : Text.isSpace c = true
      · rw [spelled_mark, List.dropWhile_cons_of_pos space] at same
        obtain ⟨more, opens⟩ := ih parted.2 same
        exact ⟨more, .blank space opens⟩
      · rw [spelled_mark, List.dropWhile_cons_of_neg space] at same
        injection same with first
        exact ⟨rest, first ▸ .here⟩

theorem dropWhile_opens {rest inner : List Lexeme} (opens : Opens rest inner) :
    (spelled rest).dropWhile Text.isSpace = '(' :: spelled inner := by
  induction opens with
  | here => rfl
  | blank space _ ih => rw [spelled_mark, List.dropWhile_cons_of_pos space, ih]

theorem spelled_opens {rest inner : List Lexeme} (opens : Opens rest inner) :
    ∃ blanks, spelled rest = (blanks ++ ['(']) ++ spelled inner := by
  induction opens with
  | here => exact ⟨[], rfl⟩
  | @blank c _ _ _ _ ih =>
    obtain ⟨blanks, same⟩ := ih
    exact ⟨c :: blanks, by rw [spelled_mark, same]; rfl⟩

theorem parted_opens {rest inner : List Lexeme} (opens : Opens rest inner) : ∀ {before : Option Char},
    Parted before rest → Parted (some '(') inner := by
  induction opens with
  | here => exact fun parted => parted.2
  | blank _ _ ih => exact fun parted => ih parted.2

theorem call_turns {before : Option Char} {parts : List Lexeme} {result : List Char × Nat}
    (parted : Parted before parts) (found : call before (spelled parts) = some result) :
    Turns CallTurn parts := by
  simp only [call, Option.bind_eq_bind, Option.bind_eq_some_iff] at found
  obtain ⟨text, qualified, ⟨name, behind⟩, cut, found⟩ := found
  obtain ⟨more, rfl, rfl⟩ := (qualified_iff isName_mathName parted).mp qualified
  have afterPoint := parted.2.2.2
  obtain ⟨run, rest, rfl, starts⟩ := startsName_of_cutName afterPoint cut
  obtain ⟨identifier, rfl, _⟩ := cutName_found cut
  rw [spelled_word, cutName_word starts afterPoint, Option.some.injEq, Prod.mk.injEq] at cut
  obtain ⟨front, rfl⟩ := cut
  have whole : run.takeWhile isNameChar ++ run.dropWhile isNameChar = run := List.takeWhile_append_dropWhile
  split at found
  · rename_i inner opened
    cases back : run.dropWhile isNameChar with
    | nil =>
      rw [back, List.nil_append] at opened
      obtain ⟨inner, opens⟩ := opens_of_dropWhile afterPoint.2.2 opened
      rw [back, List.append_nil, front] at whole
      exact ⟨_, inner, whole ▸ CallTurn.call opens⟩
    | cons c back' =>
      -- a word that goes on behind the name is no call
      have wordy : Text.isWord c = true := afterPoint.2.1.whole c (by rw [← whole, back]; simp)
      have notSpace : Text.isSpace c = false :=
        Bool.eq_false_iff.mpr fun space => absurd wordy (by simp [Text.isWord_of_isSpace space])
      rw [back, List.cons_append, List.dropWhile_cons_of_neg (by simp [notSpace])] at opened
      injection opened with first
      exact absurd wordy (by rw [first]; decide)
  · cases found

theorem takeWhile_identifier (name : Identifier) :
    name.text.takeWhile isNameChar = name.text ∧ name.text.dropWhile isNameChar = [] := by
  have whole : ∀ c ∈ name.text, isNameChar c = true := by
    intro c member
    rcases List.mem_cons.mp member with rfl | later
    · exact isNameChar_of_isNameStart name.starts
    · exact name.continues c later
  have front : (name.text ++ []).takeWhile isNameChar = name.text := takeWhile_run whole (by simp)
  have back : (name.text ++ []).dropWhile isNameChar = [] := dropWhile_run whole (by simp)
  rw [List.append_nil] at front back
  exact ⟨front, back⟩

theorem call_follows : Follows call CallTurn where
  kept := kept_of_turns call_bounded call_turns
  turned := by
    rintro before parts new behind parted ⟨opens⟩
    rename_i name rest
    have qualified := (qualified_iff isName_mathName parted).mpr ⟨_, rfl, rfl⟩
    have afterPoint := parted.2.2.2
    have starts : startsName name.text = true := by simp [startsName, Identifier.text, name.starts]
    have cut := cutName_word starts afterPoint
    rw [(takeWhile_identifier name).1, (takeWhile_identifier name).2, List.nil_append] at cut
    obtain ⟨blanks, opened⟩ := spelled_opens opens
    have text : spelled (prefixed mathName 1 (.word name.text :: rest)) =
        (mathName ++ '.' :: name.text ++ blanks ++ ['(']) ++ spelled behind := by
      simp [prefixed, opened]
    have found : call before ((mathName ++ '.' :: name.text ++ blanks ++ ['(']) ++ spelled behind) =
        some (name.text ++ ['('], (mathName ++ '.' :: name.text ++ blanks ++ ['(']).length) := by
      have size : (spelled (prefixed mathName 1 (.word name.text :: rest))).length - (spelled behind).length =
          (mathName ++ '.' :: name.text ++ blanks ++ ['(']).length := by
        rw [text, List.length_append, Nat.add_sub_cancel]
      rw [← text]
      simp only [call, Option.bind_eq_bind, Option.bind_eq_some_iff]
      exact ⟨_, qualified, _, cut, by rw [dropWhile_opens opens, ← size]; rfl⟩
    refine ⟨some '(', parted_opens opens afterPoint.2.2, ?_, fun result next => ⟨parted.1, afterPoint.2.1, by decide, next⟩⟩
    rw [text, apply_found (by simp) found, last_append _ (by simp)]
    simp

/-! ### Comparisons -/

theorem spelled_marks (marks : List Char) : spelled (marks.map .mark) = marks := by
  induction marks with
  | nil => rfl
  | cons c marks ih => rw [List.map_cons, spelled_mark, ih]

theorem parted_marks {marks : List Char} (plain : ∀ c ∈ marks, Text.isWord c = false) {rest : List Lexeme} :
    ∀ {before : Option Char}, Parted before (marks.map .mark ++ rest) ↔ Parted (marks.getLast?.or before) rest := by
  induction marks with
  | nil => exact Iff.rfl
  | cons c marks ih =>
    intro before
    rw [last_cons, ← ih fun d member => plain d (List.mem_cons_of_mem c member)]
    exact and_iff_right (plain c List.mem_cons_self)

theorem getLast_plain {marks : List Char} (plain : ∀ c ∈ marks, Text.isWord c = false) :
    marks.getLast?.any Text.isWord = false := by
  cases last : marks.getLast? with
  | none => rfl
  | some c => rw [Option.any_some, plain c (List.mem_of_getLast? last)]

theorem marks_of_spelled {marks text : List Char} (plain : ∀ c ∈ marks, Text.isWord c = false) :
    ∀ {before : Option Char} {parts : List Lexeme}, Parted before parts → spelled parts = marks ++ text →
      ∃ rest, parts = marks.map .mark ++ rest := by
  induction marks with
  | nil => exact fun _ _ => ⟨_, rfl⟩
  | cons c marks ih =>
    intro before parts parted same
    obtain ⟨rest, rfl, split⟩ := spelled_eq_mark parted (plain c List.mem_cons_self) same
    obtain ⟨more, rfl⟩ := ih (fun d member => plain d (List.mem_cons_of_mem c member)) parted.2 split.symm
    exact ⟨more, rfl⟩

section

variable {old new : List Char} (plainOld : ∀ c ∈ old, Text.isWord c = false)

include plainOld

theorem literal_bounded (someOld : old ≠ []) : Bounded (literal old new) := by
  intro before c text _ wordy
  cases found : dropWord? old (c :: text) with
  | none => rw [literal, found]; rfl
  | some rest =>
    obtain ⟨d, more, rfl⟩ := List.exists_cons_of_ne_nil someOld
    injection dropWord_some.mp found with first
    exact absurd wordy (by simp [first, plainOld d List.mem_cons_self])

theorem literal_turns {before : Option Char} {parts : List Lexeme} {result : List Char × Nat}
    (parted : Parted before parts) (found : literal old new before (spelled parts) = some result) :
    Turns (LiteralTurn old new) parts := by
  rw [literal, Option.map_eq_some_iff] at found
  obtain ⟨text, dropped, _⟩ := found
  obtain ⟨behind, rfl⟩ := marks_of_spelled plainOld parted (dropWord_some.mp dropped)
  exact ⟨_, _, .literal⟩

theorem literal_follows (someOld : old ≠ []) (someNew : new ≠ []) (plainNew : ∀ c ∈ new, Text.isWord c = false) :
    Follows (literal old new) (LiteralTurn old new) where
  kept := kept_of_turns (literal_bounded plainOld someOld) (literal_turns plainOld)
  turned := by
    rintro before parts new behind parted ⟨⟩
    have text : spelled (old.map .mark ++ behind) = old ++ spelled behind := by rw [spelled_append, spelled_marks]
    have found : literal old new before (old ++ spelled behind) = some (new, old.length) := by
      rw [literal, dropWord_some.mpr rfl]
      rfl
    have last : ∀ {marks : List Char}, marks ≠ [] → marks.getLast?.or before = marks.getLast? := fun nonempty => by
      rw [List.getLast?_eq_some_getLast nonempty, Option.some_or]
    refine ⟨old.getLast?, ?_, by rw [text, apply_found someOld found, spelled_marks], fun result next => ?_⟩
    · rwa [← last someOld, ← parted_marks plainOld]
    · rw [parted_marks plainNew, last someNew]
      exact parted_alike (by rw [getLast_plain plainOld, getLast_plain plainNew]) next

end

/-! ### Every turn makes the text shorter -/

theorem context_shortens : Shortens ContextTurn where
  fewer := by
    rintro parts new behind ⟨_⟩
    simp only [prefixed, List.length_cons]
    omega
  shorter := by
    rintro parts new behind ⟨_⟩
    simp [prefixed, contextName]

theorem constant_shortens : Shortens ConstantTurn where
  fewer := by
    rintro parts new behind ⟨_⟩
    simp only [prefixed, List.length_cons]
    omega
  shorter := by
    rintro parts new behind ⟨known⟩
    simp only [constants, List.mem_cons, List.not_mem_nil, or_false, Prod.mk.injEq] at known
    rcases known with ⟨rfl, rfl⟩ | ⟨rfl, rfl⟩ <;> simp [prefixed, mathName]

theorem opens_length {rest inner : List Lexeme} (opens : Opens rest inner) : inner.length < rest.length := by
  induction opens with
  | here => exact Nat.lt_succ_self _
  | blank _ _ ih => exact Nat.lt_succ_of_lt ih

theorem call_shortens : Shortens CallTurn where
  fewer := by
    rintro parts new behind ⟨opens⟩
    have less := opens_length opens
    simp only [prefixed, List.length_cons]
    omega
  shorter := by
    rintro parts new behind ⟨opens⟩
    obtain ⟨blanks, opened⟩ := spelled_opens opens
    simp [prefixed, mathName, opened]
    omega

theorem literal_shortens {old new : List Char} (shorter : new.length < old.length) : Shortens (LiteralTurn old new) where
  fewer := by
    rintro parts added behind ⟨_⟩
    simp only [List.length_append, List.length_map]
    omega
  shorter := by
    rintro parts added behind ⟨_⟩
    simp only [spelled_append, spelled_marks, List.length_append]
    omega

end ProceduralScene.Spelling
