import ProceduralScene.Proofs.CallScan
import ProceduralScene.Proofs.Spelling
import ProceduralScene.Schema.Spelling

/-!
A text falls into words, which are longest runs of word characters, and the single characters between them. Older
spellings begin and end where a lexeme does, so that replacing them in a text is a pass over its lexemes.
-/

set_option autoImplicit false

namespace ProceduralScene.Spelling

open Expression

inductive Lexeme where
  | word (run : List Char)
  | mark (c : Char)
deriving DecidableEq

def Lexeme.text : Lexeme → List Char
  | .word run => run
  | .mark c => [c]

def spelled (parts : List Lexeme) : List Char := parts.flatMap Lexeme.text

@[simp] theorem spelled_nil : spelled [] = [] := rfl

@[simp] theorem spelled_word (run : List Char) (rest : List Lexeme) : spelled (.word run :: rest) = run ++ spelled rest := rfl

@[simp] theorem spelled_mark (c : Char) (rest : List Lexeme) : spelled (.mark c :: rest) = c :: spelled rest := rfl

@[simp] theorem spelled_append (first second : List Lexeme) : spelled (first ++ second) = spelled first ++ spelled second :=
  List.flatMap_append

def lexemes : List Char → List Lexeme
  | [] => []
  | c :: rest =>
    if Text.isWord c then
      match lexemes rest with
      | .word run :: more => .word (c :: run) :: more
      | more => .word [c] :: more
    else .mark c :: lexemes rest

theorem spelled_lexemes (text : List Char) : spelled (lexemes text) = text := by
  induction text with
  | nil => rfl
  | cons c rest ih =>
    rw [lexemes]
    by_cases wordy : Text.isWord c = true
    · rw [if_pos wordy]
      split <;> simp_all
    · rw [if_neg wordy, spelled_mark, ih]

/-- The words among the lexemes are the longest runs, the character before the first lexeme taken into account. -/
def Parted : Option Char → List Lexeme → Prop
  | _, [] => True
  | before, .word run :: rest => before.any Text.isWord = false ∧ IsName run ∧ Parted run.getLast? rest
  | _, .mark c :: rest => Text.isWord c = false ∧ Parted (some c) rest

theorem parted_alike {before other : Option Char} (alike : before.any Text.isWord = other.any Text.isWord)
    {parts : List Lexeme} (parted : Parted before parts) : Parted other parts := by
  match parts with
  | [] => trivial
  | .word run :: rest => exact ⟨alike ▸ parted.1, parted.2⟩
  | .mark c :: rest => exact parted

theorem getLast_wordy {run : List Char} (name : IsName run) : run.getLast?.any Text.isWord = true := by
  rw [List.getLast?_eq_some_getLast name.nonempty, Option.any_some]
  exact name.whole _ (List.getLast_mem _)

theorem parted_lexemes (text : List Char) : Parted none (lexemes text) := by
  induction text with
  | nil => trivial
  | cons c rest ih =>
    rw [lexemes]
    by_cases wordy : Text.isWord c = true
    · rw [if_pos wordy]
      split
      · rename_i run more same
        rw [same] at ih
        obtain ⟨_, name, parted⟩ := ih
        refine ⟨rfl, ⟨by simp, by simpa [wordy] using name.whole⟩, ?_⟩
        rwa [List.getLast?_cons_of_ne_nil name.nonempty]
      · rename_i more notWord
        refine ⟨rfl, ⟨by simp, by simpa using wordy⟩, ?_⟩
        -- nothing or a mark follows, for which the character before does not matter
        match parts : lexemes rest with
        | [] => trivial
        | .word run :: more => exact absurd parts (notWord run more)
        | .mark d :: more =>
          rw [parts] at ih
          exact ih
    · rw [if_neg wordy]
      exact ⟨by simpa using wordy, parted_alike (by simpa using wordy) ih⟩

theorem head_parted {before : Option Char} (wordy : before.any Text.isWord = true) {parts : List Lexeme}
    (parted : Parted before parts) : ∀ c ∈ (spelled parts).head?, Text.isWord c = false := by
  match parts with
  | [] => simp
  | .word run :: rest => exact absurd parted.1 (by simp [wordy])
  | .mark c :: rest => simpa using parted.1

/-- The lexemes at the start of a parted text are fixed by its characters. -/
theorem spelled_eq_word {before : Option Char} {parts : List Lexeme} (parted : Parted before parts) {run text : List Char}
    (name : IsName run) (ends : ∀ c ∈ text.head?, Text.isWord c = false) (same : spelled parts = run ++ text) :
    ∃ rest, parts = .word run :: rest ∧ text = spelled rest := by
  match parts with
  | [] => exact absurd (List.append_eq_nil_iff.mp same.symm).1 name.nonempty
  | .mark c :: rest =>
    obtain ⟨d, more, rfl, wordy⟩ := isName_cons name
    rw [spelled_mark, List.cons_append] at same
    injection same with first
    exact absurd parted.1 (by simp [first, wordy])
  | .word other :: rest =>
    obtain ⟨_, otherName, parted⟩ := parted
    have stops := head_parted (getLast_wordy otherName) parted
    have cut := congrArg (List.takeWhile Text.isWord) same
    rw [spelled_word, takeWhile_run otherName.whole stops, takeWhile_run name.whole ends] at cut
    subst cut
    exact ⟨rest, rfl, (List.append_cancel_left same).symm⟩

theorem spelled_eq_mark {before : Option Char} {parts : List Lexeme} (parted : Parted before parts) {c : Char}
    {text : List Char} (mark : Text.isWord c = false) (same : spelled parts = c :: text) :
    ∃ rest, parts = .mark c :: rest ∧ text = spelled rest := by
  match parts with
  | [] => cases same
  | .mark d :: rest =>
    cases same
    exact ⟨rest, rfl, rfl⟩
  | .word run :: rest =>
    obtain ⟨d, more, rfl, wordy⟩ := isName_cons parted.2.1
    rw [spelled_word, List.cons_append] at same
    injection same with first
    exact absurd wordy (by simp [first, mark])

/-! ### Applying a rule to a part of a text -/

theorem last_append (before : List Char) {run : List Char} (nonempty : run ≠ []) :
    (before ++ run).getLast? = run.getLast? := by
  rw [List.getLast?_append, List.getLast?_eq_some_getLast nonempty, Option.some_or]

theorem apply_skip (rule : Rule) (run rest : List Char) : ∀ before : Option Char,
    apply rule before run.length (run ++ rest) = apply rule (run.getLast?.or before) 0 rest := by
  induction run with
  | nil => intro before; rfl
  | cons c run ih =>
    intro before
    rw [List.length_cons, List.cons_append, apply, ih, last_cons]

theorem apply_found {rule : Rule} {before : Option Char} {taken rest found : List Char} (nonempty : taken ≠ [])
    (finds : rule before (taken ++ rest) = some (found, taken.length)) :
    apply rule before 0 (taken ++ rest) = found ++ apply rule taken.getLast? 0 rest := by
  obtain ⟨c, taken, rfl⟩ := List.exists_cons_of_ne_nil nonempty
  rw [List.cons_append, List.length_cons] at finds
  rw [List.cons_append, apply, finds]
  dsimp only
  rw [apply_skip, ← last_cons c taken none, Option.or_none]

theorem apply_kept {rule : Rule} {before : Option Char} {c : Char} {text : List Char} (misses : rule before (c :: text) = none) :
    apply rule before 0 (c :: text) = c :: apply rule (some c) 0 text := by
  rw [apply, misses]

/-- The rule finds nothing inside of a word. -/
def Bounded (rule : Rule) : Prop :=
  ∀ {before : Option Char} {c : Char} (text : List Char),
    before.any Text.isWord = true → Text.isWord c = true → rule before (c :: text) = none

theorem apply_inside {rule : Rule} (bounded : Bounded rule) {run : List Char} (rest : List Char) :
    ∀ {before : Option Char}, before.any Text.isWord = true → (∀ c ∈ run, Text.isWord c = true) →
      apply rule before 0 (run ++ rest) = run ++ apply rule (run.getLast?.or before) 0 rest := by
  induction run with
  | nil => intro before _ _; rfl
  | cons c run ih =>
    intro before inside whole
    have wordy := whole c List.mem_cons_self
    rw [List.cons_append, apply_kept (bounded _ inside wordy),
      ih (by simpa using wordy) (fun d member => whole d (List.mem_cons_of_mem c member)), last_cons, List.cons_append]

theorem apply_part {rule : Rule} (bounded : Bounded rule) {before : Option Char} {part : Lexeme} {rest : List Lexeme}
    (parted : Parted before (part :: rest)) (misses : rule before (spelled (part :: rest)) = none) :
    apply rule before 0 (spelled (part :: rest)) = part.text ++ apply rule part.text.getLast? 0 (spelled rest) := by
  match part with
  | .mark c => exact apply_kept misses
  | .word run =>
    obtain ⟨c, run, rfl, wordy⟩ := isName_cons parted.2.1
    have whole : ∀ d ∈ run, Text.isWord d = true := fun d member => parted.2.1.whole d (List.mem_cons_of_mem c member)
    rw [spelled_word, List.cons_append] at *
    rw [apply_kept misses, apply_inside bounded _ (by simpa using wordy) whole, Lexeme.text, ← last_cons c run none,
      Option.or_none, List.cons_append]

/-! ### Passes over lexemes -/

/-- What a rule makes of the lexemes at a place: the new ones for the first of them, and those left behind. -/
abbrev Turn := List Lexeme → List Lexeme → List Lexeme → Prop

def Turns (turn : Turn) (parts : List Lexeme) : Prop := ∃ new behind, turn parts new behind

inductive Pass (turn : Turn) : List Lexeme → List Lexeme → Prop
  | nil : Pass turn [] []
  | kept {part : Lexeme} {rest result : List Lexeme} :
      ¬ Turns turn (part :: rest) → Pass turn rest result → Pass turn (part :: rest) (part :: result)
  | turned {parts new behind result : List Lexeme} :
      turn parts new behind → Pass turn behind result → Pass turn parts (new ++ result)

/-- The rule does to a text what the turn does to its lexemes. -/
structure Follows (rule : Rule) (turn : Turn) : Prop where
  kept {before : Option Char} {part : Lexeme} {rest : List Lexeme} :
    Parted before (part :: rest) → ¬ Turns turn (part :: rest) →
      apply rule before 0 (spelled (part :: rest)) = part.text ++ apply rule part.text.getLast? 0 (spelled rest)
  turned {before : Option Char} {parts new behind : List Lexeme} :
    Parted before parts → turn parts new behind → ∃ last, Parted last behind ∧
      apply rule before 0 (spelled parts) = spelled new ++ apply rule last 0 (spelled behind) ∧
      ∀ result, Parted last result → Parted before (new ++ result)

theorem parted_rest {before : Option Char} {part : Lexeme} {rest : List Lexeme} (parted : Parted before (part :: rest)) :
    Parted part.text.getLast? rest := by
  match part with
  | .word run => exact parted.2.2
  | .mark c => exact parted.2

theorem parted_cons {before : Option Char} {part : Lexeme} {rest other : List Lexeme}
    (parted : Parted before (part :: rest)) (next : Parted part.text.getLast? other) : Parted before (part :: other) := by
  match part with
  | .word run => exact ⟨parted.1, parted.2.1, next⟩
  | .mark c => exact ⟨parted.1, next⟩

theorem pass_apply {rule : Rule} {turn : Turn} (follows : Follows rule turn) {parts result : List Lexeme}
    (pass : Pass turn parts result) : ∀ {before : Option Char}, Parted before parts →
      apply rule before 0 (spelled parts) = spelled result ∧ Parted before result := by
  induction pass with
  | nil => exact fun _ => ⟨rfl, trivial⟩
  | kept misses _ ih =>
    intro before parted
    obtain ⟨same, next⟩ := ih (parted_rest parted)
    exact ⟨by rw [follows.kept parted misses, same]; rfl, parted_cons parted next⟩
  | turned turns _ ih =>
    intro before parted
    obtain ⟨last, behind, applied, joins⟩ := follows.turned parted turns
    obtain ⟨same, next⟩ := ih behind
    exact ⟨by rw [applied, same, spelled_append], joins _ next⟩

/-- A rule that finds nothing inside of a word, and elsewhere only what the turn finds, keeps what the turn keeps. -/
theorem kept_of_turns {rule : Rule} {turn : Turn} (bounded : Bounded rule)
    (turns : ∀ {before : Option Char} {parts : List Lexeme} {result : List Char × Nat}, Parted before parts →
      rule before (spelled parts) = some result → Turns turn parts)
    {before : Option Char} {part : Lexeme} {rest : List Lexeme} (parted : Parted before (part :: rest))
    (misses : ¬ Turns turn (part :: rest)) :
    apply rule before 0 (spelled (part :: rest)) = part.text ++ apply rule part.text.getLast? 0 (spelled rest) := by
  refine apply_part bounded parted ?_
  cases found : rule before (spelled (part :: rest)) with
  | none => rfl
  | some result => exact absurd (turns parted found) misses


/-! ### Places -/

def Somewhere (site : List Lexeme → Prop) (parts : List Lexeme) : Prop :=
  ∃ before tail, parts = before ++ tail ∧ site tail

section

variable {site : List Lexeme → Prop}

theorem somewhere_here {parts : List Lexeme} (here : site parts) : Somewhere site parts := ⟨[], parts, rfl, here⟩

theorem somewhere_nil : Somewhere site [] ↔ site [] := by
  constructor
  · rintro ⟨before, tail, same, here⟩
    rwa [(List.append_eq_nil_iff.mp same.symm).2] at here
  · exact somewhere_here

theorem somewhere_cons {part : Lexeme} {rest : List Lexeme} :
    Somewhere site (part :: rest) ↔ site (part :: rest) ∨ Somewhere site rest := by
  constructor
  · rintro ⟨before, tail, same, here⟩
    match before with
    | [] => exact .inl (by rwa [same])
    | _ :: before =>
      injection same with _ same
      exact .inr ⟨before, tail, same, here⟩
  · rintro (here | ⟨before, tail, rfl, here⟩)
    · exact somewhere_here here
    · exact ⟨part :: before, tail, rfl, here⟩

theorem somewhere_rest {part : Lexeme} {rest : List Lexeme} (not : ¬ site (part :: rest)) :
    Somewhere site (part :: rest) ↔ Somewhere site rest := by
  rw [somewhere_cons, or_iff_right not]

theorem somewhere_or {first second : List Lexeme → Prop} {parts : List Lexeme} :
    Somewhere (fun tail => first tail ∨ second tail) parts ↔ Somewhere first parts ∨ Somewhere second parts := by
  constructor
  · rintro ⟨before, tail, same, here | here⟩
    · exact .inl ⟨before, tail, same, here⟩
    · exact .inr ⟨before, tail, same, here⟩
  · rintro (⟨before, tail, same, here⟩ | ⟨before, tail, same, here⟩)
    · exact ⟨before, tail, same, .inl here⟩
    · exact ⟨before, tail, same, .inr here⟩

end

/-! ### What a pass does -/

/-- The turn leaves fewer lexemes behind than it takes, and a shorter text. -/
structure Shortens (turn : Turn) : Prop where
  fewer {parts new behind : List Lexeme} : turn parts new behind → behind.length < parts.length
  shorter {parts new behind : List Lexeme} : turn parts new behind → (spelled (new ++ behind)).length < (spelled parts).length

section

variable {turn : Turn}

theorem pass_exists (shortens : Shortens turn) (parts : List Lexeme) : ∃ result, Pass turn parts result := by
  induction size : parts.length using Nat.strongRecOn generalizing parts with
  | ind size ih =>
    subst size
    by_cases turns : Turns turn parts
    · obtain ⟨new, behind, turned⟩ := turns
      obtain ⟨result, pass⟩ := ih _ (shortens.fewer turned) behind rfl
      exact ⟨new ++ result, .turned turned pass⟩
    · match parts with
      | [] => exact ⟨[], .nil⟩
      | part :: rest =>
        obtain ⟨result, pass⟩ := ih _ (Nat.lt_succ_self _) rest rfl
        exact ⟨part :: result, .kept turns pass⟩

/-- A pass changes nothing, or it makes the text shorter. -/
theorem pass_shortens (shortens : Shortens turn) {parts result : List Lexeme} (pass : Pass turn parts result) :
    (¬ Somewhere (Turns turn) parts ∧ result = parts) ∨
      (Somewhere (Turns turn) parts ∧ (spelled result).length < (spelled parts).length) := by
  induction pass with
  | nil =>
    refine .inl ⟨fun found => ?_, rfl⟩
    obtain ⟨new, behind, turned⟩ := somewhere_nil.mp found
    exact absurd (shortens.fewer turned) (Nat.not_lt_zero _)
  | @kept part rest result misses _ ih =>
    rw [somewhere_rest misses]
    rcases ih with ⟨nowhere, rfl⟩ | ⟨found, shorter⟩
    · exact .inl ⟨nowhere, rfl⟩
    · refine .inr ⟨found, ?_⟩
      rw [← List.singleton_append, spelled_append, ← List.singleton_append (l := rest), spelled_append]
      simpa using shorter
  | @turned parts new behind result turned _ ih =>
    refine .inr ⟨somewhere_here ⟨new, behind, turned⟩, ?_⟩
    have less := shortens.shorter turned
    have bound : (spelled result).length ≤ (spelled behind).length := by
      rcases ih with ⟨_, rfl⟩ | ⟨_, shorter⟩
      · exact Nat.le_refl _
      · exact Nat.le_of_lt shorter
    simp only [spelled_append, List.length_append] at less ⊢
    omega

theorem pass_from {part : Lexeme} {rest result : List Lexeme} (misses : ¬ Turns turn (part :: rest))
    (pass : Pass turn (part :: rest) result) : ∃ more, result = part :: more ∧ Pass turn rest more := by
  cases pass with
  | kept _ pass => exact ⟨_, rfl, pass⟩
  | turned turned _ => exact absurd ⟨_, _, turned⟩ misses

theorem pass_to {part : Lexeme} {parts more : List Lexeme}
    (foreign : ∀ {parts new behind : List Lexeme}, turn parts new behind → ∃ first others, new = first :: others ∧ first ≠ part)
    (pass : Pass turn parts (part :: more)) :
    ∃ rest, parts = part :: rest ∧ ¬ Turns turn (part :: rest) ∧ Pass turn rest more := by
  generalize whole : part :: more = result at pass
  cases pass with
  | nil => cases whole
  | kept misses pass =>
    cases whole
    exact ⟨_, rfl, misses, pass⟩
  | turned turned _ =>
    obtain ⟨first, others, rfl, other⟩ := foreign turned
    injection whole with same
    exact absurd same.symm other

/-- The turn neither takes the lexeme at its place nor puts it there. -/
structure Leaves (turn : Turn) (part : Lexeme) : Prop where
  takes (rest : List Lexeme) : ¬ Turns turn (part :: rest)
  puts {parts new behind : List Lexeme} : turn parts new behind → ∃ first others, new = first :: others ∧ first ≠ part

/-- What holds somewhere after a pass held somewhere before it, when this is so at each lexeme kept and each turn. -/
theorem somewhere_pass {site before : List Lexeme → Prop} {parts result : List Lexeme} (pass : Pass turn parts result)
    (nil : site [] ↔ before [])
    (kept : ∀ {part : Lexeme} {rest result : List Lexeme}, ¬ Turns turn (part :: rest) → Pass turn rest result →
      (site (part :: result) ↔ before (part :: rest)))
    (turned : ∀ {parts new behind result : List Lexeme}, turn parts new behind → Pass turn behind result →
      (Somewhere site result ↔ Somewhere before behind) → (Somewhere site (new ++ result) ↔ Somewhere before parts)) :
    Somewhere site result ↔ Somewhere before parts := by
  induction pass with
  | nil => rw [somewhere_nil, somewhere_nil, nil]
  | kept misses pass ih =>
    rw [somewhere_cons, somewhere_cons, ih, kept misses pass]
  | turned turns pass ih => exact turned turns pass ih

end

section

variable {turn : Turn} (shortens : Shortens turn) {parts result : List Lexeme} (pass : Pass turn parts result)

include shortens pass

theorem pass_length : (spelled result).length ≤ (spelled parts).length := by
  rcases pass_shortens shortens pass with ⟨_, rfl⟩ | ⟨_, shorter⟩
  · exact Nat.le_refl _
  · exact Nat.le_of_lt shorter

theorem pass_same (same : (spelled parts).length ≤ (spelled result).length) : ¬ Somewhere (Turns turn) parts ∧ result = parts := by
  rcases pass_shortens shortens pass with unchanged | ⟨_, shorter⟩
  · exact unchanged
  · exact absurd shorter (Nat.not_lt.mpr same)

theorem pass_nowhere (nowhere : ¬ Somewhere (Turns turn) parts) : result = parts := by
  rcases pass_shortens shortens pass with ⟨_, same⟩ | ⟨found, _⟩
  · exact same
  · exact absurd found nowhere

end

end ProceduralScene.Spelling
