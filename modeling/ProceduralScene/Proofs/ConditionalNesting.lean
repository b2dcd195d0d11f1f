import ProceduralScene.Proofs.ConditionalCalls

/-!
How many passes convert every conditional. After as many passes as calls of `if` are nested in each other, a further
pass changes nothing.
-/

set_option autoImplicit false

namespace ProceduralScene.Expression

open Pieces

namespace Pieces

/-- How deep calls of `if` with more than one argument are nested, where `called` tells that the word and nothing but
blanks stand before. -/
def nesting : Bool → Pieces → Nat
  | _, .nil => 0
  | called, .mark c rest => nesting (called && Text.isSpace c) rest
  | _, .run cs rest => nesting (cs == conditionalName) rest
  | _, .value _ rest => nesting false rest
  | _, .literal _ _ rest => nesting false rest
  | called, .brackets round inside rest =>
    max (nesting false inside + if called && round && !inside.commaFree then 1 else 0) (nesting false rest)

theorem nesting_called (pieces : Pieces) (called : Bool) : nesting false pieces ≤ nesting called pieces := by
  induction pieces with
  | mark c rest ih =>
    cases called with
    | false => exact Nat.le_refl _
    | true =>
      show nesting (false && Text.isSpace c) rest ≤ nesting (true && Text.isSpace c) rest
      cases Text.isSpace c with
      | false => exact Nat.le_refl _
      | true => exact ih
  | brackets round inside rest _ _ =>
    rw [nesting, nesting]
    simp only [Bool.false_and, Bool.false_eq_true, if_false]
    omega
  | _ => exact Nat.le_refl _

theorem nesting_callBehind {rest inside behind : Pieces} (call : rest.callBehind = some (inside, behind))
    (comma : inside.commaFree = false) : nesting true rest = max (nesting false inside + 1) (nesting false behind) := by
  induction rest with
  | mark c rest ih =>
    rw [callBehind] at call
    split at call
    · rename_i space
      rw [nesting, space]
      exact ih call
    · cases call
  | brackets round within rest _ _ =>
    cases round with
    | true =>
      cases call
      rw [nesting, comma]
      rfl
    | false => cases call
  | _ => cases call

theorem nesting_dropBlanks (pieces : Pieces) : nesting false pieces.dropBlanks = nesting false pieces := by
  induction pieces with
  | mark c rest ih =>
    rw [dropBlanks]
    split
    · exact ih
    · rfl
  | _ => rfl

theorem nesting_trimEnd (pieces : Pieces) : ∀ called, nesting called pieces.trimEnd = nesting called pieces := by
  induction pieces with
  | nil => exact fun _ => rfl
  | mark c rest ih =>
    intro called
    rw [trimEnd_mark]
    split
    · rename_i both
      rw [Bool.and_eq_true] at both
      rw [nesting, nesting, ← ih, eq_nil_of_isNil both.2]
      rfl
    · exact ih _
  | run cs rest ih | value v rest ih | literal quote content rest ih =>
    intro called
    rw [trimEnd, nesting, nesting, ih]
  | brackets round inside rest _ ih =>
    intro called
    rw [trimEnd, nesting, nesting, ih]

theorem nesting_parts (pieces : Pieces) : ∀ called, nesting called pieces.parts.1 ≤ nesting called pieces ∧
    ∀ part ∈ pieces.parts.2, nesting false part ≤ nesting called pieces := by
  induction pieces with
  | nil => exact fun _ => ⟨Nat.le_refl _, nofun⟩
  | mark c rest ih =>
    intro called
    rw [parts]
    split
    · rename_i comma
      have noSpace : (called && Text.isSpace c) = false := by rw [comma]; cases called <;> decide
      have behind : nesting called (.mark c rest) = nesting false rest := by rw [nesting, noSpace]
      obtain ⟨first, others⟩ := ih false
      rw [behind]
      refine ⟨Nat.zero_le _, fun part member => ?_⟩
      rcases List.mem_cons.mp member with rfl | member
      · exact first
      · exact others part member
    · exact ih _
  | run cs rest ih | value v rest ih | literal quote content rest ih =>
    intro called
    exact ih _
  | brackets round inside rest _ ih =>
    intro called
    obtain ⟨first, others⟩ := ih false
    refine ⟨?_, fun part member => Nat.le_trans (others part member) (Nat.le_max_right _ _)⟩
    show max _ (nesting false rest.parts.1) ≤ max _ (nesting false rest)
    omega

/-- The arguments of a call are nested at most as deep as what its parentheses enclose. -/
theorem nesting_arguments {inside argument : Pieces} (member : argument ∈ inside.arguments) :
    nesting false argument ≤ nesting false inside := by
  obtain ⟨first, others⟩ := nesting_parts inside false
  have trimmed : ∀ part : Pieces, nesting false part.trim = nesting false part := by
    intro part
    rw [trim, nesting_trimEnd, nesting_dropBlanks]
  rcases List.mem_cons.mp (withoutEmptyLast_subset _ _ member) with rfl | member
  · rwa [trimmed]
  · obtain ⟨part, found, rfl⟩ := List.mem_map.mp member
    rw [trimmed]
    exact others part found

theorem sizeOf_dropBlanks (pieces : Pieces) : sizeOf pieces.dropBlanks ≤ sizeOf pieces := by
  induction pieces with
  | mark c rest ih =>
    rw [dropBlanks]
    split
    · simp only [mark.sizeOf_spec]
      omega
    · exact Nat.le_refl _
  | _ => exact Nat.le_refl _

theorem sizeOf_trimEnd (pieces : Pieces) : sizeOf pieces.trimEnd ≤ sizeOf pieces := by
  induction pieces with
  | nil => exact Nat.le_refl _
  | mark c rest ih =>
    rw [trimEnd_mark]
    split <;> simp only [nil.sizeOf_spec, mark.sizeOf_spec] <;> omega
  | run cs rest ih | value v rest ih | literal quote content rest ih | brackets round inside rest _ ih =>
    rw [trimEnd]
    simp only [run.sizeOf_spec, value.sizeOf_spec, literal.sizeOf_spec, brackets.sizeOf_spec]
    omega

theorem sizeOf_parts (pieces : Pieces) : sizeOf pieces.parts.1 ≤ sizeOf pieces ∧
    ∀ part ∈ pieces.parts.2, sizeOf part ≤ sizeOf pieces := by
  induction pieces with
  | nil => exact ⟨Nat.le_refl _, nofun⟩
  | mark c rest ih =>
    obtain ⟨first, others⟩ := ih
    rw [parts]
    split
    · refine ⟨by simp only [nil.sizeOf_spec, mark.sizeOf_spec]; omega, fun part member => ?_⟩
      rw [mark.sizeOf_spec]
      rcases List.mem_cons.mp member with rfl | member
      · omega
      · exact Nat.le_trans (others part member) (Nat.le_add_left _ _)
    · simp only [mark.sizeOf_spec]
      exact ⟨by omega, fun part member => Nat.le_trans (others part member) (Nat.le_add_left _ _)⟩
  | run cs rest ih | value v rest ih | literal quote content rest ih | brackets round inside rest _ ih =>
    obtain ⟨first, others⟩ := ih
    rw [parts]
    simp only [run.sizeOf_spec, value.sizeOf_spec, literal.sizeOf_spec, brackets.sizeOf_spec]
    exact ⟨by omega, fun part member => Nat.le_trans (others part member) (Nat.le_add_left _ _)⟩

theorem sizeOf_arguments {inside argument : Pieces} (member : argument ∈ inside.arguments) :
    sizeOf argument ≤ sizeOf inside := by
  obtain ⟨first, others⟩ := sizeOf_parts inside
  have trimmed : ∀ part : Pieces, sizeOf part.trim ≤ sizeOf part := fun part =>
    Nat.le_trans (sizeOf_trimEnd part.dropBlanks) (sizeOf_dropBlanks part)
  rcases List.mem_cons.mp (withoutEmptyLast_subset _ _ member) with rfl | member
  · exact Nat.le_trans (trimmed _) first
  · obtain ⟨part, found, rfl⟩ := List.mem_map.mp member
    exact Nat.le_trans (trimmed _) (others part found)

/-! ### How many arguments a call has -/

theorem isNil_trim (pieces : Pieces) : pieces.trim.isNil = pieces.trimEnd.isNil := by
  rw [trim, ← dropBlanks_trimEnd]
  induction pieces with
  | mark c rest ih =>
    rw [trimEnd_mark]
    split
    · rfl
    · rename_i solid
      rw [dropBlanks]
      split
      · rename_i space
        rw [ih]
        show _ = false
        simpa [space] using solid
      · rfl
  | _ => rfl

/-- The number of arguments depends on how many parts there are and on which of them are blank. -/
theorem length_withoutEmptyLast {others others' : List Pieces} : ∀ {first first' : Pieces}, first.isNil = first'.isNil →
    others.map isNil = others'.map isNil →
      (withoutEmptyLast first others).length = (withoutEmptyLast first' others').length := by
  induction others generalizing others' with
  | nil =>
    intro first first' same alike
    rw [List.map_eq_nil_iff.mp alike.symm, withoutEmptyLast, withoutEmptyLast, same]
    split <;> rfl
  | cons next others ih =>
    intro first first' same alike
    cases others' with
    | nil => cases alike
    | cons next' others' =>
      obtain ⟨head, tail⟩ := List.cons_eq_cons.mp alike
      rw [withoutEmptyLast, withoutEmptyLast, List.length_cons, List.length_cons, ih head tail]

end Pieces


/-! ### One pass -/

/-- The conditionals behind an edge replaced once. -/
def passedFrom (edge : Edge) (pieces : Pieces) : Option Pieces := replaceCalls conditionalName conditionalResult edge pieces

theorem descends_passedFrom : Descends (fun _ => false) passedFrom := descends_calls conditionalName conditionalResult

theorem passedFrom_call {edge : Edge} {cs : List Char} {rest behind : Pieces} {stands : Option (Pieces → Pieces)}
    (call : callAt conditionalName conditionalResult edge cs rest = some (stands, behind)) :
    ∃ inside condition whenTrue whenFalse, cs = conditionalName ∧ edge = .plain ∧ rest.callBehind = some (inside, behind) ∧
      inside.arguments = [condition, whenTrue, whenFalse] ∧
      passedFrom edge (.run cs rest) = (passedFrom .word behind).map (ternaryPieces condition whenTrue whenFalse) := by
  obtain ⟨name, plain, inside, called, known⟩ := callAt_spec call
  obtain ⟨condition, whenTrue, whenFalse, three, rfl⟩ := conditionalResult_spec known
  exact ⟨inside, condition, whenTrue, whenFalse, name, plain, called, three, replaceCalls_call call⟩

theorem commaFree_three {inside first second third : Pieces} (three : inside.arguments = [first, second, third]) :
    inside.commaFree = false := by
  refine Bool.eq_false_iff.mpr fun free => ?_
  rw [arguments, parts_commaFree free, List.map_nil, withoutEmptyLast] at three
  split at three <;> cases three

theorem parts_callBehind {rest inside behind : Pieces} (call : rest.callBehind = some (inside, behind)) :
    rest.parts.2 = behind.parts.2 := by
  induction rest with
  | mark c rest ih =>
    rw [callBehind] at call
    split at call
    · rename_i space
      have other : c ≠ ',' := by
        rintro rfl
        revert space
        decide
      rw [parts, if_neg other]
      exact ih call
    · cases call
  | brackets round within rest _ _ =>
    cases round with
    | true => cases call; rfl
    | false => cases call
  | _ => cases call

/-- A pass leaves as many parts as there were, and the same ones are blank. -/
theorem parts_passedFrom (pieces : Pieces) : ∀ {edge : Edge} {result : Pieces}, passedFrom edge pieces = some result →
    result.parts.1.trimEnd.isNil = pieces.parts.1.trimEnd.isNil ∧
      result.parts.2.map (fun part => part.trimEnd.isNil) = pieces.parts.2.map fun part => part.trimEnd.isNil := by
  induction pieces using smaller_induction with
  | further pieces smaller =>
  intro edge result stepped
  cases pieces with
  | nil =>
    rw [descends_passedFrom.ended] at stepped
    cases stepped
    exact ⟨rfl, rfl⟩
  | mark c rest =>
    rw [descends_passedFrom.mark edge c rest rfl] at stepped
    obtain ⟨inner, same, rfl⟩ := Option.map_eq_some_iff.mp stepped
    obtain ⟨first, others⟩ := smaller rest (by simp only [mark.sizeOf_spec]; omega) same
    rw [parts, parts]
    split
    · rw [List.map_cons, List.map_cons, first, others]
      exact ⟨rfl, rfl⟩
    · refine ⟨?_, others⟩
      rw [trimEnd_mark, trimEnd_mark, first]
      split <;> rfl
  | run cs rest =>
    cases call : callAt conditionalName conditionalResult edge cs rest with
    | none =>
      rw [passedFrom, replaceCalls_run call] at stepped
      obtain ⟨inner, same, rfl⟩ := Option.map_eq_some_iff.mp stepped
      exact ⟨rfl, (smaller rest (by simp only [run.sizeOf_spec]; omega) same).2⟩
    | some found =>
      obtain ⟨inside, condition, whenTrue, whenFalse, -, -, called, -, same⟩ := passedFrom_call call
      have less := (sizeOf_callBehind called).2
      rw [same] at stepped
      obtain ⟨inner, same, rfl⟩ := Option.map_eq_some_iff.mp stepped
      refine ⟨rfl, ?_⟩
      show inner.parts.2.map _ = rest.parts.2.map _
      rw [parts_callBehind called, (smaller _ (by simp only [run.sizeOf_spec]; omega) same).2]
  | value v rest =>
    rw [descends_passedFrom.value] at stepped
    obtain ⟨inner, same, rfl⟩ := Option.map_eq_some_iff.mp stepped
    exact ⟨rfl, (smaller rest (by simp only [value.sizeOf_spec]; omega) same).2⟩
  | literal quote content rest =>
    rw [descends_passedFrom.literal] at stepped
    obtain ⟨inner, same, rfl⟩ := Option.map_eq_some_iff.mp stepped
    exact ⟨rfl, (smaller rest (by simp only [literal.sizeOf_spec]; omega) same).2⟩
  | brackets round inside rest =>
    rw [descends_passedFrom.brackets] at stepped
    obtain ⟨within, -, stepped⟩ := Option.bind_eq_some_iff.mp stepped
    obtain ⟨inner, same, rfl⟩ := Option.map_eq_some_iff.mp stepped
    exact ⟨rfl, (smaller rest (by simp only [brackets.sizeOf_spec]; omega) same).2⟩

theorem conditionalResult_eq_none {inside : Pieces} : conditionalResult inside = none ↔ inside.arguments.length ≠ 3 := by
  unfold conditionalResult
  split
  · rename_i three
    simp [three]
  · rename_i other
    refine ⟨fun _ three => ?_, fun _ => rfl⟩
    obtain ⟨first, second, third, same⟩ := List.length_eq_three.mp three
    exact other _ _ _ same

theorem conditionalResult_passed {inside within : Pieces} (stepped : passedFrom .plain inside = some within)
    (free : conditionalResult inside = none) : conditionalResult within = none := by
  obtain ⟨first, others⟩ := parts_passedFrom inside stepped
  rw [conditionalResult_eq_none] at free ⊢
  have same : within.arguments.length = inside.arguments.length := by
    refine length_withoutEmptyLast ?_ ?_
    · rw [isNil_trim, isNil_trim, first]
    · simp only [List.map_map, Function.comp_def, isNil_trim]
      exact others
  rwa [same]

/-- No conditional starts with a word in front of these pieces. -/
def Inert (rest : Pieces) : Prop := ∀ {inside behind : Pieces}, rest.callBehind = some (inside, behind) → conditionalResult inside = none

theorem inert_of_callAt {edge : Edge} {cs : List Char} {rest : Pieces} (here : cs = conditionalName ∧ edge = .plain)
    (free : callAt conditionalName conditionalResult edge cs rest = none) : Inert rest := by
  intro inside behind called
  rw [callAt, if_pos here, called] at free
  simpa using free

theorem callAt_of_inert {edge : Edge} {cs : List Char} {rest : Pieces} (inert : cs = conditionalName ∧ edge = .plain → Inert rest) :
    callAt conditionalName conditionalResult edge cs rest = none := by
  unfold callAt
  split
  · rename_i here
    cases called : rest.callBehind with
    | none => rfl
    | some call => rw [Option.bind_some, inert here called, Option.map_none]
  · rfl

/-- Where no conditional stood, a pass makes none: what it writes is one argument. -/
theorem inert_passed {rest : Pieces} (inert : Inert rest) {edge : Edge} {result : Pieces}
    (stepped : passedFrom edge rest = some result) : Inert result := by
  induction rest generalizing edge result with
  | nil =>
    rw [descends_passedFrom.ended] at stepped
    cases stepped
    exact inert
  | mark c rest ih =>
    rw [descends_passedFrom.mark edge c rest rfl] at stepped
    obtain ⟨inner, same, rfl⟩ := Option.map_eq_some_iff.mp stepped
    intro inside behind called
    rw [callBehind] at called
    split at called
    · rename_i space
      refine ih (fun {_ behind} called => @inert _ behind ?_) same called
      rwa [callBehind, if_pos space]
    · cases called
  | run cs rest _ =>
    intro inside behind called
    cases call : callAt conditionalName conditionalResult edge cs rest with
    | none =>
      rw [passedFrom, replaceCalls_run call] at stepped
      obtain ⟨inner, same, rfl⟩ := Option.map_eq_some_iff.mp stepped
      cases called
    | some found =>
      obtain ⟨_, condition, whenTrue, whenFalse, -, -, -, -, same⟩ := passedFrom_call call
      rw [same] at stepped
      obtain ⟨inner, -, rfl⟩ := Option.map_eq_some_iff.mp stepped
      cases called
      rfl
  | value v rest _ =>
    rw [descends_passedFrom.value] at stepped
    obtain ⟨inner, -, rfl⟩ := Option.map_eq_some_iff.mp stepped
    intro inside behind called
    cases called
  | literal quote content rest _ =>
    rw [descends_passedFrom.literal] at stepped
    obtain ⟨inner, -, rfl⟩ := Option.map_eq_some_iff.mp stepped
    intro inside behind called
    cases called
  | brackets round inside rest _ _ =>
    rw [descends_passedFrom.brackets] at stepped
    obtain ⟨within, first, stepped⟩ := Option.bind_eq_some_iff.mp stepped
    obtain ⟨inner, -, rfl⟩ := Option.map_eq_some_iff.mp stepped
    intro inside' behind called
    cases round with
    | true =>
      cases called
      exact conditionalResult_passed first (inert rfl)
    | false => cases called

/-! ### Further passes -/

def passesFrom : Nat → Edge → Pieces → Option Pieces
  | 0, _, pieces => some pieces
  | passes + 1, edge, pieces => (passedFrom edge pieces).bind (passesFrom passes edge)

theorem converted_eq (passes : Nat) : ∀ pieces, converted passes pieces = passesFrom passes .plain pieces := by
  induction passes with
  | zero => exact fun _ => rfl
  | succ passes ih =>
    intro pieces
    rw [converted, passesFrom, funext ih]
    rfl

/-- The passes go through what one pass goes through, as long as one pass keeps what it depends on. -/
theorem passes_through {edge next : Edge} {add : Pieces → Pieces} {fits : Pieces → Prop}
    (through : ∀ rest, fits rest → passedFrom edge (add rest) = (passedFrom next rest).map add)
    (keeps : ∀ rest result, fits rest → passedFrom next rest = some result → fits result) (passes : Nat) :
    ∀ rest, fits rest → passesFrom passes edge (add rest) = (passesFrom passes next rest).map add := by
  induction passes with
  | zero => exact fun _ _ => rfl
  | succ passes ih =>
    intro rest fit
    rw [passesFrom, passesFrom, through rest fit]
    cases same : passedFrom next rest with
    | none => rfl
    | some result => exact ih result (keeps rest result fit same)

theorem passes_mark (passes : Nat) (edge : Edge) (c : Char) (rest : Pieces) :
    passesFrom passes edge (.mark c rest) = (passesFrom passes (.behind (some c)) rest).map (.mark c) :=
  passes_through (fun rest _ => descends_passedFrom.mark edge c rest rfl) (fun _ _ _ _ => trivial) passes rest trivial

theorem passes_brackets (passes : Nat) : ∀ (edge : Edge) (round : Bool) (inside rest : Pieces),
    passesFrom passes edge (.brackets round inside rest) = (passesFrom passes .plain inside).bind fun within =>
      (passesFrom passes .plain rest).map (.brackets round within) := by
  induction passes with
  | zero => exact fun _ _ _ _ => rfl
  | succ passes ih =>
    intro edge round inside rest
    rw [passesFrom, descends_passedFrom.brackets, passesFrom, passesFrom]
    cases passedFrom .plain inside with
    | none => rfl
    | some within =>
      cases passedFrom .plain rest with
      | none =>
        show none = (passesFrom passes .plain within).bind fun _ => none
        cases passesFrom passes .plain within <;> rfl
      | some result => exact ih edge round within result

/-- No word stands behind a word, so the edge tells nothing there. -/
theorem passedFrom_word {pieces : Pieces} {callee : Callee} {found : Argument}
    (fits : pieces.orderly false .word callee found = true) (edge : Edge) : passedFrom .word pieces = passedFrom edge pieces := by
  cases pieces with
  | nil => rw [descends_passedFrom.ended, descends_passedFrom.ended]
  | mark c rest => rw [descends_passedFrom.mark .word c rest rfl, descends_passedFrom.mark edge c rest rfl]
  | run cs rest => exact absurd rfl (orderly_run.mp fits).1
  | value v rest => rw [descends_passedFrom.value, descends_passedFrom.value]
  | literal quote content rest => rw [descends_passedFrom.literal, descends_passedFrom.literal]
  | brackets round inside rest => rw [descends_passedFrom.brackets, descends_passedFrom.brackets]

theorem passes_branches {passes : Nat} {condition whenTrue whenFalse : Pieces}
    (settled : ∀ part ∈ [condition, whenTrue, whenFalse], passesFrom (passes + 1) .plain part = passesFrom passes .plain part) :
    passesFrom (passes + 1) .plain (branches false condition whenTrue whenFalse) =
      passesFrom passes .plain (branches false condition whenTrue whenFalse) := by
  have signs : Edge.behind (some '?') = .plain ∧ Edge.behind (some ':') = .plain := by decide
  have nothing : ∀ passes, passesFrom passes .plain .nil = some .nil := by
    intro passes
    induction passes with
    | zero => rfl
    | succ passes ih =>
      rw [passesFrom, descends_passedFrom.ended]
      exact ih
  simp only [branches, gap, Bool.false_eq_true, if_false, passes_brackets, passes_mark, signs, nothing,
    settled condition (by simp), settled whenTrue (by simp), settled whenFalse (by simp)]

/-- As many passes as calls of a conditional are nested leave nothing to a further one. -/
theorem passes_settle (pieces : Pieces) : ∀ {passes : Nat} {edge around : Edge} {callee : Callee} {called : Bool} {found : Argument},
    around = .word ∨ around = edge → pieces.orderly false around callee found = true → nesting called pieces ≤ passes →
      passesFrom (passes + 1) edge pieces = passesFrom passes edge pieces := by
  induction pieces using smaller_induction with
  | further pieces smaller =>
  intro passes edge around callee called found edges fits less
  cases pieces with
  | nil =>
    rw [passesFrom, descends_passedFrom.ended]
    rfl
  | mark c rest =>
    obtain ⟨-, -, -, fits⟩ := orderly_mark.mp fits
    rw [passes_mark, passes_mark, smaller rest (by simp only [mark.sizeOf_spec]; omega) (.inr rfl) fits less]
  | run cs rest =>
    obtain ⟨-, -, -, -, tail⟩ := orderly_run.mp fits
    cases call : callAt conditionalName conditionalResult edge cs rest with
    | none =>
      have through : ∀ passes, passesFrom passes edge (.run cs rest) = (passesFrom passes .word rest).map (.run cs) := by
        intro passes
        refine @passes_through _ _ _ (fun rest => cs = conditionalName ∧ edge = .plain → Inert rest) ?_ ?_ passes rest ?_
        · exact fun rest inert => replaceCalls_run (callAt_of_inert inert)
        · exact fun rest result inert stepped here => inert_passed (inert here) stepped
        · exact fun here => inert_of_callAt here call
      rw [through, through, smaller rest (by simp only [run.sizeOf_spec]; omega) (.inl rfl) tail less]
    | some parts =>
      obtain ⟨stands, behind⟩ := parts
      obtain ⟨inside, condition, whenTrue, whenFalse, rfl, rfl, call, three, once⟩ := passedFrom_call call
      obtain ⟨within, beyond⟩ := orderly_callBehind call (Callee.ofWord_ne _ _) tail
      have shorter := sizeOf_callBehind call
      rw [nesting, beq_self_eq_true, nesting_callBehind call (commaFree_three three)] at less
      obtain ⟨deep, further⟩ := Nat.max_le.mp less
      cases passes with
      | zero => cases deep
      | succ passes =>
        have argument : ∀ argument ∈ inside.arguments,
            passesFrom (passes + 1) .plain argument = passesFrom passes .plain argument := by
          intro argument member
          have size := sizeOf_arguments member
          have fits := (passed_arguments (Callee.opens_after _ _) within argument member).orderly
          exact smaller argument (by simp only [run.sizeOf_spec]; omega) (.inr rfl) fits
            (Nat.le_trans (nesting_arguments member) (Nat.le_of_succ_le_succ deep))
        rw [three] at argument
        have settled := @smaller behind (by simp only [run.sizeOf_spec]; omega) (passes + 1) .plain _ _ _ _ (.inl rfl) beyond further
        rw [passesFrom, passesFrom, ← passedFrom_word beyond] at settled
        rw [passesFrom, passesFrom, once]
        cases same : passedFrom .word behind with
        | none => rfl
        | some result =>
          rw [same, Option.bind_some, Option.bind_some] at settled
          show passesFrom (passes + 1) .plain (.brackets true (branches false condition whenTrue whenFalse) result) =
            passesFrom passes .plain (.brackets true (branches false condition whenTrue whenFalse) result)
          rw [passes_brackets, passes_brackets, passes_branches argument, settled]
  | value v rest =>
    have through : ∀ passes, passesFrom passes edge (.value v rest) = (passesFrom passes .word rest).map (.value v) := fun passes =>
      passes_through (fun rest _ => descends_passedFrom.value edge v rest) (fun _ _ _ _ => trivial) passes rest trivial
    obtain ⟨-, -, fits⟩ := orderly_value.mp fits
    rw [through, through, smaller rest (by simp only [value.sizeOf_spec]; omega) (.inl rfl) fits less]
  | literal quote content rest =>
    have through : ∀ passes, passesFrom passes edge (.literal quote content rest) =
        (passesFrom passes .plain rest).map (.literal quote content) := fun passes =>
      passes_through (fun rest _ => descends_passedFrom.literal edge quote content rest) (fun _ _ _ _ => trivial) passes rest trivial
    obtain ⟨-, -, fits⟩ := orderly_literal.mp fits
    rw [through, through, smaller rest (by simp only [literal.sizeOf_spec]; omega) (.inr rfl) fits less]
  | brackets round inside rest =>
    obtain ⟨within, fits⟩ := orderly_brackets.mp fits
    obtain ⟨deep, further⟩ := Nat.max_le.mp less
    rw [passes_brackets, passes_brackets,
      smaller rest (by simp only [brackets.sizeOf_spec]; omega) (callee.edge_cases round) fits further,
      smaller inside (by simp only [brackets.sizeOf_spec]; omega) (.inr rfl) within (Nat.le_trans (Nat.le_add_right _ _) deep)]

/-! ### The replacement of variables -/

namespace Pieces

theorem nesting_mark {c : Char} {called : Bool} {rest : Pieces} (solid : Text.isSpace c = false) :
    nesting called (.mark c rest) = nesting false rest := by
  rw [nesting, solid, Bool.and_false]

/-- A letter that is no `i` starts no name of a conditional. -/
theorem nesting_consChar {c : Char} (other : c ≠ 'i') (solid : Text.isSpace c = false) (called : Bool) (rest : Pieces) :
    nesting called (consChar c rest) ≤ nesting false rest := by
  have named : ∀ cs rest, nesting called (.run (c :: cs) rest) = nesting false rest := by
    intro cs rest
    have free : (c :: cs == conditionalName) = false := by
      refine beq_eq_false_iff_ne.mpr fun same => other ?_
      cases same
      rfl
    rw [nesting, free]
  cases word : Text.isWord c with
  | false => exact Nat.le_of_eq (by rw [consChar_mark word, nesting_mark solid])
  | true =>
    cases rest with
    | run cs rest =>
      rw [consChar, if_pos word, named]
      exact nesting_called rest _
    | _ => simp [consChar, word, named]

theorem nesting_textPieces {text : List Char} (nonempty : text ≠ []) (bare : ∀ c ∈ text, Json.isBare c = true)
    (other : 'i' ∉ text) (called : Bool) (rest : Pieces) : nesting called (textPieces text rest) ≤ nesting false rest := by
  induction text generalizing called with
  | nil => exact absurd rfl nonempty
  | cons c text ih =>
    obtain ⟨-, -, -, solid, -⟩ := isBare_spec (bare c List.mem_cons_self)
    rw [List.mem_cons, not_or] at other
    obtain ⟨differs, others⟩ := other
    have first := nesting_consChar (Ne.symm differs) solid called (textPieces text rest)
    cases text with
    | nil => exact first
    | cons d text =>
      have behind : ∀ e ∈ d :: text, Json.isBare e = true := fun e member => bare e (List.mem_cons_of_mem c member)
      exact Nat.le_trans first (ih (List.cons_ne_nil _ _) behind others false)

/-- What stands for a value holds no conditional, and starts none with what follows. -/
theorem nesting_literalPieces {value : Value} {add : Pieces → Pieces} (stands : literalPieces value = some add) (called : Bool)
    (rest : Pieces) : nesting called (add rest) ≤ nesting false rest := by
  have signed : ∀ (negative : Bool) {text : List Char}, text ≠ [] ∧ (∀ c ∈ text, Json.isBare c = true) → 'i' ∉ text →
      nesting called (signedPieces negative text rest) ≤ nesting false rest := by
    rintro negative text ⟨nonempty, bare⟩ other
    cases negative with
    | false => exact nesting_textPieces nonempty bare other called rest
    | true =>
      have comma : (textPieces text .nil).commaFree = true := (solid_text nonempty bare).commaFree .nil
      have none : nesting false (textPieces text .nil) = 0 := Nat.le_zero.mp (nesting_textPieces nonempty bare other false .nil)
      show nesting called (.brackets true (textPieces text .nil) rest) ≤ _
      rw [nesting, comma, none]
      simp
  unfold literalPieces at stands
  split at stands
  · rename_i b
    cases stands
    cases b
    · exact nesting_textPieces (by decide) (List.all_eq_true.mp (by decide)) (by decide) called rest
    · exact nesting_textPieces (by decide) (List.all_eq_true.mp (by decide)) (by decide) called rest
  · split at stands
    · cases stands
    · obtain ⟨text, shown, rfl⟩ := Option.map_eq_some_iff.mp stands
      rename_i n _
      cases found : showInt n with
      | error failure => rw [found] at shown; cases shown
      | ok shownText =>
        rw [found] at shown
        cases shown
        refine signed _ (bare_showInt found) fun member => ?_
        rw [Json.showInt_text found] at member
        rcases Json.toList_toString_int n _ member with digit | minus
        · cases digit
        · cases minus
  · split at stands
    · rename_i x finite
      cases stands
      refine signed _ (bare_shortestText x) fun member => ?_
      cases decoded : Number.decode x with
      | finite d =>
        have numeral := (Json.shortestText_chars decoded).1 _ member
        revert numeral
        unfold Number.IsNumeral
        decide
      | _ =>
        rw [Number.isFinite, decoded] at finite
        cases finite
    · cases stands
      exact Nat.le_refl _
  · cases stands
    exact Nat.le_refl _

theorem nesting_variable {symbols : Bindings} {name : String} {add : Pieces → Pieces}
    (stands : variablePieces symbols name = some add) (called : Bool) (rest : Pieces) :
    nesting called (add rest) ≤ nesting false rest := by
  unfold variablePieces at stands
  split at stands
  · cases stands
    exact nesting_textPieces (by decide) (List.all_eq_true.mp (by decide)) (by decide) called rest
  · exact nesting_literalPieces stands called rest

end Pieces

/-- The values of variables hold no conditionals. -/
theorem nesting_substituted (symbols : Bindings) (pieces : Pieces) : ∀ {called : Bool} {result : Pieces},
    substituted symbols pieces = some result → nesting called result ≤ nesting called pieces := by
  induction pieces using smaller_induction with
  | further pieces smaller =>
  intro called result stepped
  cases pieces with
  | nil =>
    cases stepped
    exact Nat.le_refl _
  | mark c rest =>
    by_cases sign : c = '$' ∧ rest.startsName = true
    · obtain ⟨rfl, starts⟩ := sign
      cases rest with
      | run cs rest =>
        rw [substituted_name symbols starts] at stepped
        obtain ⟨add, stands, stepped⟩ := Option.bind_eq_some_iff.mp stepped
        obtain ⟨inner, same, rfl⟩ := Option.map_eq_some_iff.mp stepped
        have less : nesting false inner ≤ nesting false rest :=
          smaller rest (by simp only [mark.sizeOf_spec, run.sizeOf_spec]; omega) same
        calc nesting called (add inner) ≤ nesting false inner := nesting_variable stands called inner
          _ ≤ nesting false rest := less
          _ ≤ nesting (cs == conditionalName) rest := nesting_called rest _
      | _ => cases starts
    · have other : c ≠ '$' ∨ rest.startsName = false := by
        by_cases same : c = '$'
        · exact .inr (Bool.not_eq_true _ ▸ fun starts => sign ⟨same, starts⟩)
        · exact .inl same
      rw [substituted_mark other] at stepped
      obtain ⟨inner, same, rfl⟩ := Option.map_eq_some_iff.mp stepped
      exact smaller rest (by simp only [mark.sizeOf_spec]; omega) same
  | run cs rest =>
    obtain ⟨inner, same, rfl⟩ := Option.map_eq_some_iff.mp stepped
    exact smaller rest (by simp only [run.sizeOf_spec]; omega) same
  | value v rest =>
    obtain ⟨inner, same, rfl⟩ := Option.map_eq_some_iff.mp stepped
    exact smaller rest (by simp only [value.sizeOf_spec]; omega) same
  | literal quote content rest =>
    obtain ⟨inner, same, rfl⟩ := Option.map_eq_some_iff.mp stepped
    exact smaller rest (by simp only [literal.sizeOf_spec]; omega) same
  | brackets round inside rest =>
    obtain ⟨within, first, stepped⟩ := Option.bind_eq_some_iff.mp stepped
    obtain ⟨inner, same, rfl⟩ := Option.map_eq_some_iff.mp stepped
    have deep : nesting false within ≤ nesting false inside := smaller inside (by simp only [brackets.sizeOf_spec]; omega) first
    have further : nesting false inner ≤ nesting false rest := smaller rest (by simp only [brackets.sizeOf_spec]; omega) same
    rw [nesting, nesting, commaFree_substituted symbols inside within first]
    omega

/-- Conditionals nested no deeper than the bound on passes are all converted. -/
theorem settles_of_nesting {setting : Setting} {pieces : Pieces} {found : Argument}
    (fits : pieces.orderly true .plain .none found = true) (less : nesting false pieces ≤ setting.maxPasses) :
    Settles setting pieces := by
  intro replaced stepped
  have start : Edge.plain = .word ∨ Edge.plain = .plain := .inr rfl
  have keeps := ((rewrites_variables setting "" pieces).keeps start fits replaced stepped).1
  rw [converted_eq, converted_eq]
  exact passes_settle replaced (.inr rfl) keeps (Nat.le_trans (nesting_substituted _ _ stepped) less)

/-! ### The nesting of a conditional -/

namespace Pieces

theorem nesting_append (first second : Pieces) : ∀ called,
    nesting called (first.append (.mark ',' second)) = max (nesting called first) (nesting false second) := by
  induction first with
  | nil =>
    intro called
    rw [Pieces.append, nesting_mark (by decide), nesting, Nat.zero_max]
  | mark c rest ih | run cs rest ih | value v rest ih | literal quote content rest ih => exact fun _ => ih _
  | brackets round inside rest _ ih =>
    intro called
    rw [Pieces.append, nesting, nesting, ih, Nat.max_assoc]

/-- A conditional is nested one deeper than its parts. -/
theorem nesting_conditionalCall {condition whenTrue whenFalse : Pieces} {bound : Nat}
    (nested : ∀ part ∈ [condition, whenTrue, whenFalse], nesting false part < bound) :
    nesting false (conditionalCall condition whenTrue whenFalse) ≤ bound := by
  have inside : nesting false (separated condition whenTrue whenFalse) < bound := by
    rw [separated, nesting_append, nesting_append]
    exact Nat.max_lt.mpr ⟨nested _ (by simp), Nat.max_lt.mpr ⟨nested _ (by simp), nested _ (by simp)⟩⟩
  rw [conditionalCall, nesting, nesting]
  refine Nat.max_le.mpr ⟨?_, Nat.zero_le _⟩
  split <;> omega

end Pieces

end ProceduralScene.Expression
