import ProceduralScene.Proofs.PieceReduction

/-!
The steps of the reduction commute with the removal of surrounding blanks, so that pieces reduce alike on their own and
as an argument or between parentheses.
-/

set_option autoImplicit false

namespace ProceduralScene.Expression

open Pieces

/-! ### Blanks around pieces -/

namespace Pieces

theorem eq_nil_of_isNil {pieces : Pieces} (empty : pieces.isNil = true) : pieces = .nil := by
  cases pieces <;> first | rfl | cases empty

theorem trimEnd_mark (c : Char) (rest : Pieces) :
    (Pieces.mark c rest).trimEnd = if Text.isSpace c && rest.trimEnd.isNil then .nil else .mark c rest.trimEnd := rfl

theorem dropBlanks_dropBlanks (pieces : Pieces) : pieces.dropBlanks.dropBlanks = pieces.dropBlanks := by
  induction pieces with
  | mark c rest ih =>
    rw [dropBlanks]
    split
    · exact ih
    · rename_i solid
      rw [dropBlanks, if_neg solid]
  | _ => rfl

theorem trimEnd_trimEnd (pieces : Pieces) : pieces.trimEnd.trimEnd = pieces.trimEnd := by
  induction pieces with
  | nil => rfl
  | mark c rest ih =>
    rw [trimEnd_mark]
    split
    · rfl
    · rename_i solid
      rw [trimEnd_mark, ih, if_neg solid]
  | run cs rest ih | value v rest ih | literal quote content rest ih | brackets round inside rest _ ih =>
    rw [trimEnd, trimEnd, ih]

theorem dropBlanks_trimEnd (pieces : Pieces) : pieces.trimEnd.dropBlanks = pieces.dropBlanks.trimEnd := by
  induction pieces with
  | mark c rest ih =>
    rw [trimEnd_mark]
    split
    · rename_i both
      rw [Bool.and_eq_true] at both
      rw [dropBlanks, if_pos both.1, ← ih, eq_nil_of_isNil both.2]
    · rename_i solid
      rw [dropBlanks, dropBlanks]
      split
      · exact ih
      · rw [trimEnd_mark, if_neg solid]
  | _ => rfl

theorem trim_trim (pieces : Pieces) : pieces.trim.trim = pieces.trim := by
  rw [trim, trim, dropBlanks_trimEnd, dropBlanks_dropBlanks, trimEnd_trimEnd]

theorem callBehind_trimEnd (rest : Pieces) :
    rest.trimEnd.callBehind = rest.callBehind.map fun call => (call.1, call.2.trimEnd) := by
  induction rest with
  | mark c rest ih =>
    rw [trimEnd_mark, callBehind]
    split
    · rename_i both
      rw [Bool.and_eq_true] at both
      rw [if_pos both.1, ← ih, eq_nil_of_isNil both.2]
    · rw [callBehind]
      split
      · exact ih
      · rfl
  | brackets round inside rest _ _ => cases round <;> rfl
  | _ => rfl

theorem mentions_dropBlanks (name : List Char) (pieces : Pieces) : pieces.dropBlanks.mentions name = pieces.mentions name := by
  induction pieces with
  | mark c rest ih =>
    rw [dropBlanks]
    split
    · exact ih
    · rfl
  | _ => rfl

theorem mentions_trimEnd (name : List Char) (pieces : Pieces) : pieces.trimEnd.mentions name = pieces.mentions name := by
  induction pieces with
  | nil => rfl
  | mark c rest ih =>
    rw [trimEnd_mark]
    split
    · rename_i both
      rw [Bool.and_eq_true] at both
      show _ = rest.mentions name
      rw [← ih, eq_nil_of_isNil both.2]
    · exact ih
  | run cs rest ih | value v rest ih | literal quote content rest ih | brackets round inside rest _ ih =>
    rw [trimEnd, mentions, mentions, ih]

theorem mentions_trim (name : List Char) (pieces : Pieces) : pieces.trim.mentions name = pieces.mentions name := by
  rw [trim, mentions_trimEnd, mentions_dropBlanks]

end Pieces

/-! ### Steps that commute with trimming -/

structure Trims (step : Edge → Pieces → Option Pieces) (pieces : Pieces) : Prop where
  start : step .plain pieces.dropBlanks = (step .plain pieces).map dropBlanks
  ending : ∀ edge, step edge pieces.trimEnd = (step edge pieces).map trimEnd
  blank : ∀ edge result, step edge pieces = some result → result.trimEnd.isNil = pieces.trimEnd.isNil

section

variable {own : Char → Bool} {step : Edge → Pieces → Option Pieces} {rest : Pieces}

/-- A step that fails, or puts solid pieces in front of what it makes of the pieces behind. -/
def PutsFirst (step : Edge → Pieces → Option Pieces) (pieces : Pieces) (edge : Edge) : Prop :=
  (step edge pieces = none ∧ step edge pieces.trimEnd = none) ∨ ∃ next rest add, Solid add ∧ Trims step rest ∧
    step edge pieces = (step next rest).map add ∧ step edge pieces.trimEnd = (step next rest.trimEnd).map add

theorem trims_first {pieces : Pieces} (start : pieces.dropBlanks = pieces) (nonempty : pieces.trimEnd.isNil = false)
    (puts : ∀ edge, PutsFirst step pieces edge) : Trims step pieces where
  start := by
    rcases puts .plain with ⟨same, -⟩ | ⟨next, rest, add, solid, -, same, -⟩
    · rw [start, same]
      rfl
    · rw [start, same, Option.map_map]
      congr 1
      funext result
      exact (solid.dropBlanks result).symm
  ending edge := by
    rcases puts edge with ⟨same, same'⟩ | ⟨next, rest, add, solid, ih, same, same'⟩
    · rw [same, same']
      rfl
    · rw [same, same', ih.ending, Option.map_map, Option.map_map]
      congr 1
      funext result
      exact (solid.trimEnd result).symm
  blank edge result stepped := by
    rcases puts edge with ⟨same, -⟩ | ⟨next, rest, add, solid, -, same, -⟩
    · rw [same] at stepped
      cases stepped
    · rw [same] at stepped
      obtain ⟨inner, -, rfl⟩ := Option.map_eq_some_iff.mp stepped
      rw [solid.trimEnd, solid.isNil, nonempty]

theorem trims_mark (descends : Descends own step) {c : Char} (foreign : own c = false) (ih : Trims step rest) :
    Trims step (.mark c rest) where
  start := by
    rw [descends.mark .plain c rest foreign, Option.map_map, dropBlanks]
    split
    · rename_i space
      rw [ih.start, behind_space space]
      congr 1
      funext result
      rw [Function.comp_apply, dropBlanks, if_pos space]
    · rename_i solid
      rw [descends.mark .plain c rest foreign]
      congr 1
      funext result
      rw [Function.comp_apply, dropBlanks, if_neg solid]
  ending edge := by
    have ends := ih.ending (.behind (some c))
    rw [descends.mark edge c rest foreign, trimEnd_mark]
    cases same : step (.behind (some c)) rest with
    | none =>
      rw [same] at ends
      split
      · rename_i both
        rw [Bool.and_eq_true] at both
        rw [eq_nil_of_isNil both.2, descends.ended] at ends
        cases ends
      · rw [descends.mark edge c _ foreign, ends]
        rfl
    | some result =>
      rw [same] at ends
      simp only [Option.map_some]
      rw [trimEnd_mark, ih.blank _ result same]
      split
      · exact descends.ended edge
      · rw [descends.mark edge c _ foreign, ends]
        rfl
  blank edge result stepped := by
    rw [descends.mark edge c rest foreign] at stepped
    obtain ⟨inner, same, rfl⟩ := Option.map_eq_some_iff.mp stepped
    rw [trimEnd_mark, trimEnd_mark, ih.blank _ inner same]
    split <;> rfl

theorem trims_brackets (descends : Descends own step) {round : Bool} {inside : Pieces} (ih : Trims step rest) :
    Trims step (.brackets round inside rest) where
  start := by
    show step .plain (.brackets round inside rest) = _
    rw [descends.brackets .plain round inside rest, Option.map_bind]
    congr 1
    funext within
    rw [Function.comp_apply, Option.map_map]
    rfl
  ending edge := by
    show step edge (.brackets round inside rest.trimEnd) = _
    rw [descends.brackets edge round inside rest.trimEnd, descends.brackets edge round inside rest, ih.ending, Option.map_bind]
    congr 1
    funext within
    rw [Function.comp_apply, Option.map_map, Option.map_map]
    rfl
  blank edge result stepped := by
    rw [descends.brackets edge round inside rest] at stepped
    obtain ⟨within, -, stepped⟩ := Option.bind_eq_some_iff.mp stepped
    obtain ⟨inner, -, rfl⟩ := Option.map_eq_some_iff.mp stepped
    rfl

/-- A step that goes through what is not its own commutes with trimming when it does so for its own. -/
theorem trims_descends (descends : Descends own step)
    (marks : ∀ c rest, own c = true → (∀ smaller, sizeOf smaller < sizeOf (Pieces.mark c rest) → Trims step smaller) →
      Trims step (.mark c rest))
    (runs : ∀ cs rest, (∀ smaller, sizeOf smaller < sizeOf (Pieces.run cs rest) → Trims step smaller) →
      Trims step (.run cs rest)) (pieces : Pieces) : Trims step pieces := by
  refine smaller_induction (fun pieces smaller => ?_) pieces
  cases pieces with
  | nil =>
    refine ⟨?_, fun edge => ?_, fun edge result stepped => ?_⟩
    · rw [dropBlanks, descends.ended]
      · rfl
      · simp
    · rw [trimEnd, descends.ended]
      rfl
    · rw [descends.ended] at stepped
      cases stepped
      rfl
  | mark c rest =>
    cases mine : own c with
    | true => exact marks c rest mine smaller
    | false => exact trims_mark descends mine (smaller rest (by simp only [mark.sizeOf_spec]; omega))
  | run cs rest => exact runs cs rest smaller
  | value v rest =>
    have ih := smaller rest (by simp only [value.sizeOf_spec]; omega)
    exact trims_first rfl rfl fun edge =>
      .inr ⟨.word, rest, _, solid_value v, ih, descends.value edge v rest, descends.value edge v rest.trimEnd⟩
  | literal quote content rest =>
    have ih := smaller rest (by simp only [literal.sizeOf_spec]; omega)
    exact trims_first rfl rfl fun edge => .inr ⟨.plain, rest, _, solid_quotation quote content, ih,
      descends.literal edge quote content rest, descends.literal edge quote content rest.trimEnd⟩
  | brackets round inside rest => exact trims_brackets descends (smaller rest (by simp only [brackets.sizeOf_spec]; omega))

theorem step_trim {pieces : Pieces} (trims : ∀ pieces, Trims step pieces) :
    step .plain pieces.trim = (step .plain pieces).map trim := by
  rw [trim, (trims _).ending, (trims _).start, Option.map_map]
  rfl

theorem isNil_step {pieces result : Pieces} (trims : ∀ pieces, Trims step pieces) (stepped : step .plain pieces = some result) :
    result.trim.isNil = pieces.trim.isNil := by
  have started := (trims pieces).start
  rw [stepped] at started
  exact (trims pieces.dropBlanks).blank .plain result.dropBlanks started

end

/-! ### The steps of the reduction -/

theorem trims_words {word : List Char} {add : Pieces → Pieces} (solid : Solid add) (pieces : Pieces) :
    Trims (replaceWord word add) pieces := by
  refine trims_descends (descends_words word add) (fun _ _ own => nomatch own) (fun cs rest smaller => ?_) pieces
  refine trims_first rfl rfl fun edge => .inr ⟨.word, rest, _, ?_, smaller rest (by simp only [run.sizeOf_spec]; omega), rfl, ?_⟩
  · split
    · exact solid
    · exact solid_run cs
  · rw [trimEnd, replaceWord, callBehind_trimEnd]
    simp only [Option.map_eq_none_iff]

theorem trims_calls {name : List Char} {result : Pieces → Option (Option (Pieces → Pieces))}
    (solid : ∀ inside add, result inside = some (some add) → Solid add) (pieces : Pieces) :
    Trims (replaceCalls name result) pieces := by
  refine trims_descends (descends_calls name result) (fun _ _ own => nomatch own) (fun cs rest smaller => ?_) pieces
  refine trims_first rfl rfl fun edge => ?_
  have trimmed : callAt name result edge cs rest.trimEnd =
      (callAt name result edge cs rest).map fun call => (call.1, call.2.trimEnd) := by
    unfold callAt
    rw [callBehind_trimEnd]
    split
    · cases rest.callBehind with
      | none => rfl
      | some call =>
        simp only [Option.map_some, Option.bind_some, Option.map_map]
        rfl
    · rfl
  cases call : callAt name result edge cs rest with
  | none =>
    rw [call] at trimmed
    exact .inr ⟨.word, rest, _, solid_run cs, smaller rest (by simp only [run.sizeOf_spec]; omega), replaceCalls_run call,
      replaceCalls_run trimmed⟩
  | some parts =>
    obtain ⟨stands, behind⟩ := parts
    rw [call] at trimmed
    obtain ⟨-, -, inside, called, known⟩ := callAt_spec call
    have less := (sizeOf_callBehind called).2
    have whole := replaceCalls_call call
    have ended := replaceCalls_call trimmed
    cases stands with
    | none => exact .inl ⟨whole, ended⟩
    | some add =>
      exact .inr ⟨.word, behind, add, solid inside add known, smaller behind (by simp only [run.sizeOf_spec]; omega), whole, ended⟩

theorem trims_variables (symbols : Bindings) (pieces : Pieces) : Trims (fun _ => substituted symbols) pieces := by
  refine trims_descends (descends_variables symbols) (fun c rest own smaller => ?_) (fun cs rest smaller => ?_) pieces
  · have sign : c = '$' := by simpa using own
    subst sign
    have solid : Solid (.mark '$') := solid_mark (by decide) (by decide)
    have ends : (Pieces.mark '$' rest).trimEnd = .mark '$' rest.trimEnd := solid.trimEnd rest
    refine trims_first (solid.dropBlanks rest) (by rw [ends]; rfl) fun edge => ?_
    rw [PutsFirst, ends]
    cases starts : rest.startsName with
    | false =>
      have starts' : rest.trimEnd.startsName = false := by rw [(startsName_trimEnd rest).1, starts]
      exact .inr ⟨.plain, rest, _, solid, smaller rest (by simp only [mark.sizeOf_spec]; omega), substituted_mark (.inr starts),
        substituted_mark (.inr starts')⟩
    | true =>
      cases rest with
      | run cs rest =>
        have replaced : ∀ rest, substituted symbols (.mark '$' (.run cs rest)) =
            (variablePieces symbols (String.ofList cs)).bind fun add => (substituted symbols rest).map add := by
          intro rest
          rw [substituted, if_pos ⟨rfl, by cases cs <;> exact starts⟩]
        rw [trimEnd, replaced, replaced]
        cases stands : variablePieces symbols (String.ofList cs) with
        | none => exact .inl ⟨rfl, rfl⟩
        | some add =>
          exact .inr ⟨.word, rest, add, (operand_variable stands).toSolid,
            smaller rest (by simp only [mark.sizeOf_spec, run.sizeOf_spec]; omega), rfl, rfl⟩
      | _ => cases starts
  · exact trims_first rfl rfl fun edge =>
      .inr ⟨.word, rest, _, solid_run cs, smaller rest (by simp only [run.sizeOf_spec]; omega), rfl, rfl⟩

/-! ### The whole reduction -/

/-- The step commutes with the removal of surrounding blanks. -/
def KeepsTrim (step : Pieces → Option Pieces) : Prop := ∀ pieces, step pieces.trim = (step pieces).map trim

theorem keepsTrim_bind {step next : Pieces → Option Pieces} (keeps : KeepsTrim step) (further : KeepsTrim next) :
    KeepsTrim fun pieces => (step pieces).bind next := by
  intro pieces
  dsimp only
  rw [keeps]
  cases step pieces with
  | none => rfl
  | some result => exact further result

theorem keepsTrim_some : KeepsTrim some := fun _ => rfl

theorem keepsTrim_converted (passes : Nat) : KeepsTrim (converted passes) := by
  induction passes with
  | zero => exact keepsTrim_some
  | succ passes ih =>
    refine keepsTrim_bind (fun pieces => step_trim (trims_calls fun inside add known => ?_)) ih
    obtain ⟨condition, whenTrue, whenFalse, -, same⟩ := conditionalResult_spec known
    cases same
    exact solid_brackets true _

theorem keepsTrim_functions (evaluate : Pieces → Option Value) (functions : List (String × Function)) :
    KeepsTrim (inlinedFunctions evaluate functions) := by
  induction functions with
  | nil => exact keepsTrim_some
  | cons entry others ih =>
    refine keepsTrim_bind (fun pieces => step_trim (trims_calls fun inside add known => ?_)) ih
    rw [callResult, Option.some.injEq] at known
    obtain ⟨args, -, stands⟩ := Option.bind_eq_some_iff.mp known
    exact (operand_literal stands).toSolid

theorem keepsTrim_constants (nodeText : NodeText) {constants : Bindings} (plain : NamedConstants constants) :
    KeepsTrim (inlinedConstants nodeText constants) := by
  induction constants with
  | nil => exact keepsTrim_some
  | cons entry others ih =>
    intro pieces
    obtain ⟨-, numeric⟩ := plain entry List.mem_cons_self
    rw [inlinedConstants, inlinedConstants]
    cases shown : entry.2.display nodeText with
    | error failure => rfl
    | ok text =>
      obtain ⟨nonempty, bare⟩ := bare_display numeric shown
      exact keepsTrim_bind (fun pieces => step_trim (trims_words (solid_text nonempty bare)))
        (ih fun other member => plain other (List.mem_cons_of_mem _ member)) pieces

theorem solid_bareResult {bound : Value} {add : Pieces → Pieces} (standing : bareResult bound = some (some add)) : Solid add := by
  cases bound with
  | int n =>
    rw [bareResult, Option.some.injEq] at standing
    cases shown : showInt n with
    | error failure => rw [shown] at standing; cases standing
    | ok text =>
      rw [shown] at standing
      cases standing
      obtain ⟨nonempty, bare⟩ := bare_showInt shown
      exact (operand_signed _ nonempty bare).toSolid
  | float x =>
    cases standing
    obtain ⟨nonempty, bare⟩ := bare_shortestText x
    exact (operand_signed _ nonempty bare).toSolid
  | _ => cases standing

theorem keepsTrim_variables (symbols : Bindings) : KeepsTrim (inlinedVariables symbols) := by
  induction symbols with
  | nil => exact keepsTrim_some
  | cons entry others ih =>
    intro pieces
    obtain ⟨name, bound⟩ := entry
    rw [inlinedVariables, inlinedVariables]
    cases standing : bareResult bound with
    | none => exact ih pieces
    | some stands =>
      dsimp only
      rw [mentions_trim]
      split
      · cases stands with
        | none => rfl
        | some add =>
          exact keepsTrim_bind (fun pieces => step_trim (trims_words (solid_bareResult standing))) ih pieces
      · exact ih pieces

end ProceduralScene.Expression
