import ProceduralScene.Proofs.ConditionalFrames

/-!
A call `if(c, a, b)` on pieces. The first pass makes a ternary of it, with the arguments as they are after the
replacement of variables and without the blanks around them.
-/

set_option autoImplicit false

namespace ProceduralScene.Expression

open Pieces

namespace Pieces

/-- Three parts with commas between them. -/
def separated (first second third : Pieces) : Pieces := first.append (.mark ',' (second.append (.mark ',' third)))

def conditionalCall (condition whenTrue whenFalse : Pieces) : Pieces :=
  .run conditionalName (.brackets true (separated condition whenTrue whenFalse) .nil)

/-! ### Parts behind a comma -/

theorem startsName_append (pieces rest : Pieces) (c : Char) : (pieces.append (.mark c rest)).startsName = pieces.startsName ∧
    (pieces.append (.mark c rest)).namesWhole = pieces.namesWhole := by
  cases pieces with
  | run cs rest => cases cs <;> exact ⟨rfl, rfl⟩
  | _ => exact ⟨rfl, rfl⟩

theorem orderly_append {named : Bool} {first second : Pieces} (further : second.orderly named .plain .none .outside = true) :
    ∀ {edge : Edge} {callee : Callee}, first.orderly named edge callee .outside = true →
      (first.append (.mark ',' second)).orderly named edge callee .outside = true := by
  induction first with
  | nil =>
    intro edge callee fits
    refine orderly_mark.mpr ⟨by decide, fun _ => rfl, fun same => absurd same (by decide), ?_⟩
    rw [Callee.after_solid callee (by decide)]
    exact further
  | mark c rest ih =>
    intro edge callee fits
    obtain ⟨mark, comma, name, fits⟩ := orderly_mark.mp fits
    obtain ⟨starts, whole⟩ := startsName_append rest second ','
    exact orderly_mark.mpr ⟨mark, comma, by rw [starts, whole]; exact name, ih fits⟩
  | run cs rest ih =>
    intro edge callee fits
    obtain ⟨noWord, nonempty, wordy, free, fits⟩ := orderly_run.mp fits
    exact orderly_run.mpr ⟨noWord, nonempty, wordy, free, ih fits⟩
  | value v rest ih =>
    intro edge callee fits
    obtain ⟨noWord, noDollar, fits⟩ := orderly_value.mp fits
    exact orderly_value.mpr ⟨noWord, noDollar, ih fits⟩
  | literal quote content rest ih =>
    intro edge callee fits
    obtain ⟨quoting, free, fits⟩ := orderly_literal.mp fits
    exact orderly_literal.mpr ⟨quoting, free, ih fits⟩
  | brackets round inside rest _ ih =>
    intro edge callee fits
    obtain ⟨within, fits⟩ := orderly_brackets.mp fits
    exact orderly_brackets.mpr ⟨within, ih fits⟩

theorem parts_append {first : Pieces} (free : first.commaFree = true) (second : Pieces) :
    (first.append (.mark ',' second)).parts = (first, second.parts.1 :: second.parts.2) := by
  induction first with
  | nil => rfl
  | mark c rest ih =>
    rw [commaFree, Bool.and_eq_true, bne_iff_ne] at free
    rw [Pieces.append, parts, if_neg free.1, ih free.2]
  | run cs rest ih | value v rest ih | literal quote content rest ih | brackets round inside rest _ ih =>
    rw [Pieces.append, parts, ih free]

theorem parts_commaFree {pieces : Pieces} (free : pieces.commaFree = true) : pieces.parts = (pieces, []) := by
  induction pieces with
  | nil => rfl
  | mark c rest ih =>
    rw [commaFree, Bool.and_eq_true, bne_iff_ne] at free
    rw [parts, if_neg free.1, ih free.2]
  | run cs rest ih | value v rest ih | literal quote content rest ih | brackets round inside rest _ ih =>
    rw [parts, ih free]

theorem arguments_separated {first second third : Pieces} (free : first.commaFree = true) (free' : second.commaFree = true)
    (free'' : third.commaFree = true) (some : third.trim.isNil = false) :
    (separated first second third).arguments = [first.trim, second.trim, third.trim] := by
  rw [arguments, separated, parts_append free, parts_append free', parts_commaFree free'']
  simp [withoutEmptyLast, some]

end Pieces

/-! ### Variables of the parts -/

section

variable (symbols : Bindings)

theorem substituted_name {cs : List Char} {rest : Pieces} (starts : (Pieces.run cs rest).startsName = true) :
    substituted symbols (.mark '$' (.run cs rest)) =
      (variablePieces symbols (String.ofList cs)).bind fun add => (substituted symbols rest).map add := by
  rw [substituted, if_pos ⟨rfl, starts⟩]

/-- What stands in front of a comma is replaced on its own. -/
theorem substituted_append (second first : Pieces) : substituted symbols (first.append (.mark ',' second)) =
    (substituted symbols first).bind fun inner => (substituted symbols second).map fun rest => inner.append (.mark ',' rest) := by
  have behind : ∀ {add : Pieces → Pieces} {inner : Option Pieces}, Solid add →
      (inner.bind fun inner => (substituted symbols second).map fun rest => inner.append (.mark ',' rest)).map add =
        (inner.map add).bind fun inner => (substituted symbols second).map fun rest => inner.append (.mark ',' rest) := by
    intro add inner solid
    cases inner with
    | none => rfl
    | some inner =>
      simp only [Option.bind_some, Option.map_some, Option.map_map]
      congr 1
      funext rest
      exact solid.append inner ',' rest
  have foreign : ∀ rest, substituted symbols (.mark ',' rest) = (substituted symbols rest).map (.mark ',') :=
    fun rest => substituted_mark (.inl (by decide))
  induction first using smaller_induction with
  | further first smaller =>
  cases first with
  | nil =>
    rw [Pieces.append, foreign]
    rfl
  | mark c rest =>
    have ih := smaller rest (by simp only [mark.sizeOf_spec]; omega)
    by_cases sign : c = '$' ∧ rest.startsName = true
    · obtain ⟨rfl, starts⟩ := sign
      cases rest with
      | run cs rest =>
        have ih := smaller rest (by simp only [mark.sizeOf_spec, run.sizeOf_spec]; omega)
        have starts' : (Pieces.run cs (rest.append (.mark ',' second))).startsName = true := by cases cs <;> exact starts
        show substituted symbols (.mark '$' (.run cs (rest.append (.mark ',' second)))) = _
        rw [substituted_name symbols starts', substituted_name symbols starts, ih]
        cases stands : variablePieces symbols (String.ofList cs) with
        | none => rfl
        | some add => exact behind (operand_variable stands).toSolid
      | _ => cases starts
    · have other : c ≠ '$' ∨ rest.startsName = false := by
        by_cases same : c = '$'
        · exact .inr (Bool.not_eq_true _ ▸ fun starts => sign ⟨same, starts⟩)
        · exact .inl same
      have other' : c ≠ '$' ∨ (rest.append (.mark ',' second)).startsName = false := by
        rwa [(startsName_append rest second ',').1]
      rw [Pieces.append, substituted_mark other', substituted_mark other, ih]
      cases substituted symbols rest with
      | none => rfl
      | some inner =>
        simp only [Option.bind_some, Option.map_some, Option.map_map]
        rfl
  | run cs rest =>
    have ih := smaller rest (by simp only [run.sizeOf_spec]; omega)
    rw [Pieces.append, substituted, substituted, ih]
    exact behind (solid_run cs)
  | value v rest =>
    have ih := smaller rest (by simp only [value.sizeOf_spec]; omega)
    rw [Pieces.append, substituted, substituted, ih]
    exact behind (solid_value v)
  | literal quote content rest =>
    have ih := smaller rest (by simp only [literal.sizeOf_spec]; omega)
    rw [Pieces.append, substituted, substituted, ih]
    exact behind (solid_quotation quote content)
  | brackets round inside rest =>
    have ih := smaller rest (by simp only [brackets.sizeOf_spec]; omega)
    rw [Pieces.append, substituted, substituted, ih, Option.bind_assoc]
    congr 1
    funext within
    exact behind (solid_brackets round within)

theorem commaFree_substituted (pieces : Pieces) : ∀ result, substituted symbols pieces = some result →
    result.commaFree = pieces.commaFree := by
  induction pieces using smaller_induction with
  | further pieces smaller =>
  intro result stepped
  have behind : ∀ {add : Pieces → Pieces} (rest : Pieces), sizeOf rest < sizeOf pieces → Solid add →
      (substituted symbols rest).map add = some result → result.commaFree = rest.commaFree := by
    intro add rest less solid stepped
    obtain ⟨inner, same, rfl⟩ := Option.map_eq_some_iff.mp stepped
    rw [solid.commaFree, smaller rest less inner same]
  cases pieces with
  | nil =>
    cases stepped
    rfl
  | mark c rest =>
    by_cases sign : c = '$' ∧ rest.startsName = true
    · obtain ⟨rfl, starts⟩ := sign
      cases rest with
      | run cs rest =>
        rw [substituted_name symbols starts] at stepped
        obtain ⟨add, stands, stepped⟩ := Option.bind_eq_some_iff.mp stepped
        exact behind rest (by simp only [mark.sizeOf_spec, run.sizeOf_spec]; omega) (operand_variable stands).toSolid stepped
      | _ => cases starts
    · have other : c ≠ '$' ∨ rest.startsName = false := by
        by_cases same : c = '$'
        · exact .inr (Bool.not_eq_true _ ▸ fun starts => sign ⟨same, starts⟩)
        · exact .inl same
      rw [substituted_mark other] at stepped
      obtain ⟨inner, same, rfl⟩ := Option.map_eq_some_iff.mp stepped
      rw [commaFree, commaFree, smaller rest (by simp only [mark.sizeOf_spec]; omega) inner same]
  | run cs rest => exact behind rest (by simp only [run.sizeOf_spec]; omega) (solid_run cs) stepped
  | value v rest => exact behind rest (by simp only [value.sizeOf_spec]; omega) (solid_value v) stepped
  | literal quote content rest =>
    exact behind rest (by simp only [literal.sizeOf_spec]; omega) (solid_quotation quote content) stepped
  | brackets round inside rest =>
    obtain ⟨within, -, stepped⟩ := Option.bind_eq_some_iff.mp stepped
    exact behind rest (by simp only [brackets.sizeOf_spec]; omega) (solid_brackets round within) stepped

end

/-! ### The passes -/

/-- The first pass makes a ternary of a conditional. -/
theorem passed_conditionalCall {first second third : Pieces} (free : first.commaFree = true) (free' : second.commaFree = true)
    (free'' : third.commaFree = true) (some' : third.trim.isNil = false) :
    passed (conditionalCall first second third) = some (ternaryPieces first.trim second.trim third.trim .nil) := by
  have result : conditionalResult (separated first second third) =
      some (some (ternaryPieces first.trim second.trim third.trim)) := by
    rw [conditionalResult, arguments_separated free free' free'' some']
  have call : callAt conditionalName conditionalResult .plain conditionalName (.brackets true (separated first second third) .nil) =
      some (some (ternaryPieces first.trim second.trim third.trim), .nil) := by
    rw [callAt, if_pos ⟨rfl, rfl⟩, callBehind, Option.bind_some, result]
    rfl
  rw [passed, conditionalCall, replaceCalls_call call, (descends_calls conditionalName conditionalResult).ended]
  rfl

/-- One pass more than the bound changes nothing. -/
def Settles (setting : Setting) (pieces : Pieces) : Prop :=
  ∀ replaced, substituted setting.symbols pieces = some replaced →
    converted (setting.maxPasses + 1) replaced = converted setting.maxPasses replaced

/-- The passes over a conditional leave a ternary of what they leave of its parts. -/
theorem converted_conditionalCall {first second third first' second' third' : Pieces} (free : first.commaFree = true)
    (free' : second.commaFree = true) (free'' : third.commaFree = true) (some' : third.trim.isNil = false) {passes : Nat}
    (settles : converted (passes + 1) (conditionalCall first second third) = converted passes (conditionalCall first second third))
    (same : converted passes first.trim = some first') (same' : converted passes second.trim = some second')
    (same'' : converted passes third.trim = some third') :
    converted passes (conditionalCall first second third) = some (ternaryPieces first' second' third' .nil) := by
  have pass : ∀ passes, converted (passes + 1) (conditionalCall first second third) =
      converted passes (ternaryPieces first.trim second.trim third.trim .nil) := by
    intro passes
    rw [converted, passed_conditionalCall free free' free'' some']
    rfl
  rw [← settles, pass]
  exact carries_converted frame_ternary passes same same' same''

/-! ### The values of the two forms -/

/-- The pieces of a part of a conditional: not empty, without a comma of their own, and no assignment. -/
structure IsPart (pieces : Pieces) : Prop where
  orderly : pieces.orderly true .plain .none .outside = true
  commaFree : pieces.commaFree = true
  nonempty : pieces.trim.isNil = false
  unsigned : pieces.dropSign = pieces.trim

theorem orderly_gapped (spaced : Bool) {callee : Callee} {found : Argument} (blank : found.after ' ' = found) {rest : Pieces}
    (fits : rest.orderly true .plain callee found = true) : (gap spaced rest).orderly true .plain callee found = true := by
  cases spaced with
  | false => exact fits
  | true =>
    refine orderly_mark.mpr ⟨by decide, fun same => absurd same (by decide), fun same => absurd same (by decide), ?_⟩
    rw [callee.after_space (show Text.isSpace ' ' = true by decide), blank]
    exact fits

theorem orderly_sign (spaced : Bool) {c : Char} (sign : c = '?' ∨ c = ':') {rest : Pieces}
    (fits : rest.orderly true .plain .none .outside = true) :
    (gap spaced (.mark c (gap spaced rest))).orderly true .plain .call .outside = true := by
  have own : isMark c = true ∧ c ≠ ',' ∧ c ≠ '$' ∧ Edge.behind (some c) = .plain ∧ Callee.after .call c = .none := by
    rcases sign with rfl | rfl <;> decide
  refine orderly_gapped spaced rfl
    (orderly_mark.mpr ⟨own.1, fun same => absurd same own.2.1, fun same => absurd same own.2.2.1, ?_⟩)
  rw [own.2.2.2.1, own.2.2.2.2]
  exact orderly_gapped spaced rfl fits

theorem orderly_parts_branches (spaced : Bool) {condition whenTrue whenFalse : Pieces} (part : IsPart condition)
    (part' : IsPart whenTrue) (part'' : IsPart whenFalse) :
    (branches spaced condition whenTrue whenFalse).orderly true .plain .none .outside = true := by
  have enclosed : ∀ {part rest : Pieces}, IsPart part → rest.orderly true .plain .call .outside = true →
      (Pieces.brackets true part rest).orderly true .plain .none .outside = true :=
    fun part further => orderly_brackets.mpr ⟨part.orderly, further⟩
  exact enclosed part (orderly_sign spaced (.inl rfl) (enclosed part' (orderly_sign spaced (.inr rfl) (enclosed part'' rfl))))

/-- Blanks in front of a part belong to it. -/
theorem isPart_gap (spaced : Bool) {pieces : Pieces} (part : IsPart pieces) : IsPart (gap spaced pieces) where
  orderly := orderly_gapped spaced rfl part.orderly
  commaFree := by cases spaced <;> exact part.commaFree
  nonempty := by cases spaced <;> exact part.nonempty
  unsigned := by cases spaced <;> exact part.unsigned

theorem orderly_conditionalCall {condition whenTrue whenFalse : Pieces} (part : IsPart condition) (part' : IsPart whenTrue)
    (part'' : IsPart whenFalse) : (conditionalCall condition whenTrue whenFalse).orderly true .plain .none .outside = true := by
  refine orderly_run.mpr ⟨nofun, by decide, isName_conditional.whole, by decide, orderly_brackets.mpr ⟨?_, rfl⟩⟩
  exact orderly_append (orderly_append part''.orderly part'.orderly) part.orderly

section

variable {setting : Setting} (plain : setting.IsPlain) {depth : Nat}

include plain

/-- How a part is reduced on its own: its blanks may be removed before or after. -/
theorem reduced_alone {pieces : Pieces} (part : IsPart pieces) {v : Value} (known : evaluated setting (depth + 1) pieces = some v) :
    (∃ result, simplified setting (evaluated setting depth) pieces = some result ∧ result.trim.read setting = some v) ∧
    ∃ replaced passed result, substituted setting.symbols pieces = some replaced ∧
      converted setting.maxPasses replaced.trim = some passed ∧
      inlined setting (evaluated setting depth) passed = some result ∧ result.trim.read setting = some v := by
  rw [evaluated, part.unsigned] at known
  obtain ⟨result, reduced, read⟩ := Option.bind_eq_some_iff.mp known
  have trimmed := keepsTrim_simplified plain (evaluated setting depth) pieces
  rw [reduced] at trimmed
  obtain ⟨whole, same, rfl⟩ := Option.map_eq_some_iff.mp trimmed.symm
  refine ⟨⟨whole, same, read⟩, ?_⟩
  obtain ⟨replaced, start, reduced⟩ := Option.bind_eq_some_iff.mp reduced
  rw [show substituted setting.symbols pieces.trim = _ from step_trim (trims_variables setting.symbols)] at start
  obtain ⟨replaced, first, rfl⟩ := Option.map_eq_some_iff.mp start
  obtain ⟨passed, second, third⟩ := Option.bind_eq_some_iff.mp reduced
  exact ⟨replaced, passed, _, first, second, third, by rwa [trim_trim]⟩

variable {condition whenTrue whenFalse : Pieces} (part : IsPart condition) (part' : IsPart whenTrue) (part'' : IsPart whenFalse)
  {test yes no : Value} (known : evaluated setting (depth + 1) condition = some test)
  (known' : evaluated setting (depth + 1) whenTrue = some yes) (known'' : evaluated setting (depth + 1) whenFalse = some no)

include part part' part'' known known' known''

theorem evaluated_branches (spaced : Bool) :
    evaluated setting (depth + 1) (branches spaced condition whenTrue whenFalse) = some (if test.truthy then yes else no) := by
  obtain ⟨⟨first, reduced, read⟩, -⟩ := reduced_alone plain part known
  obtain ⟨⟨second, reduced', read'⟩, -⟩ := reduced_alone plain part' known'
  obtain ⟨⟨third, reduced'', read''⟩, -⟩ := reduced_alone plain part'' known''
  have unsigned : (branches spaced condition whenTrue whenFalse).dropSign = branches spaced condition whenTrue whenFalse := by
    rw [dropSign, trim_branches]
    rfl
  have reduced := carries_simplified (frame_branches spaced) setting (evaluated setting depth) reduced reduced' reduced''
  have orderly := @orderly_simplified _ plain depth _ _ (orderly_parts_branches spaced part part' part'')
    (branches spaced first second third) (by rw [unsigned, reduced])
  rw [evaluated, unsigned, reduced]
  exact read_branches orderly read read' read''

theorem evaluated_conditionalCall
    (settles : Settles setting (conditionalCall condition whenTrue whenFalse)) :
    evaluated setting (depth + 1) (conditionalCall condition whenTrue whenFalse) = some (if test.truthy then yes else no) := by
  obtain ⟨-, replaced, passed, first, same, steps, inner, read⟩ := reduced_alone plain part known
  obtain ⟨-, replaced', passed', second, same', steps', inner', read'⟩ := reduced_alone plain part' known'
  obtain ⟨-, replaced'', passed'', third, same'', steps'', inner'', read''⟩ := reduced_alone plain part'' known''
  have substitutes : substituted setting.symbols (conditionalCall condition whenTrue whenFalse) =
      some (conditionalCall replaced replaced' replaced'') := by
    rw [conditionalCall, substituted, substituted, separated, substituted_append, substituted_append, same, same', same'']
    rfl
  have free : ∀ {pieces result : Pieces}, IsPart pieces → substituted setting.symbols pieces = some result → result.commaFree = true :=
    fun part same => (commaFree_substituted _ _ _ same).trans part.commaFree
  have some' : replaced''.trim.isNil = false :=
    (isNil_step (trims_variables setting.symbols) same'').trans part''.nonempty
  have passes := converted_conditionalCall (free part same) (free part' same') (free part'' same'') some'
    (settles _ substitutes) steps steps' steps''
  have reduced : simplified setting (evaluated setting depth) (conditionalCall condition whenTrue whenFalse) =
      some (ternaryPieces first second third .nil) := by
    rw [simplified, substitutes, Option.bind_some, passes, Option.bind_some]
    exact carries_inlined frame_ternary setting _ inner inner' inner''
  have unsigned : (conditionalCall condition whenTrue whenFalse).dropSign = conditionalCall condition whenTrue whenFalse := rfl
  have orderly := @orderly_simplified _ plain depth _ _ (orderly_conditionalCall part part' part'')
    (ternaryPieces first second third .nil) (by rw [unsigned, reduced])
  rw [evaluated, unsigned, reduced]
  exact read_ternaryPieces orderly read read' read''

end

end ProceduralScene.Expression
