import ProceduralScene.Proofs.MissingVariables
import ProceduralScene.Proofs.PlainValue
import ProceduralScene.Proofs.SpelledValues

/-!
A variable on its own has the value that is bound to it: what is written for the value, a literal or the name of a slot,
stays as it is and is read as the value. Only an integer without a literal fails.
-/

set_option autoImplicit false

namespace ProceduralScene.Expression

/-- What is written for a value: a literal, or the name of a slot that keeps the value. -/
inductive WrittenAs (value : Value) : List Char → Bindings → Prop
  | literal {text : List Char} : SpelledAs value text → WrittenAs value text []
  | slot : WrittenAs value (slotName 0).toList [(slotName 0, value)]

theorem run_literalOf {value : Value} (writable : isWritable value = true) {work : Workspace} (empty : work.slots = []) :
    ∃ text slots, (literalOf value).run.run work = (.ok text, { work with slots }) ∧ WrittenAs value text slots := by
  obtain ⟨_, calls, log⟩ := work
  cases empty
  have kept : (keepInSlot value).run.run ⟨[], calls, log⟩ = (.ok (slotName 0).toList, ⟨[(slotName 0, value)], calls, log⟩) := rfl
  cases value with
  | bool b =>
    refine ⟨_, [], ?_, .literal (spelledAs_truth b)⟩
    cases b <;> rfl
  | int n =>
    simp only [isWritable, Bool.and_eq_true] at writable
    obtain ⟨finite, shown⟩ := writable
    cases text : showInt n with
    | error failure =>
      rw [text] at shown
      cases shown
    | ok text =>
      refine ⟨_, [], ?_, .literal (spelledAs_int ‹_›)⟩
      rw [literalOf, if_neg (by rw [← Option.not_isSome]; simp [finite]), ‹showInt n = _›]
      rfl
  | float x =>
    by_cases finite : Number.isFinite x = true
    · refine ⟨_, [], ?_, .literal (spelledAs_float finite (decide (x < 0.0)))⟩
      rw [literalOf, if_pos finite]
      rfl
    · refine ⟨_, _, ?_, .slot⟩
      rw [literalOf, if_neg finite]
      exact kept
  | _ => exact ⟨_, _, kept, .slot⟩

theorem wordless_written {value : Value} {text : List Char} {slots : Bindings} (written : WrittenAs value text slots) :
    Wordless text := by
  cases written with
  | literal spelled => exact spelled.wordless
  | slot => exact wordless_slot 0

theorem reads_written {value : Value} {text : List Char} {slots : Bindings} (written : WrittenAs value text slots)
    (setting : Setting) (symbols : ∀ entry ∈ setting.symbols, Nameable entry.1) :
    (match slots.get? (String.ofList (Text.trim text)) with
      | some found => .ok found
      | none => evaluateReduced (setting.environment slots) text : Except Failure Value) = .ok value := by
  cases written with
  | literal spelled =>
    -- a truth value is looked up like a name, and no variable stands in its way
    have unbound : ∀ name, (∀ entry ∈ setting.symbols, entry.1 ≠ name) → (setting.environment []).lookup name = none := by
      intro name apart
      show setting.symbols.lookup name = none
      exact List.lookup_eq_none_iff.mpr fun entry member => bne_iff_ne.mpr fun same => apart entry member same.symm
    exact spelled.reads _ (unbound "true" fun entry member => (symbols entry member).noTruth.1)
      (unbound "false" fun entry member => (symbols entry member).noTruth.2)
  | slot =>
    have trimmed : Text.trim (slotName 0).toList = (slotName 0).toList := by decide
    rw [trimmed, String.ofList_toList]
    simp [Bindings.get?]

theorem cutName_identifier (identifier : Identifier) : cutName? identifier.text = some (identifier.text, []) := by
  have whole : identifier.rest.takeWhile isNameChar = identifier.rest := List.takeWhile_eq_self_iff.mpr identifier.continues
  have none : identifier.rest.dropWhile isNameChar = [] := List.dropWhile_eq_nil_iff.mpr identifier.continues
  rw [Identifier.text, cutName?, if_pos identifier.starts, whole, none]

theorem dropAssignment_variable (identifier : Identifier) : dropAssignment ('$' :: identifier.text) = '$' :: identifier.text := by
  refine dropAssignment_solid (by decide) (by decide) fun c last => ?_
  have member := List.mem_of_getLast? last
  rcases List.mem_cons.mp member with rfl | member
  · decide
  · exact isSpace_word ((Spelling.isName_identifier identifier).whole c member)

theorem run_variable {setting : Setting} {identifier : Identifier} {value : Value}
    (bound : setting.symbols.get? identifier.name = some value) {work after : Workspace} {result : Except Failure (List Char)}
    (run : (literalOf (parameterValue value)).run.run work = (result, after)) :
    (substituteVariables setting (String.ofList (dropAssignment ('$' :: identifier.text))) none 0
      (dropAssignment ('$' :: identifier.text))).run.run work = (result, after) := by
  have skipped := substituteVariables_skip setting (String.ofList ('$' :: identifier.text))
    (Spelling.isName_identifier identifier).whole []
  rw [List.append_nil] at skipped
  have found : substitute setting (String.ofList ('$' :: identifier.text)) (String.ofList identifier.text) =
      literalOf (parameterValue value) := by
    rw [substitute, show setting.symbols.get? (String.ofList identifier.text) = some value from bound]
  rw [dropAssignment_variable, substituteVariables, if_pos (by rfl), cutName_identifier]
  dsimp only
  cases result with
  | error failure => rw [found, run_bind_error run]
  | ok text =>
    rw [found, run_bind_ok run, show stepQuote none '$' = none from rfl, skipped]
    show (Except.ok (text ++ []), _) = _
    rw [List.append_nil]

theorem evaluateText_variable {setting : Setting} (functions : ∀ entry ∈ setting.functions, IsName entry.1.toList)
    (constants : ∀ entry ∈ setting.constants, Nameable entry.1 ∧ ∃ s, entry.2.display setting.nodeText = .ok s)
    (symbols : ∀ entry ∈ setting.symbols, Nameable entry.1) {identifier : Identifier} {value : Value}
    (bound : setting.symbols.get? identifier.name = some value) (writable : isWritable (parameterValue value) = true) (depth : Nat)
    {work : Workspace} (empty : work.slots = []) : ∃ slots,
      (evaluateText setting (depth + 1) ('$' :: identifier.text)).run.run work = (.ok (parameterValue value), { work with slots }) := by
  obtain ⟨text, slots, run, written⟩ := run_literalOf writable empty
  have substituted := run_variable bound run
  refine ⟨slots, ?_⟩
  rw [evaluateText_settled (untouched_wordless (wordless_written written) functions constants symbols _) substituted]
  exact congrArg (·, _) (reads_written written setting symbols)

end ProceduralScene.Expression

namespace ProceduralScene.Evaluator

open Expression

/-- Names that no literal holds, functions that can be called and constants that can be displayed. -/
structure WellNamed (ev : Evaluator) (nodeText : NodeText) (symbols : Bindings) : Prop where
  functions : ∀ entry ∈ ev.functions, IsName entry.1.toList
  constants : ∀ entry ∈ ev.constants, Nameable entry.1 ∧ ∃ s, entry.2.display nodeText = .ok s
  symbols : ∀ entry ∈ symbols, Nameable entry.1

theorem toList_variable (identifier : Identifier) : ("$" ++ identifier.name).toList = '$' :: identifier.text := by
  rw [String.toList_append, Identifier.name, String.toList_ofList, String.toList_ofList]
  rfl

/-- A variable on its own has what is bound to it as value, or the field `value` of a map that has one, and nothing is
called or recorded. -/
theorem evaluateFresh_variable (ev : Evaluator) {nodeText : NodeText} {symbols : Bindings} (named : ev.WellNamed nodeText symbols)
    (path : Option String) {name : String} {value : Value} (bound : symbols.get? name = some value)
    (writable : isWritable (parameterValue value) = true) :
    ev.evaluateFresh nodeText ("$" ++ name) symbols path = (parameterValue value, ev) := by
  obtain ⟨identifier, rfl⟩ := (named.symbols _ (Value.lookup_mem bound)).identifier
  obtain ⟨slots, found⟩ := @evaluateText_variable (ev.setting nodeText symbols path) named.functions named.constants
    named.symbols identifier value bound writable ('$' :: identifier.text).length ⟨[], ev.calls, ev.log⟩ rfl
  rw [evaluateFresh, toList_variable, nestingBound, found]

/-- An integer without a literal fails the evaluation: its value is zero, and the failure is the one record. -/
theorem evaluateFresh_unwritable (ev : Evaluator) (nodeText : NodeText) {symbols : Bindings} (path : Option String)
    (identifier : Identifier) {value : Value} (bound : symbols.get? identifier.name = some value)
    (unwritable : isWritable (parameterValue value) = false) : ∃ failure : Failure,
    ev.evaluateFresh nodeText ("$" ++ identifier.name) symbols path = (.int 0, { ev with
      log := ev.log.record "X01" (Text.quoted ("$" ++ identifier.name) ++ " failed: " ++ failure.message) path }) := by
  obtain ⟨failure, run⟩ := run_literalOf_unwritable unwritable ⟨[], ev.calls, ev.log⟩
  have substituted := @run_variable (ev.setting nodeText symbols path) identifier value bound _ _ _ run
  refine ⟨failure, ?_⟩
  rw [evaluateFresh, toList_variable, nestingBound, evaluateText, run_bind_error substituted]

end ProceduralScene.Evaluator
