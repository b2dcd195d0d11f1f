import ProceduralScene.Proofs.PlainArithmetic
import ProceduralScene.Expression.Evaluator

/-!
With functions that depend on their arguments alone, what an expression evaluates to depends on the slots it started
with and not on the calls counted before, on what is recorded, or on the path that records name. Two evaluations of one
text go in lockstep: they make the same slots and the same records, each under its own path.
-/

set_option autoImplicit false

namespace ProceduralScene

namespace Expression

/-- The function gives the same whatever it was called with before. -/
def Function.IsPure (function : Function) : Prop := ∀ before after : Nat, function.call before = function.call after

theorem isPure_pure (f : List Value → Except Failure Value) : (Function.pure f).IsPure := fun _ _ => rfl

/-- Two actions that agree from related workspaces, and leave related ones. -/
def Agree {α : Type} (R : Workspace → Workspace → Prop) (first second : Reduction α) : Prop :=
  ∀ work other : Workspace, R work other →
    (first.run.run work).1 = (second.run.run other).1 ∧ R (first.run.run work).2 (second.run.run other).2

/-- Related workspaces have the same slots. They stay related when both get the same slot or the same record, each with
its own path, and whatever calls are counted. -/
structure Lockstep (path path' : Option String) (R : Workspace → Workspace → Prop) : Prop where
  slots : ∀ {work other}, R work other → work.slots = other.slots
  slot : ∀ {work other} (entry : String × Value), R work other →
    R { work with slots := work.slots ++ [entry] } { other with slots := other.slots ++ [entry] }
  calls : ∀ {work other} (calls calls' : List (String × Nat)), R work other →
    R { work with calls := calls } { other with calls := calls' }
  record : ∀ {work other} (code text : String), R work other →
    R { work with log := work.log.record code text path } { other with log := other.log.record code text path' }

section

variable {R : Workspace → Workspace → Prop} {α β : Type}

theorem agree_pure (value : α) : Agree R (pure value) (pure value) := fun _ _ related => ⟨rfl, related⟩

theorem agree_throw (failure : Failure) : Agree R (throw failure : Reduction α) (throw failure) :=
  fun _ _ related => ⟨rfl, related⟩

theorem agree_bind {first second : Reduction α} {next other : α → Reduction β} (head : Agree R first second)
    (rest : ∀ value, Agree R (next value) (other value)) : Agree R (first >>= next) (second >>= other) := by
  intro work work' related
  obtain ⟨result, left⟩ := head work work' related
  simp only [ExceptT.run_bind, StateT.run_bind]
  rcases run : first.run.run work with ⟨failure | value, after⟩
  all_goals
    rcases run' : second.run.run work' with ⟨failure' | value', after'⟩
    all_goals
      rw [run, run'] at result left
      cases result
  · exact ⟨rfl, left⟩
  · exact rest value after after' left

/-- Two actions that read the workspace agree when what they do next depends on its slots alone. -/
theorem agree_get {next : Workspace → Reduction β} (same : ∀ {work other}, R work other → next work = next other)
    (rest : ∀ work, Agree R (next work) (next work)) : Agree R (get >>= next) (get >>= next) := by
  intro work other related
  show ((next work).run.run work).1 = ((next other).run.run other).1 ∧
    R ((next work).run.run work).2 ((next other).run.run other).2
  rw [same related]
  exact rest other work other related

theorem agree_liftResult (result : Except Failure α) : Agree R (liftResult result) (liftResult result) := by
  cases result with
  | error failure => exact agree_throw failure
  | ok value => exact agree_pure value

end

/-- The setting with another path for the records. -/
def Setting.along (setting : Setting) (path : Option String) : Setting := { setting with path := path }

theorem run_callFunction (setting : Setting) (name : String) (function : Function) (args : List Value) (work : Workspace) :
    (callFunction setting name function args).run.run work =
      (match function.call (callCount name work.calls) args with
      | .ok value => (.ok value, { work with
          calls := (name, callCount name work.calls + 1) :: work.calls.filter (·.1 != name) })
      | .error failure => (.ok (.int 0), { work with
          calls := (name, callCount name work.calls + 1) :: work.calls.filter (·.1 != name)
          log := work.log.record "X01" (name ++ "(): " ++ failure.message) setting.path })) := by
  show (match function.call (callCount name work.calls) args with
    | .ok value => pure value
    | .error failure => do
      recordWarning "X01" (name ++ "(): " ++ failure.message) setting.path
      return .int 0 : Reduction Value).run.run _ = _
  cases function.call (callCount name work.calls) args <;> rfl

section

variable {setting : Setting} {path : Option String} {R : Workspace → Workspace → Prop}
  (lockstep : Lockstep setting.path path R)

include lockstep

theorem agree_keepInSlot (value : Value) : Agree R (keepInSlot value) (keepInSlot value) := by
  intro work other related
  have count : work.slots.length = other.slots.length := congrArg List.length (lockstep.slots related)
  have kept := lockstep.slot ("__slot" ++ toString work.slots.length, value) related
  show Except.ok ("__slot" ++ toString work.slots.length).toList = Except.ok ("__slot" ++ toString other.slots.length).toList ∧
    R { work with slots := work.slots ++ [("__slot" ++ toString work.slots.length, value)] }
      { other with slots := other.slots ++ [("__slot" ++ toString other.slots.length, value)] }
  rw [← count]
  exact ⟨rfl, kept⟩

theorem agree_literalOf (value : Value) : Agree R (literalOf value) (literalOf value) := by
  unfold literalOf
  split
  · exact agree_pure _
  · split
    · exact agree_throw _
    · exact agree_bind (agree_liftResult _) fun _ => agree_pure _
  · split
    · exact agree_pure _
    · exact agree_keepInSlot lockstep _
  · exact agree_keepInSlot lockstep _

theorem agree_substitute (shown name : String) :
    Agree R (substitute setting shown name) (substitute (setting.along path) shown name) := by
  have symbols : (setting.along path).symbols = setting.symbols := rfl
  unfold substitute
  rw [symbols]
  cases setting.symbols.get? name with
  | none => exact agree_bind (fun _ _ related => ⟨rfl, lockstep.record _ _ related⟩) fun _ => agree_pure _
  | some value => exact agree_literalOf lockstep _

theorem agree_substituteVariables (shown : String) (text : List Char) : ∀ (quote : Option Char) (skip : Nat),
    Agree R (substituteVariables setting shown quote skip text)
      (substituteVariables (setting.along path) shown quote skip text) := by
  induction text with
  | nil =>
    intro quote skip
    cases skip <;> exact agree_pure _
  | cons c rest ih =>
    intro quote skip
    have further : ∀ (head : List Char) (quote : Option Char) (skip : Nat),
        Agree R (do return head ++ (← substituteVariables setting shown quote skip rest))
          (do return head ++ (← substituteVariables (setting.along path) shown quote skip rest)) :=
      fun head quote skip => agree_bind (ih quote skip) fun _ => agree_pure _
    cases skip with
    | succ skip => exact ih _ _
    | zero =>
      rw [substituteVariables, substituteVariables]
      dsimp only
      split
      · split
        · exact agree_bind (agree_substitute lockstep _ _) fun literal => further _ _ _
        · exact further [c] _ _
      · exact further [c] _ _

theorem agree_callFunction (name : String) {function : Function} (pure : function.IsPure) (args : List Value) :
    Agree R (callFunction setting name function args) (callFunction (setting.along path) name function args) := by
  intro work other related
  have counted := lockstep.calls ((name, callCount name work.calls + 1) :: work.calls.filter (·.1 != name))
    ((name, callCount name other.calls + 1) :: other.calls.filter (·.1 != name)) related
  rw [run_callFunction, run_callFunction, pure (callCount name other.calls) (callCount name work.calls)]
  cases function.call (callCount name work.calls) args with
  | ok value => exact ⟨rfl, counted⟩
  | error failure => exact ⟨rfl, lockstep.record "X01" (name ++ "(): " ++ failure.message) counted⟩

section

variable {evaluate other : List Char → Reduction Value} (evaluates : ∀ text, Agree R (evaluate text) (other text))

include evaluates

omit lockstep in
theorem agree_argumentValues (raws : List (List Char)) :
    Agree R (argumentValues evaluate raws) (argumentValues other raws) := by
  induction raws with
  | nil => exact agree_pure _
  | cons raw rest ih =>
    have first : Agree R (argumentValue evaluate raw) (argumentValue other raw) := by
      unfold argumentValue
      split
      · exact agree_pure _
      · exact evaluates raw
    exact agree_bind first fun _ => agree_bind ih fun _ => agree_pure _

theorem agree_inlineCalls (name : String) {function : Function} (pure : function.IsPure) (fuel : Nat) :
    ∀ (quote previous : Option Char) (text : List Char),
      Agree R (inlineCalls setting evaluate name function fuel quote previous text)
        (inlineCalls (setting.along path) other name function fuel quote previous text) := by
  induction fuel with
  | zero => exact fun _ _ _ => agree_pure _
  | succ fuel ih =>
    intro quote previous text
    rw [inlineCalls, inlineCalls]
    split
    · exact agree_pure _
    · split
      · exact agree_bind (ih _ _ _) fun _ => agree_pure _
      · split
        · exact agree_pure _
        · refine agree_bind (agree_argumentValues evaluates _) fun args => ?_
          refine agree_bind (agree_callFunction lockstep name pure args) fun value => ?_
          refine agree_bind (agree_literalOf lockstep value) fun literal => ?_
          exact agree_bind (ih _ _ _) fun _ => agree_pure _

theorem agree_inlineFunctions (functions : List (String × Function)) (pure : ∀ entry ∈ functions, entry.2.IsPure) :
    ∀ text : List Char, Agree R (inlineFunctions setting evaluate functions text)
      (inlineFunctions (setting.along path) other functions text) := by
  induction functions with
  | nil => exact fun _ => agree_pure _
  | cons entry rest ih =>
    intro text
    obtain ⟨name, function⟩ := entry
    have own := pure (name, function) List.mem_cons_self
    refine agree_bind (agree_inlineCalls lockstep evaluates name own _ _ _ _) fun text => ?_
    exact ih (fun entry member => pure entry (List.mem_cons_of_mem _ member)) text

end

theorem agree_evaluateText (pure : ∀ entry ∈ setting.functions, entry.2.IsPure) (depth : Nat) : ∀ text : List Char,
    Agree R (evaluateText setting depth text) (evaluateText (setting.along path) depth text) := by
  induction depth with
  | zero => exact fun _ => agree_throw _
  | succ depth ih =>
    intro text
    rw [evaluateText, evaluateText]
    refine agree_bind (agree_substituteVariables lockstep _ _ _ _) fun _ => ?_
    refine agree_bind (agree_inlineFunctions lockstep ih setting.functions pure _) fun _ => ?_
    refine agree_bind (agree_liftResult _) fun _ => agree_bind (agree_liftResult _) fun reduced => ?_
    refine agree_get (fun related => ?_) fun work => ?_
    · dsimp only
      rw [lockstep.slots related]
    · dsimp only
      split
      · exact agree_pure _
      · exact agree_liftResult _

end

/-- Two actions that agree from workspaces with the same slots, and leave the same slots. -/
def Twin {α : Type} (first second : Reduction α) : Prop :=
  ∀ work other : Workspace, work.slots = other.slots →
    (first.run.run work).1 = (second.run.run other).1 ∧
    (first.run.run work).2.slots = (second.run.run other).2.slots

theorem lockstep_slots (path path' : Option String) :
    Lockstep path path' fun work other => work.slots = other.slots where
  slots same := same
  slot _ same := congrArg (· ++ [_]) same
  calls _ _ same := same
  record _ _ same := same

theorem twin_evaluateText (setting : Setting) (path : Option String)
    (pure : ∀ entry ∈ setting.functions, entry.2.IsPure) (depth : Nat) :
    ∀ text : List Char, Twin (evaluateText setting depth text) (evaluateText (setting.along path) depth text) :=
  agree_evaluateText (lockstep_slots setting.path path) pure depth

end Expression

end ProceduralScene
