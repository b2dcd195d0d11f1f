import ProceduralScene.Proofs.PieceReading

/-!
The value of the pieces of an expression. It depends on the pieces, the setting and the bound on nested arguments
alone, and a larger bound does not change it.
-/

set_option autoImplicit false

namespace ProceduralScene.Expression

open Pieces

namespace Pieces

/-- The reduction behind the replacement of variables; `evaluate` tells the values of arguments. -/
def inlined (setting : Setting) (evaluate : Pieces → Option Value) (pieces : Pieces) : Option Pieces :=
  (inlinedFunctions evaluate setting.functions pieces).bind fun pieces =>
    (inlinedConstants setting.nodeText setting.constants pieces).bind (inlinedVariables (longestFirst setting.symbols))

/-- The reduction of pieces without an assignment sign. -/
def simplified (setting : Setting) (evaluate : Pieces → Option Value) (pieces : Pieces) : Option Pieces :=
  (substituted setting.symbols pieces).bind fun pieces => (converted setting.maxPasses pieces).bind (inlined setting evaluate)

/-- The value of the pieces of an expression, where the first argument bounds the depth of nested arguments. -/
def evaluated (setting : Setting) : Nat → Pieces → Option Value
  | 0, _ => none
  | depth + 1, pieces => (simplified setting (evaluated setting depth) pieces.dropSign).bind (read setting)

end Pieces

/-- Functions that depend on their arguments alone, and functions, constants and numeric variables with names. -/
structure Setting.IsPlain (setting : Setting) : Prop where
  functions : NamedFunctions setting.functions
  constants : NamedConstants setting.constants
  symbols : NamedVariables setting.symbols

theorem keepsTrim_simplified {setting : Setting} (plain : setting.IsPlain) (evaluate : Pieces → Option Value) :
    KeepsTrim (simplified setting evaluate) :=
  keepsTrim_bind (fun _ => step_trim (trims_variables setting.symbols)) <|
    keepsTrim_bind (keepsTrim_converted setting.maxPasses) <| keepsTrim_bind (keepsTrim_functions evaluate setting.functions) <|
      keepsTrim_bind (keepsTrim_constants setting.nodeText plain.constants) (keepsTrim_variables _)

theorem plain_longestFirst {symbols : Bindings} (plain : NamedVariables symbols) : NamedVariables (longestFirst symbols) :=
  fun entry member => plain entry (List.mem_mergeSort.mp member)

/-! ### Actions that leave the slots -/

theorem run_get {α : Type} (next : Workspace → Reduction α) (work : Workspace) :
    (get >>= next : Reduction α).run.run work = (next work).run.run work := rfl

theorem run_liftResult {α : Type} (result : Except Failure α) (work : Workspace) :
    (liftResult result).run.run work = (result, work) := by
  cases result <;> rfl

theorem gives_result {α : Type} {action : Reduction α} {work : Workspace} (numbered : Numbered work.slots)
    {result : Except Failure α} (run : action.run.run work = (result, work)) : Gives action work result.toOption := by
  cases result with
  | ok found => exact ⟨work, grows_refl _, numbered, run⟩
  | error failure => exact ⟨failure, work, run⟩

/-! ### The value of a text -/

section

variable {setting : Setting} (plain : setting.IsPlain)

include plain

theorem rewritten_inlined {evaluate : List Char → Reduction Value} {value : Pieces → Option Value}
    (evaluates : Evaluates evaluate value) {pieces : Pieces} {text : List Char} {work : Workspace}
    (shows : TextOf work.slots pieces text) : Rewritten (do
      let text ← inlineFunctions setting evaluate setting.functions text
      let text ← liftResult (inlineConstants setting.nodeText setting.constants text)
      liftResult (inlineBareVariables (longestFirst setting.symbols) text)) work (inlined setting value pieces) := by
  refine rewritten_bind (rewritten_functions evaluates plain.functions shows) fun pieces text after shows => ?_
  refine rewritten_bind (rewritten_constants setting.nodeText plain.constants shows) fun pieces text after shows => ?_
  exact rewritten_variables (plain_longestFirst plain.symbols) shows

theorem rewritten_simplified {evaluate : List Char → Reduction Value} {value : Pieces → Option Value}
    (evaluates : Evaluates evaluate value) {pieces : Pieces} {found : Argument}
    (fits : pieces.orderly true .plain .none found = true) {text : List Char} {work : Workspace}
    (numbered : Numbered work.slots) (writes : pieces.Writes work.slots text) : Rewritten (do
      let text ← substituteVariables setting (String.ofList (dropAssignment text)) none 0 (dropAssignment text)
      let text ← inlineFunctions setting evaluate setting.functions (convertConditionals setting.maxPasses text)
      let text ← liftResult (inlineConstants setting.nodeText setting.constants text)
      liftResult (inlineBareVariables (longestFirst setting.symbols) text)) work
      (simplified setting value pieces.dropSign) := by
  have first := rewritten_scan (rewrites_variables setting (String.ofList (dropAssignment text)) pieces.dropSign)
    (orderly_dropSign fits) (fun _ => rfl) numbered (writes_dropSign writes fits)
  refine rewritten_bind first fun pieces text after shows => ?_
  have further := rewritten_bind (rewritten_converted setting.maxPasses shows) fun pieces text after shows =>
    rewritten_inlined plain evaluates shows
  rw [pure_bind] at further
  exact further

omit plain in
theorem gives_rewritten {action : Reduction (List Char)} {next : List Char → Reduction Value} {work : Workspace}
    {first : Option Pieces} {second : Pieces → Option Value} (rewritten : Rewritten action work first)
    (further : ∀ pieces text after, TextOf after.slots pieces text → Gives (next text) after (second pieces)) :
    Gives (action >>= next) work (first.bind second) := by
  cases first with
  | none =>
    obtain ⟨failure, after, run⟩ := rewritten
    exact ⟨failure, after, run_bind_error run _⟩
  | some pieces =>
    obtain ⟨text, after, grows, shows, run⟩ := rewritten
    have rest := further pieces text after shows
    rw [Option.bind_some]
    cases same : second pieces with
    | none =>
      rw [same] at rest
      obtain ⟨failure, ended, run'⟩ := rest
      exact ⟨failure, ended, (run_bind_ok run _).trans run'⟩
    | some result =>
      rw [same] at rest
      obtain ⟨ended, grows', numbered', run'⟩ := rest
      exact ⟨ended, grows_trans grows grows', numbered', (run_bind_ok run _).trans run'⟩

omit plain in
/-- A reduced text has the value of its pieces, be it the name of a slot or read. -/
theorem gives_read {pieces : Pieces} {text : List Char} {work : Workspace} (shows : TextOf work.slots pieces text) :
    Gives (do
      let slots := (← get).slots
      match slots.get? (String.ofList (Text.trim text)) with
      | some bound => return bound
      | none =>
        let lookup (name : String) := (slots.get? name).or (setting.symbols.get? name)
        liftResult (evaluateReduced ⟨lookup, setting.nodeText⟩ text)) work (read setting pieces) := by
  have known := @read_text setting _ _ _ shows.numbered shows.writes _ shows.orderly
  rw [← known]
  refine gives_result shows.numbered ?_
  rw [run_get]
  dsimp only
  cases kept : work.slots.get? (String.ofList (Text.trim text)) with
  | some v =>
    rw [evaluateReduced_slot shows.numbered kept]
    rfl
  | none => exact run_liftResult (evaluateReduced (setting.environment work.slots) text) work

/-- The evaluation of a text of pieces fails, or gives their value. -/
theorem gives_evaluateText (depth : Nat) : ∀ {pieces : Pieces} {found : Argument} {text : List Char} {work : Workspace},
    pieces.orderly true .plain .none found = true → Numbered work.slots → pieces.Writes work.slots text →
    Gives (evaluateText setting depth text) work (evaluated setting depth pieces) := by
  induction depth with
  | zero => exact fun _ _ _ => ⟨_, _, rfl⟩
  | succ depth ih =>
    intro pieces found text work fits numbered writes
    have evaluates : Evaluates (evaluateText setting depth) (evaluated setting depth) := fun fits numbered writes =>
      ih (orderly_weaken (fun _ => rfl) (.inr rfl) (Callee.weaker_refl _) (.inr rfl) fits) numbered writes
    have rewritten := rewritten_simplified plain evaluates fits numbered writes
    have whole := gives_rewritten rewritten fun pieces text after shows => @gives_read setting _ _ _ shows
    simp only [bind_assoc] at whole
    exact whole

theorem evaluates_evaluateText (depth : Nat) : Evaluates (evaluateText setting depth) (evaluated setting depth) :=
  fun fits numbered writes => gives_evaluateText plain depth
    (orderly_weaken (fun _ => rfl) (.inr rfl) (Callee.weaker_refl _) (.inr rfl) fits) numbered writes

theorem orderly_simplified {depth : Nat} {pieces : Pieces} {found : Argument} (fits : pieces.orderly true .plain .none found = true)
    {result : Pieces} (stepped : simplified setting (evaluated setting depth) pieces.dropSign = some result) :
    result.orderly false .plain .none .outside = true := by
  have start : Numbered [] := rfl
  obtain ⟨-, numbered, writes⟩ := writes_spelled fits start
  have rewritten := @rewritten_simplified _ plain _ _ (evaluates_evaluateText plain depth) _ _ fits _
    ⟨(pieces.spelled []).1, [], .new .none 0⟩ numbered writes
  rw [stepped] at rewritten
  obtain ⟨text, after, -, shows, -⟩ := rewritten
  exact shows.orderly

end

/-! ### A larger bound -/

/-- What has a value keeps it. -/
def Refines {α β : Type} (first second : α → Option β) : Prop := ∀ x y, first x = some y → second x = some y

section

variable {value value' : Pieces → Option Value} (refines : Refines value value')

include refines

theorem refines_arguments : Refines (List.mapM (argumentResult value)) (List.mapM (argumentResult value')) := by
  intro arguments
  induction arguments with
  | nil => exact fun _ same => same
  | cons argument arguments ih =>
    intro args known
    rw [List.mapM_cons] at known ⊢
    obtain ⟨first, same, known⟩ := Option.bind_eq_some_iff.mp known
    obtain ⟨others, rest, known⟩ := Option.bind_eq_some_iff.mp known
    refine Option.bind_eq_some_iff.mpr ⟨first, ?_, Option.bind_eq_some_iff.mpr ⟨others, ih others rest, known⟩⟩
    unfold argumentResult at same ⊢
    split
    · exact same
    · rename_i other
      split at same
      · exact absurd rfl (other _ _)
      · exact refines _ _ same

theorem callAt_refines {name cs : List Char} {function : Function} {edge : Edge} {rest : Pieces} :
    match callAt name (callResult value function) edge cs rest with
    | none => callAt name (callResult value' function) edge cs rest = none
    | some (none, _) => True
    | some (some add, behind) => callAt name (callResult value' function) edge cs rest = some (some add, behind) := by
  unfold callAt
  by_cases here : cs = name ∧ edge = .plain
  · rw [if_pos here, if_pos here]
    cases rest.callBehind with
    | none => rfl
    | some call =>
      simp only [Option.bind_some, callResult, Option.map_some]
      cases values : call.1.arguments.mapM (argumentResult value) with
      | none => trivial
      | some args =>
        rw [refines_arguments refines _ _ values]
        simp only [Option.bind_some]
        cases literalPieces (function.result args) with
        | none => trivial
        | some add => rfl
  · rw [if_neg here, if_neg here]

theorem replaceCalls_refines (name : List Char) (function : Function) (edge : Edge) :
    Refines (replaceCalls name (callResult value function) edge) (replaceCalls name (callResult value' function) edge) := by
  intro pieces
  have descends := descends_calls name (callResult value function)
  have descends' := descends_calls name (callResult value' function)
  induction pieces using smaller_induction generalizing edge with
  | further pieces smaller =>
  intro result stepped
  cases pieces with
  | nil =>
    rw [descends.ended] at stepped
    rw [descends'.ended]
    exact stepped
  | mark c rest =>
    rw [descends.mark edge c rest rfl] at stepped
    obtain ⟨inner, same, rfl⟩ := Option.map_eq_some_iff.mp stepped
    rw [descends'.mark edge c rest rfl, smaller rest (by simp only [mark.sizeOf_spec]; omega) _ _ same]
    rfl
  | run cs rest =>
    have call := @callAt_refines _ _ refines name cs function edge rest
    cases called : callAt name (callResult value function) edge cs rest with
    | none =>
      rw [called] at call
      rw [replaceCalls_run called] at stepped
      obtain ⟨inner, same, rfl⟩ := Option.map_eq_some_iff.mp stepped
      rw [replaceCalls_run call, smaller rest (by simp only [run.sizeOf_spec]; omega) _ _ same]
      rfl
    | some parts =>
      obtain ⟨stands, behind⟩ := parts
      rw [called] at call
      rw [replaceCalls_call called] at stepped
      obtain ⟨add, rfl, stepped⟩ := Option.bind_eq_some_iff.mp stepped
      obtain ⟨inner, same, rfl⟩ := Option.map_eq_some_iff.mp stepped
      obtain ⟨-, -, inside, found, -⟩ := callAt_spec called
      have less := (sizeOf_callBehind found).2
      rw [replaceCalls_call call, smaller behind (by simp only [run.sizeOf_spec]; omega) _ _ same]
      rfl
  | value v rest =>
    rw [descends.value] at stepped
    obtain ⟨inner, same, rfl⟩ := Option.map_eq_some_iff.mp stepped
    rw [descends'.value, smaller rest (by simp only [Pieces.value.sizeOf_spec]; omega) _ _ same]
    rfl
  | literal quote content rest =>
    rw [descends.literal] at stepped
    obtain ⟨inner, same, rfl⟩ := Option.map_eq_some_iff.mp stepped
    rw [descends'.literal, smaller rest (by simp only [literal.sizeOf_spec]; omega) _ _ same]
    rfl
  | brackets round inside rest =>
    rw [descends.brackets] at stepped
    obtain ⟨within, first, stepped⟩ := Option.bind_eq_some_iff.mp stepped
    obtain ⟨inner, same, rfl⟩ := Option.map_eq_some_iff.mp stepped
    rw [descends'.brackets, smaller inside (by simp only [brackets.sizeOf_spec]; omega) _ _ first,
      smaller rest (by simp only [brackets.sizeOf_spec]; omega) _ _ same]
    rfl

theorem inlinedFunctions_refines (functions : List (String × Function)) :
    Refines (inlinedFunctions value functions) (inlinedFunctions value' functions) := by
  induction functions with
  | nil => exact fun _ _ same => same
  | cons entry others ih =>
    intro pieces result stepped
    obtain ⟨inner, first, stepped⟩ := Option.bind_eq_some_iff.mp stepped
    exact Option.bind_eq_some_iff.mpr ⟨inner, replaceCalls_refines refines _ _ _ _ _ first, ih _ _ stepped⟩

theorem simplified_refines (setting : Setting) : Refines (simplified setting value) (simplified setting value') := by
  intro pieces result stepped
  obtain ⟨replaced, first, stepped⟩ := Option.bind_eq_some_iff.mp stepped
  obtain ⟨passed, second, stepped⟩ := Option.bind_eq_some_iff.mp stepped
  obtain ⟨called, third, stepped⟩ := Option.bind_eq_some_iff.mp stepped
  exact Option.bind_eq_some_iff.mpr ⟨replaced, first, Option.bind_eq_some_iff.mpr ⟨passed, second,
    Option.bind_eq_some_iff.mpr ⟨called, inlinedFunctions_refines refines _ _ _ third, stepped⟩⟩⟩

end

theorem evaluated_refines (setting : Setting) {depth depth' : Nat} (less : depth ≤ depth') :
    Refines (evaluated setting depth) (evaluated setting depth') := by
  induction depth generalizing depth' with
  | zero => exact fun _ _ => nofun
  | succ depth ih =>
    cases depth' with
    | zero => cases less
    | succ depth' =>
      intro pieces v known
      obtain ⟨result, first, same⟩ := Option.bind_eq_some_iff.mp known
      exact Option.bind_eq_some_iff.mpr
        ⟨result, simplified_refines (ih (Nat.le_of_succ_le_succ less)) setting _ _ first, same⟩

end ProceduralScene.Expression
