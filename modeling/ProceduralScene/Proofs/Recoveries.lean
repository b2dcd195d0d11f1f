import ProceduralScene.Proofs.Memo
import ProceduralScene.Proofs.MissingVariables

/-!
Where recoveries are recorded. An evaluation without the memo makes the same records for a text and its symbols whatever
was evaluated before, all of them under its own path. The memo keeps the value and not the records: those of a text stand
under the path of its first evaluation, and no evaluation that is answered from the memo makes any.
-/

set_option autoImplicit false

namespace ProceduralScene

open Expression

/-- What is recorded of a recovery, whatever the path. -/
structure Recovery where
  code : String
  text : String
  deriving DecidableEq

def Recovery.under (path : Option String) (recovery : Recovery) : Diagnostic :=
  ⟨"warning", recovery.code, recovery.text, path⟩

def Diagnostic.recovery (entry : Diagnostic) : Recovery := ⟨entry.code, entry.text⟩

theorem recoveries_under (path : Option String) (made : List Recovery) :
    (made.map (Recovery.under path)).map Diagnostic.recovery = made := by
  rw [List.map_map]
  exact List.map_id made

namespace Expression

/-- Workspaces with the same slots. Their logs gained the same recoveries, each under its own path. -/
structure Echoes (path path' : Option String) (log log' : List Diagnostic) (work other : Workspace) : Prop where
  slots : work.slots = other.slots
  made : ∃ made : List Recovery, work.log.stream = made.map (Recovery.under path) ++ log ∧
    other.log.stream = made.map (Recovery.under path') ++ log'

theorem lockstep_echoes (path path' : Option String) (log log' : List Diagnostic) :
    Lockstep path path' (Echoes path path' log log') where
  slots echoes := echoes.slots
  slot _ echoes := ⟨congrArg (· ++ [_]) echoes.slots, echoes.made⟩
  calls _ _ echoes := ⟨echoes.slots, echoes.made⟩
  record code text echoes := by
    obtain ⟨made, first, second⟩ := echoes.made
    exact ⟨echoes.slots, ⟨code, text⟩ :: made, congrArg (_ :: ·) first, congrArg (_ :: ·) second⟩

end Expression

namespace Evaluator

/-! ### One evaluation -/

section

variable {ev other : Evaluator}

theorem evaluateFresh_echoes (tables : SameTables ev other) (pure : ∀ entry ∈ ev.functions, entry.2.IsPure)
    (nodeText : NodeText) (text : String) (symbols : Bindings) (path path' : Option String) :
    ∃ made : List Recovery,
      (ev.evaluateFresh nodeText text symbols path).2.log.stream = made.map (Recovery.under path) ++ ev.log.stream ∧
      (other.evaluateFresh nodeText text symbols path').2.log.stream = made.map (Recovery.under path') ++ other.log.stream := by
  have along : other.setting nodeText symbols path' = (ev.setting nodeText symbols path).along path' := by
    simp only [setting, Setting.along, tables.functions, tables.constants, tables.maxPasses]
  have lockstep : Lockstep (ev.setting nodeText symbols path).path path' _ :=
    lockstep_echoes path path' ev.log.stream other.log.stream
  have agree := agree_evaluateText lockstep pure (nestingBound text.toList) text.toList
  rw [← along] at agree
  obtain ⟨results, -, made, first, second⟩ := agree ⟨[], ev.calls, ev.log⟩ ⟨[], other.calls, other.log⟩ ⟨rfl, [], rfl, rfl⟩
  unfold evaluateFresh
  dsimp only
  rcases run : (evaluateText (ev.setting nodeText symbols path) (nestingBound text.toList) text.toList).run.run
    ⟨[], ev.calls, ev.log⟩ with ⟨failure | value, work⟩
  all_goals
    rcases run' : (evaluateText (other.setting nodeText symbols path') (nestingBound text.toList) text.toList).run.run
      ⟨[], other.calls, other.log⟩ with ⟨failure' | value', work'⟩
    all_goals
      rw [run] at results first
      rw [run'] at results second
      cases results
  · -- both fail, which is recorded as well
    exact ⟨⟨"X01", Text.quoted text ++ " failed: " ++ failure.message⟩ :: made, congrArg (_ :: ·) first,
      congrArg (_ :: ·) second⟩
  · exact ⟨made, first, second⟩

/-- The recoveries of a text, newest first, as an evaluator with an empty log makes them. -/
def recoveries (ev : Evaluator) (nodeText : NodeText) (text : String) (symbols : Bindings) : List Recovery :=
  ({ ev with log := .new .none 0 }.evaluateFresh nodeText text symbols none).2.log.stream.map Diagnostic.recovery

/-- An evaluation without the memo adds the recoveries of its text, under its own path. -/
theorem evaluateFresh_log (tables : SameTables ev other) (pure : ∀ entry ∈ ev.functions, entry.2.IsPure)
    (nodeText : NodeText) (text : String) (symbols : Bindings) (path : Option String) :
    (other.evaluateFresh nodeText text symbols path).2.log.stream =
      (ev.recoveries nodeText text symbols).map (Recovery.under path) ++ other.log.stream := by
  have silent : SameTables { ev with log := .new .none 0 } other := ⟨tables.functions, tables.constants, tables.maxPasses⟩
  obtain ⟨made, first, second⟩ := evaluateFresh_echoes silent pure nodeText text symbols none path
  have same : ev.recoveries nodeText text symbols = made := by
    rw [recoveries, first, List.map_append, recoveries_under]
    exact List.append_nil made
  rw [same, second]

/-- An evaluation that fails leaves its failure as the newest recovery. -/
theorem recoveries_failed {nodeText : NodeText} {text : String} {symbols : Bindings} {failure : Failure} {work : Workspace}
    (fails : (evaluateText (ev.setting nodeText symbols none) (nestingBound text.toList) text.toList).run.run
      ⟨[], ev.calls, .new .none 0⟩ = (.error failure, work)) :
    (ev.recoveries nodeText text symbols).head? = some ⟨"X01", Text.quoted text ++ " failed: " ++ failure.message⟩ := by
  have setting : setting { ev with log := .new .none 0 } nodeText symbols none = ev.setting nodeText symbols none := rfl
  rw [recoveries, evaluateFresh]
  dsimp only
  rw [setting, fails]
  rfl

/-- The missing variables among the recoveries: one for each occurrence of a name without a binding. -/
theorem recoveries_missing (named : ∀ entry ∈ ev.functions, IsName entry.1.toList) (nodeText : NodeText) (text : String)
    (symbols : Bindings) (tokens : tokened none (dropAssignment text.toList) = true) :
    (ev.recoveries nodeText text symbols).filter (·.code == "X02") =
      ((missingNames symbols (variableNames none (dropAssignment text.toList))).map fun name =>
        (missingRecord (String.ofList (dropAssignment text.toList)) none name).recovery).reverse := by
  have missing := evaluateFresh_missing { ev with log := .new .none 0 } named nodeText text symbols none tokens
  rw [recoveries, List.filter_map]
  have silent : (DiagnosticLog.new .none 0).missing = [] := rfl
  rw [silent, List.append_nil] at missing
  have mapped := congrArg (List.map Diagnostic.recovery) missing
  rw [List.map_reverse, List.map_map] at mapped
  exact mapped

end

/-! ### Many evaluations -/

/-- The text that a use evaluates, with its context. -/
def Use.text? : Use → Option (String × Context)
  | .evaluate (.text text) ctx _ => some (text, ctx)
  | .render (.text text) ctx _ => if isComputedLabel (Text.trim text.toList) then some (text, ctx) else none
  | _ => none

/-- The texts that the memo knows after one more use, with the canonical texts of their contexts. -/
def Use.asked (nodeText : NodeText) (before : List (String × String)) : Use → List (String × String)
  | .clear => []
  | use =>
    match use.text? with
    | none => before
    | some (text, ctx) =>
      match contextText nodeText ctx.flatten with
      | .ok context => (text, context) :: before
      | .error _ => before

/-- The texts that were evaluated since the memo was last emptied, with the canonical texts of their contexts. -/
def askedSince (nodeText : NodeText) (uses : List Use) : List (String × String) := uses.foldl (Use.asked nodeText) []

/-- The same texts are in the memo. -/
def SameMemo (before after : Evaluator) : Prop := after.memo = before.memo

theorem steady_sameMemo : Steady SameMemo := ⟨fun _ => rfl, fun first second => second.trans first⟩

section

variable (nodeText : NodeText)

theorem interpolate_memo (label : String) (symbols : Bindings) (path : Option String) (text : List Char) :
    ∀ (skip : Nat) (ev : Evaluator), Within SameMemo (interpolate nodeText label symbols path skip text) ev fun _ _ => True := by
  induction text with
  | nil =>
    intro skip ev
    cases skip <;> exact within_pure steady_sameMemo trivial
  | cons c rest ih =>
    intro skip ev
    have further : ∀ (head : List Char) (skip : Nat) (ev : Evaluator), Within SameMemo
        (do return head ++ (← interpolate nodeText label symbols path skip rest)) ev fun _ _ => True :=
      fun head skip ev => within_seq steady_sameMemo (ih skip ev) fun _ _ _ => within_pure steady_sameMemo trivial
    cases skip with
    | succ skip => exact ih _ _
    | zero =>
      rw [interpolate]
      dsimp only
      split
      · exact further [c] _ ev
      · split
        · split
          · exact further _ _ ev
          · exact within_throw steady_sameMemo
        · refine within_seq steady_sameMemo (within_modify rfl trivial) fun _ after _ => ?_
          exact further (c :: _) _ after

theorem run_render (label : Value) (ctx : Context) (path : Option String) (ev : Evaluator) :
    (∃ text, (Use.render label ctx path).text? = some (text, ctx) ∧
      (render nodeText label ctx path).run.run ev = (evaluate nodeText (.text text) ctx path).run.run ev) ∨
    (Use.render label ctx path).text? = none ∧ SameMemo ev ((render nodeText label ctx path).run.run ev).2 := by
  cases label with
  | text text =>
    rw [render, Use.text?]
    by_cases computed : isComputedLabel (Text.trim text.toList) = true
    · exact .inl ⟨text, if_pos computed, by rw [if_pos computed]⟩
    · refine .inr ⟨if_neg computed, within_any_iff.mp ?_⟩
      rw [if_neg computed]
      split
      · exact within_pure steady_sameMemo trivial
      · exact within_seq steady_sameMemo (interpolate_memo nodeText _ _ _ _ _ ev) fun _ _ _ =>
          within_pure steady_sameMemo trivial
  | _ => exact .inr ⟨rfl, rfl⟩

/-- The memo knows a text after an evaluation when it knew it before or the text is the one evaluated. -/
theorem memo_evaluate (text : String) (ctx : Context) (path : Option String) (ev : Evaluator) (key : String × String) :
    key ∈ ((evaluate nodeText (.text text) ctx path).run.run ev).2.memo ↔
      key ∈ ev.memo ∨ ∃ context, contextText nodeText ctx.flatten = .ok context ∧ key = (text, context) := by
  rw [run_evaluate]
  cases contextText nodeText ctx.flatten with
  | error failure => simp
  | ok context =>
    dsimp only
    cases known : ev.memo[(text, context)]? with
    | some value =>
      have member : (text, context) ∈ ev.memo := Std.HashMap.mem_iff_isSome_getElem?.mpr (by simp [known])
      refine ⟨.inl, fun either => either.elim id ?_⟩
      rintro ⟨_, same, rfl⟩
      cases same
      exact member
    | none =>
      dsimp only
      rw [(learn_keeps ev nodeText text context ctx.flatten path).2, Std.HashMap.mem_insert, beq_iff_eq, or_comm]
      simp [eq_comm]

theorem mem_asked {next : Use} {text : String} {ctx : Context} (evaluated : next.text? = some (text, ctx))
    (before : List (String × String)) (key : String × String) : key ∈ next.asked nodeText before ↔
      key ∈ before ∨ ∃ context, contextText nodeText ctx.flatten = .ok context ∧ key = (text, context) := by
  have other : next.asked nodeText before = match contextText nodeText ctx.flatten with
      | .ok context => (text, context) :: before
      | .error _ => before := by
    cases next with
    | clear => cases evaluated
    | _ =>
      rw [Use.asked, evaluated]
      simp
  rw [other]
  cases contextText nodeText ctx.flatten with
  | error failure => simp
  | ok context => simp [or_comm]

theorem asked_none {next : Use} (evaluated : next.text? = none) (other : next ≠ .clear) (before : List (String × String)) :
    next.asked nodeText before = before := by
  cases next with
  | clear => exact absurd rfl other
  | _ =>
    rw [Use.asked, evaluated]
    simp

/-- One use makes the memo know the text that it evaluates. -/
theorem memo_use {ev : Evaluator} {before : List (String × String)} (known : ∀ key, key ∈ ev.memo ↔ key ∈ before)
    (next : Use) (key : String × String) : key ∈ (use nodeText ev next).memo ↔ key ∈ next.asked nodeText before := by
  cases next with
  | clear => exact iff_of_false Std.HashMap.not_mem_empty List.not_mem_nil
  | evaluate expression ctx path =>
    cases expression with
    | text text => rw [mem_asked nodeText rfl, ← known, use, memo_evaluate]
    | _ => exact known key
  | render label ctx path =>
    rcases run_render nodeText label ctx path ev with ⟨text, evaluated, same⟩ | ⟨none, same⟩
    · rw [mem_asked nodeText evaluated, ← known, use, same, memo_evaluate]
    · rw [asked_none nodeText none (by simp), use, same, known]

theorem memo_uses {ev : Evaluator} (empty : ev.memo = {}) (uses : List Use) (key : String × String) :
    key ∈ (afterUses nodeText ev uses).memo ↔ key ∈ askedSince nodeText uses := by
  have known : ∀ key, key ∈ ev.memo ↔ key ∈ ([] : List (String × String)) := by simp [empty]
  unfold afterUses askedSince
  generalize ([] : List (String × String)) = before at known ⊢
  clear empty
  induction uses generalizing ev before with
  | nil => exact known key
  | cons next rest ih => exact ih _ (memo_use nodeText known next)

end

/-- An evaluation adds the recoveries of its text under its own path when the text was not evaluated in such a context
since the memo was last emptied, and adds nothing when it was, whatever its path. -/
theorem recovered_once (nodeText : NodeText) {ev : Evaluator} (pure : ∀ entry ∈ ev.functions, entry.2.IsPure)
    (empty : ev.memo = {}) (uses : List Use) (text : String) {ctx : Context} {context : String}
    (written : contextText nodeText ctx.flatten = .ok context) (path : Option String) :
    (afterUses nodeText ev (uses ++ [.evaluate (.text text) ctx path])).log.stream =
      (if (text, context) ∈ askedSince nodeText uses then []
        else (ev.recoveries nodeText text ctx.flatten).map (Recovery.under path)) ++
      (afterUses nodeText ev uses).log.stream := by
  have tables : SameTables ev (afterUses nodeText ev uses) := by
    have start : Remembers ev nodeText [] ev := by
      refine ⟨⟨rfl, rfl, rfl⟩, fun key value found => ?_⟩
      rw [empty, Std.HashMap.getElem?_empty] at found
      cases found
    exact (remembers_uses pure nodeText uses start).tables
  have member := memo_uses nodeText empty uses (text, context)
  have last : afterUses nodeText ev (uses ++ [.evaluate (.text text) ctx path]) =
      ((evaluate nodeText (.text text) ctx path).run.run (afterUses nodeText ev uses)).2 := by
    simp [afterUses, use]
  rw [last, run_evaluate, written, ← if_congr member rfl rfl]
  dsimp only
  cases known : (afterUses nodeText ev uses).memo[(text, context)]? with
  | some value =>
    rw [if_pos (Std.HashMap.mem_iff_isSome_getElem?.mpr (by simp [known]))]
    rfl
  | none =>
    rw [if_neg (by simp [Std.HashMap.mem_iff_isSome_getElem?, known])]
    exact evaluateFresh_log tables pure nodeText text ctx.flatten path

/-- Of two evaluations of a text in contexts with one canonical text the second records nothing. -/
theorem recovered_before (nodeText : NodeText) {ev : Evaluator} (pure : ∀ entry ∈ ev.functions, entry.2.IsPure)
    (empty : ev.memo = {}) (uses : List Use) (text : String) {ctx ctx' : Context} {context : String}
    (written : contextText nodeText ctx.flatten = .ok context) (written' : contextText nodeText ctx'.flatten = .ok context)
    (path path' : Option String) :
    (afterUses nodeText ev (uses ++ [.evaluate (.text text) ctx path] ++ [.evaluate (.text text) ctx' path'])).log.stream =
      (afterUses nodeText ev (uses ++ [.evaluate (.text text) ctx path])).log.stream := by
  have asked : (text, context) ∈ askedSince nodeText (uses ++ [.evaluate (.text text) ctx path]) := by
    have evaluated : (Use.evaluate (.text text) ctx path).text? = some (text, ctx) := rfl
    rw [askedSince, List.foldl_append]
    exact (mem_asked nodeText evaluated _ _).mpr (.inr ⟨context, written, rfl⟩)
  rw [recovered_once nodeText pure empty _ text written' path', if_pos asked, List.nil_append]

end Evaluator

end ProceduralScene
