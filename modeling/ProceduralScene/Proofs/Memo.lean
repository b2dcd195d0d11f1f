import ProceduralScene.Proofs.CanonicalText
import ProceduralScene.Proofs.Oblivious
import ProceduralScene.Proofs.Outcome

/-!
What the memo of an evaluator shows. With functions that depend on their arguments alone, every entry of the memo is
the value that an evaluator without a memo has for a context that was passed before, and two contexts share an entry
only when they are equal up to the order of their names and of the entries of maps.
-/

set_option autoImplicit false

namespace ProceduralScene

open Expression

namespace Evaluator

/-- Evaluators with the same functions, constants and bound on rewriting passes. -/
structure SameTables (ev other : Evaluator) : Prop where
  functions : other.functions = ev.functions
  constants : other.constants = ev.constants
  maxPasses : other.maxPasses = ev.maxPasses

/-- Without the memo an evaluator has one value for a text and its symbols, whatever it evaluated before and whatever
the records name. -/
theorem evaluateFresh_tables {ev other : Evaluator} (tables : SameTables ev other)
    (pure : ∀ entry ∈ ev.functions, entry.2.IsPure) (nodeText : NodeText) (text : String) (symbols : Bindings)
    (path path' : Option String) :
    (ev.evaluateFresh nodeText text symbols path).1 = (other.evaluateFresh nodeText text symbols path').1 := by
  have along : other.setting nodeText symbols path' = (ev.setting nodeText symbols path).along path' := by
    simp only [setting, Setting.along, tables.functions, tables.constants, tables.maxPasses]
  have twin := twin_evaluateText (ev.setting nodeText symbols path) path' pure (nestingBound text.toList) text.toList
  rw [← along] at twin
  obtain ⟨results, -⟩ := twin ⟨[], ev.calls, ev.log⟩ ⟨[], other.calls, other.log⟩ rfl
  unfold evaluateFresh
  dsimp only
  rcases run : (evaluateText (ev.setting nodeText symbols path) (nestingBound text.toList) text.toList).run.run
    ⟨[], ev.calls, ev.log⟩ with ⟨failure | value, work⟩
  all_goals
    rcases run' : (evaluateText (other.setting nodeText symbols path') (nestingBound text.toList) text.toList).run.run
      ⟨[], other.calls, other.log⟩ with ⟨failure' | value', work'⟩
    all_goals rw [run, run'] at results
  -- the results agree, so both fail and give zero or both give the same value
  all_goals cases results
  rfl

theorem evaluateFresh_keeps (ev : Evaluator) (nodeText : NodeText) (text : String) (symbols : Bindings)
    (path : Option String) : SameTables ev (ev.evaluateFresh nodeText text symbols path).2 ∧
      (ev.evaluateFresh nodeText text symbols path).2.memo = ev.memo := by
  unfold evaluateFresh
  dsimp only
  split
  split
  all_goals exact ⟨⟨rfl, rfl, rfl⟩, rfl⟩

/-- The evaluator after a text that its memo does not hold, with the value of the text. -/
def learn (ev : Evaluator) (nodeText : NodeText) (text context : String) (symbols : Bindings) (path : Option String) :
    Value × Evaluator :=
  let (value, after) := ev.evaluateFresh nodeText text symbols path
  (value, { after with memo := after.memo.insert (text, context) value })

theorem learn_value (ev : Evaluator) (nodeText : NodeText) (text context : String) (symbols : Bindings)
    (path : Option String) : (ev.learn nodeText text context symbols path).1 = (ev.evaluateFresh nodeText text symbols path).1 := by
  unfold learn
  generalize ev.evaluateFresh nodeText text symbols path = found
  rfl

theorem learn_keeps (ev : Evaluator) (nodeText : NodeText) (text context : String) (symbols : Bindings)
    (path : Option String) : SameTables ev (ev.learn nodeText text context symbols path).2 ∧
      (ev.learn nodeText text context symbols path).2.memo =
        ev.memo.insert (text, context) (ev.learn nodeText text context symbols path).1 := by
  obtain ⟨tables, memo⟩ := evaluateFresh_keeps ev nodeText text symbols path
  unfold learn
  generalize ev.evaluateFresh nodeText text symbols path = found at tables memo
  exact ⟨⟨tables.functions, tables.constants, tables.maxPasses⟩, by rw [← memo]⟩

/-- A text as it is evaluated: from the memo when it holds the text with the canonical text of the context, else
without the memo and then remembered. -/
theorem run_evaluate (nodeText : NodeText) (text : String) (ctx : Context) (path : Option String) (ev : Evaluator) :
    (evaluate nodeText (.text text) ctx path).run.run ev =
      match contextText nodeText ctx.flatten with
      | .error failure => (.error failure, ev)
      | .ok context =>
        match ev.memo[(text, context)]? with
        | some value => (.ok value, ev)
        | none => (.ok (ev.learn nodeText text context ctx.flatten path).1, (ev.learn nodeText text context ctx.flatten path).2) := by
  unfold evaluate
  dsimp only
  cases contextText nodeText ctx.flatten with
  | error failure => rfl
  | ok context =>
    show (match ev.memo[(text, context)]? with
      | some value => Pure.pure value
      | none =>
        match ev.evaluateFresh nodeText text ctx.flatten path with
        | (value, after) => do
          set { after with memo := after.memo.insert (text, context) value }
          return value : Evaluation Value).run.run ev = _
    unfold learn
    dsimp only
    generalize ev.evaluateFresh nodeText text ctx.flatten path = found
    cases ev.memo[(text, context)]? <;> rfl

/-- An action that relates its first state to its last one whether it succeeds or fails. -/
theorem within_any_iff {σ α : Type} {R : σ → σ → Prop} {action : ExceptT Failure (StateM σ) α} {before : σ} :
    Within R action before (fun _ _ => True) ↔ R before (action.run.run before).2 := by
  unfold Within Ends
  rcases action.run.run before with ⟨_ | value, after⟩
  · exact Iff.rfl
  · exact and_iff_left trivial

/-- The tables stay, and the memo gains entries of one kind only. -/
structure Learns (learned : String × String → Value → Prop) (before after : Evaluator) : Prop where
  tables : SameTables before after
  memo : ∀ (key : String × String) (value : Value), after.memo[key]? = some value →
    before.memo[key]? = some value ∨ learned key value

theorem steady_learns (learned : String × String → Value → Prop) : Steady (Learns learned) where
  refl _ := ⟨⟨rfl, rfl, rfl⟩, fun _ _ found => .inl found⟩
  trans first second := by
    refine ⟨⟨second.tables.functions.trans first.tables.functions, second.tables.constants.trans first.tables.constants,
      second.tables.maxPasses.trans first.tables.maxPasses⟩, fun key value found => ?_⟩
    rcases second.memo key value found with before | new
    · exact first.memo key value before
    · exact .inr new

/-- The entry that a text and a context leave: the value of an evaluator without a memo under the canonical text of
the context. -/
def EntryOf (ev : Evaluator) (nodeText : NodeText) (expression : Value) (ctx : Context) (key : String × String)
    (value : Value) : Prop :=
  expression = .text key.1 ∧ contextText nodeText ctx.flatten = .ok key.2 ∧
    value = (ev.evaluateFresh nodeText key.1 ctx.flatten none).1

section

variable {fresh : Evaluator} (pure : ∀ entry ∈ fresh.functions, entry.2.IsPure) (nodeText : NodeText)

include pure

theorem learns_evaluate (expression : Value) (ctx : Context) (path : Option String) {ev : Evaluator}
    (tables : SameTables fresh ev) : Within (Learns (EntryOf fresh nodeText expression ctx))
      (evaluate nodeText expression ctx path) ev fun _ _ => True := by
  cases expression with
  | text text =>
    rw [within_any_iff, run_evaluate]
    cases written : contextText nodeText ctx.flatten with
    | error failure => exact (steady_learns _).refl ev
    | ok context =>
      dsimp only
      cases ev.memo[(text, context)]? with
      | some value => exact (steady_learns _).refl ev
      | none =>
        dsimp only
        obtain ⟨kept, memo⟩ := learn_keeps ev nodeText text context ctx.flatten path
        refine ⟨kept, fun key value found => ?_⟩
        rw [memo, Std.HashMap.getElem?_insert, learn_value,
          ← evaluateFresh_tables tables pure nodeText text ctx.flatten none path] at found
        by_cases same : ((text, context) == key) = true
        · rw [if_pos same] at found
          rw [← eq_of_beq same]
          exact .inr ⟨rfl, written, (Option.some.inj found).symm⟩
        · rw [if_neg same] at found
          exact .inl found
  | _ => exact within_any_iff.mpr ((steady_learns _).refl ev)

omit pure in
theorem learns_interpolate (learned : String × String → Value → Prop) (label : String) (symbols : Bindings)
    (path : Option String) (text : List Char) : ∀ (skip : Nat) (ev : Evaluator),
      Within (Learns learned) (interpolate nodeText label symbols path skip text) ev fun _ _ => True := by
  have steady := steady_learns learned
  induction text with
  | nil =>
    intro skip ev
    cases skip <;> exact within_pure steady trivial
  | cons c rest ih =>
    intro skip ev
    have further : ∀ (head : List Char) (skip : Nat) (ev : Evaluator), Within (Learns learned)
        (do return head ++ (← interpolate nodeText label symbols path skip rest)) ev fun _ _ => True :=
      fun head skip ev => within_seq steady (ih skip ev) fun _ _ _ => within_pure steady trivial
    cases skip with
    | succ skip => exact ih _ _
    | zero =>
      rw [interpolate]
      dsimp only
      split
      · exact further [c] _ ev
      · split
        · split
          · exact further _ _ ev
          · exact within_throw steady
        · refine within_seq steady (within_modify ⟨⟨rfl, rfl, rfl⟩, fun _ _ found => .inl found⟩ trivial) fun _ after _ => ?_
          exact further (c :: _) _ after

theorem learns_render (label : Value) (ctx : Context) (path : Option String) {ev : Evaluator}
    (tables : SameTables fresh ev) : Within (Learns (EntryOf fresh nodeText label ctx))
      (render nodeText label ctx path) ev fun _ _ => True := by
  have steady := steady_learns (EntryOf fresh nodeText label ctx)
  unfold render
  split
  · dsimp only
    split
    · exact learns_evaluate pure nodeText _ ctx path tables
    · split
      · exact within_pure steady trivial
      · exact within_seq steady (learns_interpolate nodeText _ _ _ _ _ _ ev) fun _ _ _ => within_pure steady trivial
  · exact within_pure steady trivial

end

/-- One use of an evaluator. -/
inductive Use where
  | evaluate (expression : Value) (ctx : Context) (path : Option String)
  | render (label : Value) (ctx : Context) (path : Option String)
  | clear

/-- The evaluator after one use, whether it gave a value or failed. -/
def use (nodeText : NodeText) (ev : Evaluator) : Use → Evaluator
  | .evaluate expression ctx path => ((evaluate nodeText expression ctx path).run.run ev).2
  | .render label ctx path => ((render nodeText label ctx path).run.run ev).2
  | .clear => ev.clearMemo

def afterUses (nodeText : NodeText) (ev : Evaluator) (uses : List Use) : Evaluator := uses.foldl (use nodeText) ev

/-- The expressions that may be remembered after one more use, with their contexts. -/
def Use.passed (before : List (Value × Context)) : Use → List (Value × Context)
  | .evaluate expression ctx _ | .render expression ctx _ => (expression, ctx) :: before
  | .clear => []

/-- The expressions and labels passed since the memo was last emptied, with their contexts. -/
def passedSince (uses : List Use) : List (Value × Context) := uses.foldl Use.passed []

/-- What the evaluator answers. -/
def answer (ev : Evaluator) (nodeText : NodeText) (expression : Value) (ctx : Context) (path : Option String) :
    Except Failure Value := ((evaluate nodeText expression ctx path).run.run ev).1

/-- The tables are those of `fresh`, and every entry of the memo comes from something that was passed. -/
structure Remembers (fresh : Evaluator) (nodeText : NodeText) (passed : List (Value × Context)) (ev : Evaluator) : Prop where
  tables : SameTables fresh ev
  memo : ∀ (key : String × String) (value : Value), ev.memo[key]? = some value →
    ∃ given ∈ passed, EntryOf fresh nodeText given.1 given.2 key value

section

variable {fresh : Evaluator} (pure : ∀ entry ∈ fresh.functions, entry.2.IsPure) (nodeText : NodeText)

omit pure in
theorem remembers_learns {passed : List (Value × Context)} {ev after : Evaluator} (remembers : Remembers fresh nodeText passed ev)
    {expression : Value} {ctx : Context} (learns : Learns (EntryOf fresh nodeText expression ctx) ev after) :
    Remembers fresh nodeText ((expression, ctx) :: passed) after where
  tables := ⟨learns.tables.functions.trans remembers.tables.functions, learns.tables.constants.trans remembers.tables.constants,
    learns.tables.maxPasses.trans remembers.tables.maxPasses⟩
  memo key value found := by
    rcases learns.memo key value found with before | new
    · obtain ⟨given, member, entry⟩ := remembers.memo key value before
      exact ⟨given, List.mem_cons_of_mem _ member, entry⟩
    · exact ⟨(expression, ctx), List.mem_cons_self, new⟩

include pure

/-- One use keeps the memo a record of what was passed. -/
theorem remembers_use {passed : List (Value × Context)} {ev : Evaluator} (remembers : Remembers fresh nodeText passed ev)
    (next : Use) : Remembers fresh nodeText (next.passed passed) (use nodeText ev next) := by
  cases next with
  | evaluate expression ctx path =>
    exact remembers_learns nodeText remembers (within_any_iff.mp (learns_evaluate pure nodeText expression ctx path remembers.tables))
  | render label ctx path =>
    exact remembers_learns nodeText remembers (within_any_iff.mp (learns_render pure nodeText label ctx path remembers.tables))
  | clear =>
    refine ⟨⟨remembers.tables.functions, remembers.tables.constants, remembers.tables.maxPasses⟩, fun key value found => ?_⟩
    have empty : (ev.clearMemo.memo)[key]? = none := Std.HashMap.getElem?_empty
    rw [use, empty] at found
    cases found

theorem remembers_uses (uses : List Use) : ∀ {passed : List (Value × Context)} {ev : Evaluator},
    Remembers fresh nodeText passed ev →
      Remembers fresh nodeText (uses.foldl Use.passed passed) (afterUses nodeText ev uses) := by
  induction uses with
  | nil => exact fun remembers => remembers
  | cons next rest ih => exact fun remembers => ih (remembers_use pure nodeText remembers next)

end

theorem answer_text (ev : Evaluator) (nodeText : NodeText) (text : String) (ctx : Context) (path : Option String) :
    ev.answer nodeText (.text text) ctx path =
      match contextText nodeText ctx.flatten with
      | .error failure => .error failure
      | .ok context =>
        match ev.memo[(text, context)]? with
        | some value => .ok value
        | none => .ok (ev.evaluateFresh nodeText text ctx.flatten path).1 := by
  rw [answer, run_evaluate]
  cases contextText nodeText ctx.flatten with
  | error failure => rfl
  | ok context =>
    dsimp only
    cases ev.memo[(text, context)]? <;> rfl

/-- Whatever an evaluator was used for, its answer to an expression is the one it gave at first to the expression in
some context, passed now or since the memo was last emptied, that is equal to the given context up to the order of the
names and of the entries of maps. -/
theorem memo_transparent (nodeText : NodeText) {ev : Evaluator} (pure : ∀ entry ∈ ev.functions, entry.2.IsPure)
    (empty : ev.memo = {}) (uses : List Use) (data : ∀ given ∈ passedSince uses, given.2.flatten.toMap.isData = true)
    (expression : Value) (ctx : Context) (dataNow : ctx.flatten.toMap.isData = true) (path : Option String) :
    ∃ given : Context, (given = ctx ∨ (expression, given) ∈ passedSince uses) ∧
      Value.Reordered given.flatten.toMap ctx.flatten.toMap ∧
      (afterUses nodeText ev uses).answer nodeText expression ctx path = ev.answer nodeText expression given path := by
  have start : Remembers ev nodeText [] ev := by
    refine ⟨⟨rfl, rfl, rfl⟩, fun key value found => ?_⟩
    rw [empty, Std.HashMap.getElem?_empty] at found
    cases found
  have remembers := remembers_uses pure nodeText uses start
  have freshAnswer : ∀ (text : String) (given : Context) (context : String), contextText nodeText given.flatten = .ok context →
      ev.answer nodeText (.text text) given path = .ok (ev.evaluateFresh nodeText text given.flatten path).1 := by
    intro text given context written
    rw [answer_text, written, empty]
    dsimp only
    rw [Std.HashMap.getElem?_empty]
  cases expression with
  | text text =>
    rw [answer_text]
    cases written : contextText nodeText ctx.flatten with
    | error failure =>
      refine ⟨ctx, .inl rfl, .same _, ?_⟩
      rw [answer_text, written]
    | ok context =>
      dsimp only
      cases found : (afterUses nodeText ev uses).memo[(text, context)]? with
      | none =>
        refine ⟨ctx, .inl rfl, .same _, ?_⟩
        dsimp only
        rw [freshAnswer text ctx context written, evaluateFresh_tables remembers.tables pure nodeText text ctx.flatten path path]
      | some value =>
        obtain ⟨given, member, same, writtenGiven, known⟩ := remembers.memo (text, context) value found
        refine ⟨given.2, .inr (same ▸ member), ?_, ?_⟩
        · exact Json.reordered_of_canonical (data given member) dataNow writtenGiven written
        · rw [freshAnswer text given.2 context writtenGiven, known,
            evaluateFresh_tables ⟨rfl, rfl, rfl⟩ pure nodeText text given.2.flatten none path]
  | _ => exact ⟨ctx, .inl rfl, .same _, rfl⟩

/-- Contexts with one canonical text share the value of the one that was evaluated first. -/
theorem answer_shared (nodeText : NodeText) {ev : Evaluator} (empty : ev.memo = {}) (text : String) {ctx ctx' : Context}
    {context : String} (written : contextText nodeText ctx.flatten = .ok context)
    (written' : contextText nodeText ctx'.flatten = .ok context) (path path' : Option String) :
    (afterUses nodeText ev [.evaluate (.text text) ctx path]).answer nodeText (.text text) ctx' path' =
      ev.answer nodeText (.text text) ctx path := by
  have unknown : ev.memo[(text, context)]? = none := by rw [empty, Std.HashMap.getElem?_empty]
  have after : afterUses nodeText ev [.evaluate (.text text) ctx path] =
      (ev.learn nodeText text context ctx.flatten path).2 := by
    show ((evaluate nodeText (.text text) ctx path).run.run ev).2 = _
    rw [run_evaluate, written]
    dsimp only
    rw [unknown]
  rw [after, answer_text, written', answer_text, written]
  dsimp only
  rw [(learn_keeps ev nodeText text context ctx.flatten path).2, Std.HashMap.getElem?_insert_self, unknown, learn_value]

section

/-- An evaluator without functions and constants. -/
def bare : Evaluator := ⟨[], [], 1, {}, [], .new .none 0⟩

def noNodes : NodeText := fun _ => .error .wrongKind

/-- A context with one name that is bound to a map with two entries. -/
def pairContext (first second : String × Bool) : Context :=
  [[("a", .map [(.text first.1, .bool first.2), (.text second.1, .bool second.2)])]]

theorem sortEntries_pair (a b s t : String) : Json.sortEntries [(.text a, s), (.text b, t)] =
    .ok (if Text.ordered a b then [(.text a, s), (.text b, t)] else [(.text b, t), (.text a, s)]) := by
  by_cases order : Text.ordered a b = true
  all_goals simp [Json.sortEntries, Json.sameKeyKind, Json.keyBefore, List.mergeSort, List.MergeSort.Internal.splitInTwo, order]

theorem flatten_pair (first second : String × Bool) : (pairContext first second).flatten.toMap =
    .map [(.text "a", .map [(.text first.1, .bool first.2), (.text second.1, .bool second.2)])] := rfl

theorem contextText_pair (first second : String × Bool) :
    contextText noNodes (pairContext first second).flatten =
      (Json.sortEntries [(.text first.1, Json.quoted first.1 ++ ": " ++ Json.boolText first.2),
        (.text second.1, Json.quoted second.1 ++ ": " ++ Json.boolText second.2)]).map fun sorted =>
          "\x7b" ++ (Json.quoted "a" ++ ": " ++ ("\x7b" ++ ", ".intercalate (sorted.map (·.2)) ++ "\x7d")) ++ "\x7d" := by
  have inner : Json.canonical noNodes (.map [(.text first.1, .bool first.2), (.text second.1, .bool second.2)]) =
      (Json.sortEntries [(.text first.1, Json.quoted first.1 ++ ": " ++ Json.boolText first.2),
        (.text second.1, Json.quoted second.1 ++ ": " ++ Json.boolText second.2)]).map fun sorted =>
          "\x7b" ++ ", ".intercalate (sorted.map (·.2)) ++ "\x7d" := by
    rw [Json.canonical]
    rfl
  rw [sortEntries_pair] at inner ⊢
  rw [contextText, flatten_pair, Json.canonical, Json.canonicalEntries, inner]
  rfl

theorem isData_pair (first second : String × Bool) : (pairContext first second).flatten.toMap.isData = true := by
  rw [flatten_pair]
  rfl

/-- Whether a value is a text. -/
def isTextOf (text : String) : Value → Bool
  | .text found => found == text
  | _ => false

theorem eq_of_isTextOf {text : String} {value : Value} (same : isTextOf text value = true) : value = .text text := by
  cases value with
  | text found => rw [eq_of_beq same]
  | _ => cases same

/-- A text that is made from a map keeps the order in which the entries stood when it was made first, and the memo
gives that text for the map with its entries in another order. -/
theorem memo_shows_order :
    (∀ entry ∈ bare.functions, entry.2.IsPure) ∧ bare.memo = {} ∧
    (pairContext ("x", true) ("y", false)).flatten.toMap.isData = true ∧
    (pairContext ("y", false) ("x", true)).flatten.toMap.isData = true ∧
    (afterUses noNodes bare [.evaluate (.text "'' + $a") (pairContext ("x", true) ("y", false)) none]).answer noNodes
      (.text "'' + $a") (pairContext ("y", false) ("x", true)) none = .ok (.text "\x7b'x': True, 'y': False\x7d") ∧
    bare.answer noNodes (.text "'' + $a") (pairContext ("y", false) ("x", true)) none =
      .ok (.text "\x7b'y': False, 'x': True\x7d") := by
  have key : contextText noNodes (pairContext ("x", true) ("y", false)).flatten =
      .ok "\x7b\"a\": \x7b\"x\": true, \"y\": false\x7d\x7d" := by
    rw [contextText_pair, sortEntries_pair]
    rfl
  have key' : contextText noNodes (pairContext ("y", false) ("x", true)).flatten =
      .ok "\x7b\"a\": \x7b\"x\": true, \"y\": false\x7d\x7d" := by
    rw [contextText_pair, sortEntries_pair]
    rfl
  have first : (bare.evaluateFresh noNodes "'' + $a" (pairContext ("x", true) ("y", false)).flatten none).1 =
      .text "\x7b'x': True, 'y': False\x7d" := eq_of_isTextOf (by decide +kernel)
  have second : (bare.evaluateFresh noNodes "'' + $a" (pairContext ("y", false) ("x", true)).flatten none).1 =
      .text "\x7b'y': False, 'x': True\x7d" := eq_of_isTextOf (by decide +kernel)
  have unknown : ∀ key : String × String, bare.memo[key]? = none := fun key => Std.HashMap.getElem?_empty
  refine ⟨fun entry member => (List.not_mem_nil member).elim, rfl, isData_pair _ _, isData_pair _ _, ?_, ?_⟩
  · rw [answer_shared noNodes rfl _ key key' none none, answer_text, key]
    dsimp only
    rw [unknown, first]
  · rw [answer_text, key']
    dsimp only
    rw [unknown, second]

theorem memo_transparent_pair :
    ((∀ entry ∈ bare.functions, entry.2.IsPure) ∧ bare.memo = {} ∧
      (∀ given ∈ passedSince [.evaluate (.text "'' + $a") (pairContext ("x", true) ("y", false)) none],
        given.2.flatten.toMap.isData = true) ∧
      (pairContext ("y", false) ("x", true)).flatten.toMap.isData = true) ∧
    ∃ given : Context, (given = pairContext ("y", false) ("x", true) ∨ (Value.text "'' + $a", given) ∈
        passedSince [.evaluate (.text "'' + $a") (pairContext ("x", true) ("y", false)) none]) ∧
      Value.Reordered given.flatten.toMap (pairContext ("y", false) ("x", true)).flatten.toMap ∧
      (afterUses noNodes bare [.evaluate (.text "'' + $a") (pairContext ("x", true) ("y", false)) none]).answer noNodes
        (.text "'' + $a") (pairContext ("y", false) ("x", true)) none = bare.answer noNodes (.text "'' + $a") given none := by
  have pure : ∀ entry ∈ bare.functions, entry.2.IsPure := fun entry member => (List.not_mem_nil member).elim
  have data : ∀ given ∈ passedSince [.evaluate (.text "'' + $a") (pairContext ("x", true) ("y", false)) none],
      given.2.flatten.toMap.isData = true := by
    intro given member
    rw [List.mem_singleton.mp member]
    exact isData_pair _ _
  exact ⟨⟨pure, rfl, data, isData_pair _ _⟩, memo_transparent noNodes pure rfl
    [.evaluate (.text "'' + $a") (pairContext ("x", true) ("y", false)) none] data (.text "'' + $a")
    (pairContext ("y", false) ("x", true)) (isData_pair _ _) none⟩

end

end Evaluator

end ProceduralScene
