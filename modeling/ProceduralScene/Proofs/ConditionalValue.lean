import ProceduralScene.Expression.Library
import ProceduralScene.Proofs.ConditionalNesting
import ProceduralScene.Proofs.Memo

/-!
What an evaluator answers to a conditional. The three parts are all evaluated; when none of them fails, the answer is
the value of the part that the condition chooses, for a call of `if` as for a ternary.
-/

set_option autoImplicit false

namespace ProceduralScene

open Expression
open Expression.Pieces

namespace Evaluator

/-- The value of a text that is evaluated without a failure. -/
def value? (ev : Evaluator) (nodeText : NodeText) (text : String) (ctx : Context) (path : Option String) : Option Value :=
  (contextText nodeText ctx.flatten).toOption.bind fun _ =>
    ((evaluateText (ev.setting nodeText ctx.flatten path) (nestingBound text.toList) text.toList).run.run
      ⟨[], ev.calls, ev.log⟩).1.toOption

theorem answer_of_value {ev : Evaluator} (empty : ev.memo = {}) {nodeText : NodeText} {text : String} {ctx : Context}
    {path : Option String} {v : Value} (known : ev.value? nodeText text ctx path = some v) :
    ev.answer nodeText (.text text) ctx path = .ok v := by
  unfold value? at known
  rw [answer_text]
  cases written : contextText nodeText ctx.flatten with
  | error failure =>
    rw [written] at known
    cases known
  | ok context =>
    rw [written] at known
    dsimp only
    rw [empty, Std.HashMap.getElem?_empty]
    dsimp only
    unfold evaluateFresh
    dsimp only
    rcases run : (evaluateText (ev.setting nodeText ctx.flatten path) (nestingBound text.toList) text.toList).run.run
      ⟨[], ev.calls, ev.log⟩ with ⟨result, work⟩
    replace known : result.toOption = some v := by
      rw [← known]
      show _ = ((evaluateText _ _ _).run.run _).1.toOption
      rw [run]
    cases result with
    | error failure => cases known
    | ok found =>
      cases known
      rfl

end Evaluator

/-! ### The texts of conditionals -/

/-- The text of a call of `if`, with or without blanks behind its commas. -/
def conditionalCallText (spaced : Bool) (condition whenTrue whenFalse : String) : String :=
  "if(" ++ condition ++ (if spaced then ", " else ",") ++ whenTrue ++ (if spaced then ", " else ",") ++ whenFalse ++ ")"

/-- The text of a ternary of parts in parentheses, with or without blanks around its signs. -/
def conditionalSignText (spaced : Bool) (condition whenTrue whenFalse : String) : String :=
  "(" ++ condition ++ (if spaced then ") ? (" else ")?(") ++ whenTrue ++ (if spaced then ") : (" else "):(") ++ whenFalse ++ ")"

namespace Expression

theorem writes_gapped (spaced : Bool) {slots : Bindings} {rest : Pieces} {text : List Char} (writes : rest.Writes slots text) :
    (gap spaced rest).Writes slots ((if spaced then [' '] else []) ++ text) := by
  cases spaced with
  | false => exact writes
  | true => exact .mark writes

section

variable {slots : Bindings} {condition whenTrue whenFalse : Pieces} {c a b : String}
  (writes : condition.Writes slots c.toList) (writes' : whenTrue.Writes slots a.toList) (writes'' : whenFalse.Writes slots b.toList)

include writes writes' writes''

theorem writes_conditionalCall (spaced : Bool) :
    (conditionalCall condition (gap spaced whenTrue) (gap spaced whenFalse)).Writes slots
      (conditionalCallText spaced c a b).toList := by
  have inside : (separated condition (gap spaced whenTrue) (gap spaced whenFalse)).Writes slots _ :=
    writes_append writes (.mark (writes_append (writes_gapped spaced writes') (.mark (writes_gapped spaced writes''))))
  have whole : (conditionalCall condition (gap spaced whenTrue) (gap spaced whenFalse)).Writes slots _ :=
    .run (by decide) (.brackets inside .nil)
  cases spaced <;> simpa [conditionalCallText, conditionalName, opening, closing, String.toList_append] using whole

theorem writes_conditionalSign (spaced : Bool) :
    (branches spaced condition whenTrue whenFalse).Writes slots (conditionalSignText spaced c a b).toList := by
  have whole : (branches spaced condition whenTrue whenFalse).Writes slots _ :=
    .brackets writes (writes_gapped spaced (.mark (writes_gapped spaced (.brackets writes'
      (writes_gapped spaced (.mark (writes_gapped spaced (.brackets writes'' .nil))))))))
  cases spaced <;> simpa [conditionalSignText, opening, closing, String.toList_append] using whole

end

/-! ### The value of a conditional -/

/-- A text and the pieces of it, as a part of a conditional. -/
structure IsPartText (text : String) (pieces : Pieces) : Prop extends IsPart pieces where
  writes : pieces.Writes [] text.toList

theorem value_pieces {ev : Evaluator} {nodeText : NodeText} {ctx : Context} {path : Option String}
    (plain : (ev.setting nodeText ctx.flatten path).IsPlain) {context : String}
    (written : Evaluator.contextText nodeText ctx.flatten = .ok context) {text : String} {pieces : Pieces} {found : Argument}
    (writes : pieces.Writes [] text.toList) (fits : pieces.orderly true .plain .none found = true) :
    ev.value? nodeText text ctx path = evaluated (ev.setting nodeText ctx.flatten path) (nestingBound text.toList) pieces := by
  have start : Numbered [] := rfl
  have gives := @gives_evaluateText _ plain (nestingBound text.toList) _ _ _ ⟨[], ev.calls, ev.log⟩ fits start writes
  unfold Evaluator.value?
  rw [written]
  show ((evaluateText _ _ _).run.run _).1.toOption = _
  cases known : evaluated (ev.setting nodeText ctx.flatten path) (nestingBound text.toList) pieces with
  | none =>
    rw [known] at gives
    obtain ⟨failure, after, run⟩ := gives
    rw [run]
    rfl
  | some v =>
    rw [known] at gives
    obtain ⟨after, -, -, run⟩ := gives
    rw [run]
    rfl

/-- Blanks in front of a part do not matter to its value. -/
theorem evaluated_gap (setting : Setting) (spaced : Bool) (depth : Nat) (pieces : Pieces) :
    evaluated setting depth (gap spaced pieces) = evaluated setting depth pieces := by
  cases spaced with
  | false => rfl
  | true => cases depth <;> rfl

theorem length_conditionalText (spaced : Bool) (c a b : String) :
    ∀ text ∈ [conditionalCallText spaced c a b, conditionalSignText spaced c a b],
      c.toList.length + a.toList.length + b.toList.length ≤ text.toList.length := by
  intro text member
  rcases List.mem_pair.mp member with rfl | rfl <;> cases spaced <;>
    simp [conditionalCallText, conditionalSignText, String.toList_append] <;> omega

end Expression

/-- When the condition and both branches evaluate without a failure, each on its own, so does a conditional of them, and
its value is that of the branch that the condition chooses. Only the calls of `if` in the parts of such a call have to be
within reach of the passes that convert them. -/
theorem conditional_value (ev : Evaluator) (empty : ev.memo = {}) (nodeText : NodeText) (ctx : Context) (path : Option String)
    (plain : (ev.setting nodeText ctx.flatten path).IsPlain) {c a b : String} {condition whenTrue whenFalse : Pieces}
    (part : IsPartText c condition) (part' : IsPartText a whenTrue) (part'' : IsPartText b whenFalse)
    {test yes no : Value} (known : ev.value? nodeText c ctx path = some test) (known' : ev.value? nodeText a ctx path = some yes)
    (known'' : ev.value? nodeText b ctx path = some no) (spaced : Bool) {text : String}
    (form : text ∈ [conditionalCallText spaced c a b, conditionalSignText spaced c a b])
    (nested : text = conditionalCallText spaced c a b →
      ∀ part ∈ [condition, whenTrue, whenFalse], nesting false part < ev.maxPasses) :
    ev.value? nodeText text ctx path = some (if test.truthy then yes else no) ∧
      ev.answer nodeText (.text text) ctx path = .ok (if test.truthy then yes else no) := by
  suffices value : ev.value? nodeText text ctx path = some (if test.truthy then yes else no) from
    ⟨value, Evaluator.answer_of_value empty value⟩
  obtain ⟨context, written⟩ : ∃ context, Evaluator.contextText nodeText ctx.flatten = .ok context := by
    cases written : Evaluator.contextText nodeText ctx.flatten with
    | ok context => exact ⟨context, rfl⟩
    | error failure =>
      rw [Evaluator.value?, written] at known
      cases known
  -- every part is shorter than the whole, so the bound on nested arguments of the whole does for the parts
  have larger : ∀ {piece : String} {pieces : Pieces} {v : Value}, IsPartText piece pieces →
      ev.value? nodeText piece ctx path = some v → piece.toList.length ≤ text.toList.length →
      evaluated (ev.setting nodeText ctx.flatten path) (nestingBound text.toList) pieces = some v := by
    intro piece pieces v part known less
    rw [value_pieces plain written part.writes part.orderly] at known
    exact evaluated_refines _ (Nat.succ_le_succ less) _ _ known
  have length := length_conditionalText spaced c a b text form
  have first := larger part known (by omega)
  have second := larger part' known' (by omega)
  have third := larger part'' known'' (by omega)
  rcases List.mem_pair.mp form with rfl | rfl
  · have gapped := isPart_gap spaced part'.toIsPart
    have gapped' := isPart_gap spaced part''.toIsPart
    have fits := orderly_conditionalCall part.toIsPart gapped gapped'
    have blank : ∀ pieces, nesting false (gap spaced pieces) = nesting false pieces := by cases spaced <;> exact fun _ => rfl
    have nested' : nesting false (conditionalCall condition (gap spaced whenTrue) (gap spaced whenFalse)) ≤ ev.maxPasses :=
      nesting_conditionalCall (by simpa [blank] using nested rfl)
    rw [value_pieces plain written (writes_conditionalCall part.writes part'.writes part''.writes spaced) fits]
    rw [← evaluated_gap _ spaced] at second third
    exact evaluated_conditionalCall plain part.toIsPart gapped gapped' first second third (settles_of_nesting fits nested')
  · have fits := orderly_parts_branches spaced part.toIsPart part'.toIsPart part''.toIsPart
    rw [value_pieces plain written (writes_conditionalSign part.writes part'.writes part''.writes spaced) fits]
    exact evaluated_branches plain part.toIsPart part'.toIsPart part''.toIsPart first second third spaced

/-! ### The stock functions and constants -/

namespace Expression

theorem pure_functions : ∀ entry ∈ functions, entry.2.IsPure := by
  intro entry member
  rcases List.mem_append.mp member with stock | path
  · simp only [List.mem_cons, List.not_mem_nil, or_false] at stock
    rcases stock with rfl | rfl | rfl | rfl | rfl | rfl | rfl | rfl | rfl | rfl | rfl | rfl | rfl | rfl | rfl | rfl |
      rfl | rfl | rfl | rfl | rfl | rfl | rfl | rfl | rfl | rfl | rfl
    all_goals exact isPure_pure _
  · obtain ⟨generator, -, rfl⟩ := List.mem_map.mp path
    exact isPure_pure _

/-- Whether a name is a word that holds no name of a slot. -/
def isGivenName (name : String) : Bool :=
  !name.toList.isEmpty && name.toList.all Text.isWord && !holdsSlot name.toList

theorem givenName_of_isGivenName {name : String} (given : isGivenName name = true) : GivenName name := by
  simp only [isGivenName, Bool.and_eq_true, Bool.not_eq_true', List.all_eq_true, List.isEmpty_eq_false_iff] at given
  exact ⟨⟨given.1.1, given.1.2⟩, given.2⟩

/-- The stock evaluator evaluates with functions and constants that have names and are pure. -/
theorem isPlain_evaluator (maxPasses : Nat) (log : DiagnosticLog) (nodeText : NodeText) {symbols : Bindings}
    (path : Option String) (named : NamedVariables symbols) :
    ((evaluator [] [] maxPasses log).setting nodeText symbols path).IsPlain where
  functions entry member := by
    have names : functions.all (fun entry => isGivenName entry.1 && entry.1.toList != conditionalName) = true := by decide +kernel
    obtain ⟨given, other⟩ := Bool.and_eq_true_iff.mp (List.all_eq_true.mp names entry member)
    exact ⟨givenName_of_isGivenName given, bne_iff_ne.mp other, pure_functions entry member⟩
  constants entry member := by
    have names : constants.all (fun entry => isGivenName entry.1) = true := by decide +kernel
    refine ⟨givenName_of_isGivenName (List.all_eq_true.mp names entry member), ?_⟩
    replace member : entry ∈ constants := member
    simp only [constants, List.mem_cons, List.not_mem_nil, or_false] at member
    rcases member with rfl | rfl | rfl <;> trivial
  symbols := named

end Expression

/-! ### A conditional of the stock evaluator -/

namespace Evaluator

theorem contextText_nothing : ∃ context, contextText noNodes (Context.flatten []) = .ok context := by
  rw [contextText, show (Context.flatten []).toMap = .map [] from rfl, Json.canonical]
  exact ⟨_, rfl⟩

theorem contextText_single (name : String) {v : Value} (plain : ∃ text, Json.canonical noNodes v = .ok text) :
    ∃ context, contextText noNodes (Context.flatten [[(name, v)]]) = .ok context := by
  have flat : (Context.flatten [[(name, v)]]).toMap = .map [(.text name, v)] := rfl
  obtain ⟨text, shown⟩ := plain
  rw [contextText, flat, Json.canonical, Json.canonicalEntries, Json.canonicalEntries, shown]
  exact ⟨_, rfl⟩

/-- The value of a text in a context that has a text. -/
def freshValue? (ev : Evaluator) (ctx : Context) (text : String) : Option Value :=
  ((evaluateText (ev.setting noNodes ctx.flatten none) (nestingBound text.toList) text.toList).run.run ⟨[], ev.calls, ev.log⟩).1.toOption

theorem value_fresh (ev : Evaluator) {ctx : Context} (shown : ∃ context, contextText noNodes ctx.flatten = .ok context)
    (text : String) : ev.value? noNodes text ctx none = ev.freshValue? ctx text := by
  obtain ⟨context, written⟩ := shown
  rw [value?, written]
  rfl

def isIntOf (n : Int) : Value → Bool
  | .int found => found == n
  | _ => false

theorem eq_of_isIntOf {n : Int} {found : Option Value} (same : found.any (isIntOf n) = true) : found = some (.int n) := by
  cases found with
  | none => cases same
  | some v =>
    cases v with
    | int m => rw [eq_of_beq same]
    | _ => cases same

def sampleContext : Context := [[("x", .int 5)]]

def stock : Evaluator := Expression.evaluator [] [] 10 (.new .none 0)

/-- The pieces of `$x - 6`, of `max(x, 2) * 2` and of `0`. -/
def samplePieces : Pieces × Pieces × Pieces :=
  (.mark '$' (.run ['x'] (.mark ' ' (.mark '-' (.mark ' ' (.run ['6'] .nil))))),
    .run ['m', 'a', 'x'] (.brackets true (.run ['x'] (.mark ',' (.mark ' ' (.run ['2'] .nil))))
      (.mark ' ' (.mark '*' (.mark ' ' (.run ['2'] .nil))))),
    .run ['0'] .nil)

theorem conditional_value_sample :
    (stock.memo = {} ∧ (stock.setting noNodes sampleContext.flatten none).IsPlain ∧
      IsPartText "$x - 6" samplePieces.1 ∧ IsPartText "max(x, 2) * 2" samplePieces.2.1 ∧ IsPartText "0" samplePieces.2.2 ∧
      (∀ part ∈ [samplePieces.1, samplePieces.2.1, samplePieces.2.2], nesting false part < stock.maxPasses) ∧
      stock.value? noNodes "$x - 6" sampleContext none = some (.int (-1)) ∧
      stock.value? noNodes "max(x, 2) * 2" sampleContext none = some (.int 10) ∧
      stock.value? noNodes "0" sampleContext none = some (.int 0)) ∧
    ∀ text ∈ ["if($x - 6, max(x, 2) * 2, 0)", "($x - 6) ? (max(x, 2) * 2) : (0)"],
      stock.value? noNodes text sampleContext none = some (.int 10) ∧
      stock.answer noNodes (.text text) sampleContext none = .ok (.int 10) := by
  have plain : (stock.setting noNodes sampleContext.flatten none).IsPlain := by
    refine isPlain_evaluator _ _ _ _ fun entry member _ => ?_
    cases List.mem_singleton.mp member
    exact givenName_of_isGivenName (by decide)
  have part : IsPartText "$x - 6" samplePieces.1 :=
    ⟨⟨by decide, by decide, by decide, rfl⟩, .mark (.run (by decide) (.mark (.mark (.mark (.run (by decide) .nil)))))⟩
  have part' : IsPartText "max(x, 2) * 2" samplePieces.2.1 :=
    ⟨⟨by decide, by decide, by decide, rfl⟩, .run (by decide) (.brackets (.run (by decide) (.mark (.mark (.run (by decide) .nil))))
      (.mark (.mark (.mark (.run (by decide) .nil)))))⟩
  have part'' : IsPartText "0" samplePieces.2.2 := ⟨⟨by decide, by decide, by decide, rfl⟩, .run (by decide) .nil⟩
  have nested : ∀ part ∈ [samplePieces.1, samplePieces.2.1, samplePieces.2.2], nesting false part < stock.maxPasses := by
    intro part member
    simp only [List.mem_cons, List.not_mem_nil, or_false] at member
    rcases member with rfl | rfl | rfl <;> decide
  have shown : ∃ context, contextText noNodes sampleContext.flatten = .ok context :=
    contextText_single "x" ⟨"5", by rw [Json.canonical]; decide +kernel⟩
  have known : stock.value? noNodes "$x - 6" sampleContext none = some (.int (-1)) := by
    rw [value_fresh stock shown]
    exact eq_of_isIntOf (by decide +kernel)
  have known' : stock.value? noNodes "max(x, 2) * 2" sampleContext none = some (.int 10) := by
    rw [value_fresh stock shown]
    exact eq_of_isIntOf (by decide +kernel)
  have known'' : stock.value? noNodes "0" sampleContext none = some (.int 0) := by
    rw [value_fresh stock shown]
    exact eq_of_isIntOf (by decide +kernel)
  exact ⟨⟨rfl, plain, part, part', part'', nested, known, known', known''⟩,
    fun _ form => conditional_value stock rfl noNodes sampleContext none plain part part' part'' known known' known'' true form
      fun _ => nested⟩

end Evaluator

/-! ### What a conditional needs -/

/-- Where the condition holds, a conditional has the value of its first branch, whatever the other branch is. -/
def ChoosesFirst (ev : Evaluator) (nodeText : NodeText) (ctx : Context) (c a b : String) : Prop :=
  ∀ test chosen, ev.value? nodeText c ctx none = some test → test.truthy = true → ev.value? nodeText a ctx none = some chosen →
    ∀ text ∈ [conditionalCallText true c a b, conditionalSignText true c a b],
      ev.answer nodeText (.text text) ctx none = .ok chosen

namespace Evaluator

theorem not_choosesFirst {ev : Evaluator} (empty : ev.memo = {}) {ctx : Context}
    (shown : ∃ context, contextText noNodes ctx.flatten = .ok context) {c a b : String} (chosen : Value → Bool)
    (holds : (ev.freshValue? ctx c).any Value.truthy = true) (own : (ev.freshValue? ctx a).any chosen = true)
    (other : chosen (ev.evaluateFresh noNodes (conditionalCallText true c a b) ctx.flatten none).1 = false) :
    ¬ ChoosesFirst ev noNodes ctx c a b := by
  intro chooses
  have value := value_fresh ev shown
  obtain ⟨context, written⟩ := shown
  have stands : ∀ {found : Option Value} {holds : Value → Bool}, found.any holds = true → ∃ v, found = some v ∧ holds v = true := by
    intro found holds any
    cases found with
    | none => cases any
    | some v => exact ⟨v, rfl, any⟩
  obtain ⟨test, known, truthy⟩ := stands holds
  obtain ⟨v, known', same⟩ := stands own
  have answers := chooses test v ((value c).trans known) truthy ((value a).trans known') _ List.mem_cons_self
  rw [answer_text, written] at answers
  dsimp only at answers
  rw [empty, Std.HashMap.getElem?_empty, Except.ok.injEq] at answers
  rw [answers, same] at other
  cases other

def isListOf (length : Nat) : Value → Bool
  | .list found => found.length == length
  | _ => false

/-- An evaluator with a function that counts its calls, functions with lists as results, and the function that gives its
argument back. -/
def equipped (constants : Bindings) : Evaluator where
  functions := [("count", ⟨fun before _ => .ok (.int before)⟩), ("pair", .pure fun _ => .ok (.list [.int 1, .int 2])),
    ("single", .pure fun _ => .ok (.list [.int 1])), ("same", .pure fun args => .ok (args.headD .null))]
  constants := constants
  maxPasses := 1
  memo := {}
  calls := []
  log := .new .none 0

/-- A failing branch fails the conditional though it is not chosen; and a conditional does not have the value of its
branch where the branch is written as an assignment, where a function counts its calls, where the name of a slot is in an
argument between quotes or in the branch itself, or where a constant is named as a slot is or by more than a word. -/
theorem conditional_fails : ¬ ChoosesFirst bare noNodes [] "1" "2" "1/0" ∧ ¬ ChoosesFirst bare noNodes [] "1" "=2" "3" ∧
    ¬ ChoosesFirst (equipped []) noNodes [] "1 + count()" "count()" "0" ∧
    ¬ ChoosesFirst (equipped []) noNodes [] "pair()" "same('a' + single() + 'b')" "0" ∧
    ¬ ChoosesFirst (equipped []) noNodes [] "pair()" "single() + __slot0" "0" ∧
    ¬ ChoosesFirst (equipped []) noNodes [[("__slot0x", .text "a")]] "pair()" "single()x" "0" ∧
    ¬ ChoosesFirst (equipped [("__slot1", .int 7)]) noNodes [] "pair()" "single()" "0" ∧
    ¬ ChoosesFirst (equipped [("1)?(2", .int 7)]) noNodes [] "1" "2" "0" := by
  refine ⟨?_, ?_, ?_, ?_, ?_, ?_, ?_, ?_⟩
  · exact not_choosesFirst rfl contextText_nothing (isIntOf 2) (by decide +kernel) (by decide +kernel) (by decide +kernel)
  · exact not_choosesFirst rfl contextText_nothing (isIntOf 2) (by decide +kernel) (by decide +kernel) (by decide +kernel)
  · exact not_choosesFirst rfl contextText_nothing (isIntOf 0) (by decide +kernel) (by decide +kernel) (by decide +kernel)
  · exact not_choosesFirst rfl contextText_nothing (isTextOf "a' + __slot0 + 'b") (by decide +kernel) (by decide +kernel) (by decide +kernel)
  · exact not_choosesFirst rfl contextText_nothing (isListOf 2) (by decide +kernel) (by decide +kernel) (by decide +kernel)
  · exact not_choosesFirst rfl (contextText_single _ ⟨_, by rw [Json.canonical]⟩) (isTextOf "a") (by decide +kernel) (by decide +kernel)
      (by decide +kernel)
  · exact not_choosesFirst rfl contextText_nothing (isListOf 1) (by decide +kernel) (by decide +kernel) (by decide +kernel)
  · exact not_choosesFirst rfl contextText_nothing (isIntOf 2) (by decide +kernel) (by decide +kernel) (by decide +kernel)

end Evaluator

end ProceduralScene
