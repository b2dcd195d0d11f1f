import ProceduralScene.Proofs.Outcome
import ProceduralScene.Proofs.PlainFunction

/-!
An expression has a plain value when its symbols, the functions that it calls and the values that the evaluator
remembers are plain.
-/

set_option autoImplicit false

namespace ProceduralScene

namespace Expression

/-! ### The reduced language -/

def Token.Plain : Token → Prop
  | .number value => value.isPlain = true
  | _ => True

def PlainTokens (tokens : List Token) : Prop := ∀ token ∈ tokens, token.Plain

theorem plain_numberValue (text : List Char) : PlainResult (numberValue text) := by
  unfold numberValue
  repeat' split
  all_goals first
    | exact sure_ok rfl
    | exact sure_error _

theorem plain_numberToken (digits : List Char) :
    Sure (fun token => ∀ t ∈ token, Token.Plain t) ((numberValue digits).map fun value => some (Token.number value)) := by
  cases read : numberValue digits with
  | error failure => exact sure_error failure
  | ok value =>
    refine sure_ok fun t member => ?_
    cases member
    exact plain_numberValue digits value read

theorem plain_cutToken {text : List Char} {found : Except Failure (Option Token)} {rest : List Char}
    (cut : cutToken? text = some (found, rest)) : Sure (fun token => ∀ t ∈ token, t.Plain) found := by
  unfold cutToken? at cut
  repeat' split at cut
  all_goals try simp only [reduceCtorEq] at cut
  all_goals
    simp only [Option.some.injEq, Prod.mk.injEq] at cut
    obtain ⟨rfl, _⟩ := cut
  all_goals first
    | exact plain_numberToken _
    | exact sure_ok (by simp [Token.Plain])

theorem plain_tokensFrom (whole : String) (fuel : Nat) : ∀ (position : Nat) (text : List Char),
    Sure PlainTokens (tokensFrom whole position fuel text) := by
  induction fuel with
  | zero => exact fun position text => sure_ok fun _ member => nomatch member
  | succ fuel ih =>
    intro position text
    cases text with
    | nil => exact sure_ok fun _ member => by cases member
    | cons c cs =>
      rw [tokensFrom]
      split
      · exact sure_error _
      · rename_i found rest cut
        refine sure_then (plain_cutToken cut) fun token plain => sure_then (ih _ _) fun further others => sure_pure ?_
        intro t member
        rcases List.mem_append.mp member with first | later
        · exact plain t (Option.mem_toList.mp first)
        · exact others t later
      · exact fun same => by cases same

/-- An environment whose symbols are plain. -/
def Environment.Plain (env : Environment) : Prop :=
  ∀ name value, env.lookup name = some value → value.isPlain = true

abbrev PlainReading (reading : Reading) : Prop :=
  Sure (fun found : Value × List Token => found.1.isPlain = true ∧ PlainTokens found.2) reading

theorem plain_atSymbol {symbols : List String} {tokens rest : List Token} {symbol : String} (plain : PlainTokens tokens)
    (at' : atSymbol? symbols tokens = some (symbol, rest)) : PlainTokens rest := by
  unfold atSymbol? at at'
  split at at'
  · split at at'
    · cases at'
      exact fun token member => plain token (by simp [member])
    · cases at'
  · split at at'
    · cases at'
      exact fun token member => plain token (by simp [member])
    · cases at'
  · cases at'

theorem plain_expect {symbol : String} {tokens : List Token} (plain : PlainTokens tokens) :
    Sure PlainTokens (expect symbol tokens) := by
  unfold expect
  split
  · split
    · exact sure_ok fun token member => plain token (by simp [member])
    · exact sure_error _
  · exact sure_bind fun _ _ => sure_throw _

theorem plain_keyword {name : String} {value : Value} (keyword : keyword? name = some value) :
    value.isPlain = true := by
  unfold keyword? at keyword
  repeat' split at keyword
  all_goals cases keyword
  all_goals rfl

theorem plain_readName {env : Environment} (plainEnv : env.Plain) (name : String) {rest : List Token}
    (plain : PlainTokens rest) : PlainReading (readName env name rest) := by
  unfold readName
  split
  · exact sure_ok ⟨plainEnv _ _ ‹_›, plain⟩
  · split
    · exact sure_ok ⟨plain_keyword ‹_›, plain⟩
    · split
      · exact sure_error _
      · exact sure_error _

theorem plain_apply (nodeText : NodeText) (level : Level) (symbol : String) {left right : Value}
    (plainLeft : left.isPlain = true) (plainRight : right.isPlain = true) :
    PlainResult (level.apply nodeText symbol left right) := by
  unfold Level.apply
  split
  · exact sure_ok (by split <;> assumption)
  · exact sure_ok (by split <;> assumption)
  · exact sure_ok rfl
  · unfold applyComparison
    repeat' split
    all_goals exact sure_bind fun _ _ => sure_pure rfl
  · split
    · unfold addOrJoin
      split
      · exact sure_bind fun _ _ => sure_bind fun _ _ => sure_pure rfl
      · exact Value.plain_add plainLeft plainRight
    · exact Value.plain_sub left right
  · unfold applyProduct
    split
    · exact Value.plain_mul plainLeft plainRight
    · repeat' split
      all_goals first
        | exact sure_error _
        | exact Value.plain_div left right
        | exact sure_bind fun _ _ => sure_bind fun _ _ => Scalar.plain_truncatedRemainder _ _

theorem plain_indexValue {value at' : Value} (plain : value.isPlain = true) : PlainResult (indexValue value at') := by
  unfold indexValue
  split
  · split
    · exact Value.plain_index plain
    · exact sure_error _
  · split
    · exact Value.plain_index plain
    · exact sure_error _
  · exact Value.plain_index plain

/-- All readers give plain values, down to a depth. -/
structure PlainReaders (env : Environment) (fuel : Nat) : Prop where
  ternary : ∀ tokens, PlainTokens tokens → PlainReading (readTernary env fuel tokens)
  level : ∀ level tokens, PlainTokens tokens → PlainReading (readLevel env fuel level tokens)
  levelRest : ∀ level left tokens, left.isPlain = true → PlainTokens tokens →
    PlainReading (readLevelRest env fuel level left tokens)
  operand : ∀ level tokens, PlainTokens tokens → PlainReading (readOperand env fuel level tokens)
  signed : ∀ tokens, PlainTokens tokens → PlainReading (readSigned env fuel tokens)
  power : ∀ tokens, PlainTokens tokens → PlainReading (readPower env fuel tokens)
  postfix' : ∀ tokens, PlainTokens tokens → PlainReading (readPostfix env fuel tokens)
  indexes : ∀ value tokens, value.isPlain = true → PlainTokens tokens → PlainReading (readIndexes env fuel value tokens)
  atom : ∀ tokens, PlainTokens tokens → PlainReading (readAtom env fuel tokens)
  items : ∀ tokens, PlainTokens tokens →
    Sure (fun found => (∀ x ∈ found.1, x.isPlain = true) ∧ PlainTokens found.2) (readItems env fuel tokens)

section

variable {env : Environment} {fuel : Nat} (plainEnv : env.Plain) (readers : PlainReaders env fuel)

include readers

theorem plain_readTernary {tokens : List Token} (plain : PlainTokens tokens) :
    PlainReading (readTernary env (fuel + 1) tokens) := by
  rw [readTernary]
  refine sure_then (readers.level _ _ plain) ?_
  rintro ⟨condition, rest⟩ ⟨plainCondition, plainRest⟩
  dsimp only
  split
  · exact sure_pure ⟨plainCondition, plainRest⟩
  · rename_i after at'
    refine sure_then (readers.ternary _ (plain_atSymbol plainRest at')) ?_
    rintro ⟨whenTrue, rest⟩ ⟨plainTrue, plainRest⟩
    refine sure_then (plain_expect plainRest) fun rest plainRest => ?_
    refine sure_then (readers.ternary _ plainRest) ?_
    rintro ⟨whenFalse, rest⟩ ⟨plainFalse, plainRest⟩
    exact sure_pure ⟨by dsimp only; split <;> assumption, plainRest⟩

theorem plain_readLevelRest (level : Level) {left : Value} (plainLeft : left.isPlain = true) {tokens : List Token}
    (plain : PlainTokens tokens) : PlainReading (readLevelRest env (fuel + 1) level left tokens) := by
  rw [readLevelRest]
  split
  · exact sure_ok ⟨plainLeft, plain⟩
  · rename_i symbol after at'
    refine sure_then (readers.operand _ _ (plain_atSymbol plain at')) ?_
    rintro ⟨right, rest⟩ ⟨plainRight, plainRest⟩
    exact sure_then (plain_apply _ _ _ plainLeft plainRight) fun value good => readers.levelRest _ _ _ good plainRest

theorem plain_readSigned {tokens : List Token} (plain : PlainTokens tokens) :
    PlainReading (readSigned env (fuel + 1) tokens) := by
  rw [readSigned]
  split
  · exact readers.power _ plain
  · rename_i symbol after at'
    refine sure_then (readers.signed _ (plain_atSymbol plain at')) ?_
    rintro ⟨value, rest⟩ ⟨plainValue, plainRest⟩
    dsimp only
    split
    · exact sure_then (Value.plain_neg value) fun negative good => sure_pure ⟨good, plainRest⟩
    · split
      · exact sure_pure ⟨plainValue, plainRest⟩
      · exact sure_pure ⟨rfl, plainRest⟩

theorem plain_readPower {tokens : List Token} (plain : PlainTokens tokens) :
    PlainReading (readPower env (fuel + 1) tokens) := by
  rw [readPower]
  refine sure_then (readers.postfix' _ plain) ?_
  rintro ⟨base, rest⟩ ⟨plainBase, plainRest⟩
  dsimp only
  split
  · exact sure_pure ⟨plainBase, plainRest⟩
  · rename_i after at'
    refine sure_then (readers.signed _ (plain_atSymbol plainRest at')) ?_
    rintro ⟨exponent, rest⟩ ⟨_, plainRest⟩
    exact sure_then (Value.plain_pow base exponent) fun value good => sure_pure ⟨good, plainRest⟩

theorem plain_readIndexes {value : Value} (plainValue : value.isPlain = true) {tokens : List Token}
    (plain : PlainTokens tokens) : PlainReading (readIndexes env (fuel + 1) value tokens) := by
  rw [readIndexes]
  split
  · exact sure_ok ⟨plainValue, plain⟩
  · rename_i after at'
    refine sure_then (readers.ternary _ (plain_atSymbol plain at')) ?_
    rintro ⟨index, rest⟩ ⟨_, plainRest⟩
    refine sure_then (plain_expect plainRest) fun rest plainRest => ?_
    exact sure_then (plain_indexValue plainValue) fun found good => readers.indexes _ _ good plainRest

theorem plain_readItems {tokens : List Token} (plain : PlainTokens tokens) :
    Sure (fun found => (∀ x ∈ found.1, x.isPlain = true) ∧ PlainTokens found.2) (readItems env (fuel + 1) tokens) := by
  rw [readItems]
  refine sure_then (readers.ternary _ plain) ?_
  rintro ⟨first, rest⟩ ⟨plainFirst, plainRest⟩
  dsimp only
  split
  · exact sure_pure ⟨by simpa using plainFirst, plainRest⟩
  · rename_i after at'
    refine sure_then (readers.items _ (plain_atSymbol plainRest at')) ?_
    rintro ⟨items, rest⟩ ⟨plainItems, plainRest⟩
    exact sure_pure ⟨by simpa using ⟨plainFirst, plainItems⟩, plainRest⟩

include plainEnv

theorem plain_readAtom {tokens : List Token} (plain : PlainTokens tokens) :
    PlainReading (readAtom env (fuel + 1) tokens) := by
  have later : ∀ {first : Token} {rest : List Token}, PlainTokens (first :: rest) → PlainTokens rest :=
    fun both token member => both token (by simp [member])
  rw [readAtom.eq_def]
  dsimp only
  split
  · exact sure_ok ⟨plain (.number _) (by simp), later plain⟩
  · exact sure_ok ⟨rfl, later plain⟩
  · exact plain_readName plainEnv _ (later plain)
  · refine sure_then (readers.ternary _ (later plain)) ?_
    rintro ⟨value, rest⟩ ⟨plainValue, plainRest⟩
    exact sure_then (plain_expect plainRest) fun rest plainRest => sure_pure ⟨plainValue, plainRest⟩
  · split
    · rename_i after at'
      exact sure_ok ⟨rfl, plain_atSymbol (later plain) at'⟩
    · refine sure_then (readers.items _ (later plain)) ?_
      rintro ⟨items, rest⟩ ⟨plainItems, plainRest⟩
      exact sure_then (plain_expect plainRest) fun rest plainRest => sure_pure ⟨Value.plain_list.mpr plainItems, plainRest⟩
  · exact sure_bind fun _ _ => sure_throw _

end

theorem plain_readers {env : Environment} (plainEnv : env.Plain) (fuel : Nat) : PlainReaders env fuel := by
  induction fuel with
  | zero => constructor <;> intros <;> exact sure_error _
  | succ fuel ih =>
    exact
      { ternary := fun _ plain => plain_readTernary ih plain
        level := fun level tokens plain => by
          rw [readLevel]
          refine sure_then (ih.operand level tokens plain) ?_
          rintro ⟨left, rest⟩ ⟨plainLeft, plainRest⟩
          exact ih.levelRest _ _ _ plainLeft plainRest
        levelRest := fun level _ _ plainLeft plain => plain_readLevelRest ih level plainLeft plain
        operand := fun level tokens plain => by
          rw [readOperand]
          split
          · exact ih.level _ _ plain
          · exact ih.signed _ plain
        signed := fun _ plain => plain_readSigned ih plain
        power := fun _ plain => plain_readPower ih plain
        postfix' := fun tokens plain => by
          rw [readPostfix]
          refine sure_then (ih.atom tokens plain) ?_
          rintro ⟨value, rest⟩ ⟨plainValue, plainRest⟩
          exact ih.indexes _ _ plainValue plainRest
        indexes := fun _ _ plainValue plain => plain_readIndexes ih plainValue plain
        atom := fun _ plain => plain_readAtom plainEnv ih plain
        items := fun _ plain => plain_readItems ih plain }

theorem plain_evaluateReduced {env : Environment} (plainEnv : env.Plain) (text : List Char) :
    PlainResult (evaluateReduced env text) := by
  unfold evaluateReduced
  split
  · refine sure_then (plain_tokensFrom _ _ _ _) fun tokens plain => ?_
    unfold evaluateTokens
    split
    · exact sure_error _
    · refine sure_then ((plain_readers plainEnv _).ternary tokens plain) ?_
      rintro ⟨value, rest⟩ ⟨plainValue, _⟩
      dsimp only
      split
      · exact sure_pure plainValue
      · exact sure_bind fun _ _ => sure_throw _
  · exact sure_error _

/-! ### Reduction to it -/

/-- The slots stay plain. -/
def SlotsKept (before after : Workspace) : Prop := before.slots.Plain → after.slots.Plain

theorem steady_slots : Steady SlotsKept := ⟨fun _ plain => plain, fun first second plain => second (first plain)⟩

theorem slots_recordWarning (code text : String) (path : Option String) (work : Workspace) :
    Within SlotsKept (recordWarning code text path) work fun _ _ => True := within_modify (fun plain => plain) trivial

theorem slots_keepInSlot {value : Value} (plain : value.isPlain = true) (work : Workspace) :
    Within SlotsKept (keepInSlot value) work fun _ _ => True := by
  refine within_get (within_bind_to steady_slots (fun _ _ => True) (ends_set ⟨fun before => ?_, trivial⟩) ?_)
  · exact Bindings.plain_append before fun entry member => List.mem_singleton.mp member ▸ plain
  · exact fun _ _ _ _ => within_pure steady_slots trivial

theorem slots_liftResult {α : Type} (result : Except Failure α) (work : Workspace) :
    Within SlotsKept (liftResult result) work fun value _ => result = .ok value :=
  within_match_except steady_slots fun _ same => same

theorem slots_literalOf {value : Value} (plain : value.isPlain = true) (work : Workspace) :
    Within SlotsKept (literalOf value) work fun _ _ => True := by
  unfold literalOf
  split
  · exact within_pure steady_slots trivial
  · split
    · exact within_throw steady_slots
    · exact within_seq steady_slots (within_weaken (slots_liftResult _ work) fun _ _ _ _ => trivial) fun _ _ _ =>
        within_pure steady_slots trivial
  · split
    · exact within_pure steady_slots trivial
    · exact slots_keepInSlot plain work
  · exact slots_keepInSlot plain work

theorem plain_parameterValue {value : Value} (plain : value.isPlain = true) : (parameterValue value).isPlain = true := by
  unfold parameterValue Value.field?
  split
  · exact Value.plain_entry_getD plain plain
  · exact plain

section

variable {setting : Setting} (plainSymbols : setting.symbols.Plain)

include plainSymbols

theorem slots_substitute (shown name : String) (work : Workspace) :
    Within SlotsKept (substitute setting shown name) work fun _ _ => True := by
  unfold substitute
  split
  · exact within_seq steady_slots (slots_recordWarning _ _ _ work) fun _ _ _ => within_pure steady_slots trivial
  · rename_i value found
    exact slots_literalOf (plain_parameterValue (Bindings.plain_get plainSymbols found)) work

theorem slots_substituteVariables (shown : String) (text : List Char) : ∀ (quote : Option Char) (skip : Nat)
    (work : Workspace), Within SlotsKept (substituteVariables setting shown quote skip text) work fun _ _ => True := by
  induction text with
  | nil =>
    intro quote skip work
    cases skip <;> exact within_pure steady_slots trivial
  | cons c rest ih =>
    intro quote skip work
    have further : ∀ (head : List Char) (quote : Option Char) (skip : Nat) (work : Workspace), Within SlotsKept
        (do return head ++ (← substituteVariables setting shown quote skip rest)) work fun _ _ => True :=
      fun head quote skip work => within_bind steady_slots (ih quote skip work) fun _ _ _ _ => within_pure steady_slots trivial
    cases skip with
    | succ skip => exact ih _ _ _
    | zero =>
      rw [substituteVariables]
      dsimp only
      split
      · split
        · exact within_seq steady_slots (slots_substitute plainSymbols _ _ work) fun literal after _ => further _ _ _ after
        · exact further [c] _ _ work
      · exact further [c] _ _ work

end

theorem slots_callFunction (setting : Setting) (name : String) {function : Function} (plain : function.Plain)
    {args : List Value} (plainArgs : ∀ arg ∈ args, arg.isPlain = true) (work : Workspace) :
    Within SlotsKept (callFunction setting name function args) work fun value _ => value.isPlain = true := by
  refine within_get (within_seq steady_slots (ends_set ⟨fun before => before, trivial⟩) fun _ after _ => ?_)
  split
  · rename_i value result
    exact within_pure steady_slots (plain _ _ plainArgs value result)
  · exact within_seq steady_slots (slots_recordWarning _ _ _ after) fun _ _ _ => within_pure steady_slots rfl

section

variable {evaluate : List Char → Reduction Value}
  (evaluates : ∀ text (work : Workspace), work.slots.Plain →
    Within SlotsKept (evaluate text) work fun value _ => value.isPlain = true)

include evaluates

theorem slots_argumentValues (raws : List (List Char)) : ∀ work : Workspace, work.slots.Plain →
    Within SlotsKept (argumentValues evaluate raws) work fun values _ => ∀ value ∈ values, value.isPlain = true := by
  induction raws with
  | nil => exact fun work _ => within_pure steady_slots fun _ member => nomatch member
  | cons raw rest ih =>
    intro work plain
    have first : Within SlotsKept (argumentValue evaluate raw) work fun value _ => value.isPlain = true := by
      unfold argumentValue
      split
      · exact within_pure steady_slots rfl
      · exact evaluates raw work plain
    rw [argumentValues]
    refine within_bind steady_slots first fun value after kept good => ?_
    refine within_bind steady_slots (ih after (kept plain)) fun values last _ others => ?_
    exact within_pure steady_slots (by simpa using ⟨good, others⟩)

theorem slots_inlineCalls (setting : Setting) (name : String) {function : Function} (plainFunction : function.Plain)
    (fuel : Nat) : ∀ (quote previous : Option Char) (text : List Char) (work : Workspace), work.slots.Plain →
      Within SlotsKept (inlineCalls setting evaluate name function fuel quote previous text) work fun _ _ => True := by
  induction fuel with
  | zero => exact fun quote previous text work _ => within_pure steady_slots trivial
  | succ fuel ih =>
    intro quote previous text work plain
    rw [inlineCalls]
    split
    · exact within_pure steady_slots trivial
    · split
      · exact within_seq steady_slots (ih _ _ _ work plain) fun _ _ _ => within_pure steady_slots trivial
      · split
        · exact within_pure steady_slots trivial
        · refine within_bind steady_slots (slots_argumentValues evaluates _ work plain) fun args after kept good => ?_
          refine within_bind steady_slots (slots_callFunction setting name plainFunction good after)
            fun value called same plainValue => ?_
          refine within_seq steady_slots (slots_literalOf plainValue called) fun literal written still => ?_
          refine within_seq steady_slots (ih _ _ _ written (still (same (kept plain)))) fun _ _ _ => ?_
          exact within_pure steady_slots trivial

theorem slots_inlineFunctions (setting : Setting) (functions : List (String × Function))
    (plainFunctions : PlainFunctions functions) : ∀ (text : List Char) (work : Workspace), work.slots.Plain →
      Within SlotsKept (inlineFunctions setting evaluate functions text) work fun _ _ => True := by
  induction functions with
  | nil => exact fun text work _ => within_pure steady_slots trivial
  | cons entry rest ih =>
    intro text work plain
    obtain ⟨name, function⟩ := entry
    rw [inlineFunctions]
    refine within_seq steady_slots
      (slots_inlineCalls evaluates setting name (plainFunctions (name, function) (by simp)) _ _ _ _ work plain) ?_
    exact fun text after kept => ih (fun other member => plainFunctions other (by simp [member])) text after (kept plain)

end

theorem plain_evaluateText {setting : Setting} (plainSymbols : setting.symbols.Plain)
    (plainFunctions : PlainFunctions setting.functions) (depth : Nat) : ∀ (text : List Char) (work : Workspace),
      work.slots.Plain → Within SlotsKept (evaluateText setting depth text) work fun value _ => Value.isPlain value := by
  induction depth with
  | zero => exact fun text work _ => within_throw steady_slots
  | succ depth ih =>
    intro text work plain
    rw [evaluateText]
    refine within_seq steady_slots (slots_substituteVariables plainSymbols _ _ _ _ work) fun _ after kept => ?_
    have plainAfter := kept plain
    refine within_seq steady_slots
      (slots_inlineFunctions ih setting setting.functions plainFunctions _ after plainAfter) fun _ inlined kept => ?_
    have plainInlined := kept plainAfter
    refine within_bind steady_slots (slots_liftResult _ inlined) fun _ constant kept _ => ?_
    have plainConstant := kept plainInlined
    refine within_bind steady_slots (slots_liftResult _ constant) fun reduced last kept _ => within_get ?_
    have plainLast := kept plainConstant
    dsimp only
    split
    · rename_i value found
      exact within_pure steady_slots (Bindings.plain_get plainLast found)
    · refine within_weaken (slots_liftResult _ last) fun (value : Value) _ _ result => ?_
      refine plain_evaluateReduced ?_ _ value result
      intro name found looked
      rcases Option.or_eq_some_iff.mp looked with slot | ⟨_, symbol⟩
      · exact Bindings.plain_get plainLast slot
      · exact Bindings.plain_get plainSymbols symbol

end Expression

/-! ### The evaluator -/

namespace Evaluator

open Expression

/-- Every remembered value is plain. -/
def PlainMemo (memo : Std.HashMap (String × String) Value) : Prop :=
  ∀ (key : String × String) (value : Value), memo[key]? = some value → value.isPlain = true

/-- The tables stay, and the memo stays plain. -/
structure Kept (before after : Evaluator) : Prop where
  functions : after.functions = before.functions
  constants : after.constants = before.constants
  maxPasses : after.maxPasses = before.maxPasses
  memo : PlainMemo before.memo → PlainMemo after.memo

theorem steady_kept : Steady Kept where
  refl _ := ⟨rfl, rfl, rfl, id⟩
  trans first second := ⟨second.functions.trans first.functions, second.constants.trans first.constants,
    second.maxPasses.trans first.maxPasses, fun plain => second.memo (first.memo plain)⟩

/-- An evaluator that computes and remembers plain values only. -/
structure Plain (ev : Evaluator) : Prop where
  functions : PlainFunctions ev.functions
  memo : PlainMemo ev.memo

theorem plain_kept {before after : Evaluator} (kept : Kept before after) (plain : before.Plain) : after.Plain :=
  ⟨kept.functions ▸ plain.functions, kept.memo plain.memo⟩

theorem plain_evaluateFresh {ev : Evaluator} (plainEv : ev.Plain) (nodeText : NodeText)
    (text : String) {symbols : Bindings} (plain : symbols.Plain) (path : Option String) :
    (ev.evaluateFresh nodeText text symbols path).1.isPlain = true ∧
      Kept ev (ev.evaluateFresh nodeText text symbols path).2 := by
  have plainSetting : PlainFunctions (ev.setting nodeText symbols path).functions := plainEv.functions
  have body := plain_evaluateText plain plainSetting (nestingBound text.toList) text.toList ⟨[], ev.calls, ev.log⟩
    Bindings.plain_nil
  unfold evaluateFresh
  dsimp only
  rcases run : (evaluateText (ev.setting nodeText symbols path) (nestingBound text.toList) text.toList).run.run
    ⟨[], ev.calls, ev.log⟩ with ⟨failure | value, work⟩
  · exact ⟨rfl, rfl, rfl, rfl, fun plain => plain⟩
  · exact ⟨(within_ok body run).2, rfl, rfl, rfl, fun plain => plain⟩

theorem plain_evaluate (nodeText : NodeText) {expression : Value} (plainExpression : expression.isPlain = true)
    {ctx : Context} (plain : ctx.Plain) (path : Option String) (ev : Evaluator)
    (plainEv : ev.Plain) : Within Kept (evaluate nodeText expression ctx path) ev fun value _ => Value.isPlain value = true := by
  unfold evaluate
  split
  · rename_i text
    dsimp only
    split
    · refine within_pure_bind (within_get ?_)
      split
      · exact within_pure steady_kept (plainEv.memo _ _ ‹_›)
      · obtain ⟨plainValue, kept⟩ := plain_evaluateFresh plainEv nodeText text (Context.plain_flatten plain) path
        refine within_seq steady_kept (ends_set ⟨⟨kept.functions, kept.constants, kept.maxPasses, ?_⟩, trivial⟩)
          fun _ _ _ => within_pure steady_kept plainValue
        intro before other value found
        rw [Std.HashMap.getElem?_insert] at found
        split at found
        · cases found
          exact plainValue
        · exact kept.memo before other value found
    · exact within_throw steady_kept
  · exact within_pure steady_kept plainExpression

theorem kept_interpolate (nodeText : NodeText) (label : String) (symbols : Bindings) (path : Option String)
    (text : List Char) : ∀ (skip : Nat) (ev : Evaluator),
      Within Kept (interpolate nodeText label symbols path skip text) ev fun _ _ => True := by
  induction text with
  | nil =>
    intro skip ev
    cases skip <;> exact within_pure steady_kept trivial
  | cons c rest ih =>
    intro skip ev
    have further : ∀ (head : List Char) (skip : Nat) (ev : Evaluator), Within Kept
        (do return head ++ (← interpolate nodeText label symbols path skip rest)) ev fun _ _ => True :=
      fun head skip ev => within_seq steady_kept (ih skip ev) fun _ _ _ => within_pure steady_kept trivial
    cases skip with
    | succ skip => exact ih _ _
    | zero =>
      rw [interpolate]
      dsimp only
      split
      · exact further [c] _ ev
      · split
        · split
          · exact further _ _ ev
          · exact within_throw steady_kept
        · refine within_seq steady_kept (within_modify ⟨rfl, rfl, rfl, fun plain => plain⟩ trivial) fun _ after _ => ?_
          exact further (c :: _) _ after

/-- Whatever is evaluated, only texts reach the memo. -/
theorem kept_evaluate (nodeText : NodeText) (expression : Value) {ctx : Context} (plain : ctx.Plain)
    (path : Option String) (ev : Evaluator) (plainEv : ev.Plain) :
    Within Kept (evaluate nodeText expression ctx path) ev fun _ _ => True := by
  cases expression with
  | text text =>
    exact within_weaken (plain_evaluate nodeText rfl plain path ev plainEv) fun _ _ _ _ => trivial
  | _ => exact within_pure steady_kept trivial

theorem kept_render (nodeText : NodeText) (label : Value) {ctx : Context} (plain : ctx.Plain) (path : Option String)
    (ev : Evaluator) (plainEv : ev.Plain) : Within Kept (render nodeText label ctx path) ev fun _ _ => True := by
  unfold render
  split
  · dsimp only
    split
    · exact kept_evaluate nodeText _ plain path ev plainEv
    · split
      · exact within_pure steady_kept trivial
      · exact within_seq steady_kept (kept_interpolate _ _ _ _ _ _ ev) fun _ _ _ => within_pure steady_kept trivial
  · exact within_pure steady_kept trivial

end Evaluator

end ProceduralScene
