import Std.Data.HashMap
import ProceduralScene.Expression.Reduction
import ProceduralScene.Value.Json

/-!
The evaluator of expressions: it passes values that are no texts through, remembers the value of every text by the
text and the canonical form of its context, and records a failure as a diagnostic with the value zero.
-/

set_option autoImplicit false

namespace ProceduralScene

open Expression

structure Evaluator where
  functions : List (String × Function)
  constants : Bindings
  maxPasses : Nat
  /-- Values by expression text and canonical context text. -/
  memo : Std.HashMap (String × String) Value
  calls : List (String × Nat)
  log : DiagnosticLog

/-- Operations on an evaluator, or on a state that holds one, that may fail and keep what was done before. -/
abbrev Evaluation := ExceptT Failure (StateM Evaluator)

namespace Evaluator

def putFunction (name : String) (function : Function) :
    List (String × Function) → List (String × Function)
  | [] => [(name, function)]
  | (found, old) :: rest =>
    if found == name then (found, function) :: rest else (found, old) :: putFunction name function rest

def withFunctions (stock added : List (String × Function)) : List (String × Function) :=
  added.foldl (fun functions entry => putFunction entry.1 entry.2 functions) stock

/-- Makes a function callable by a name; its calls are counted anew. -/
def register (name : String) (function : Function) (ev : Evaluator) : Except Failure Evaluator :=
  if name == "if" then .error (.rejected "'if' is reserved")
  else .ok { ev with
    functions := putFunction name function ev.functions
    calls := ev.calls.filter (·.1 != name) }

def clearMemo (ev : Evaluator) : Evaluator :=
  { ev with memo := {} }

def setting (ev : Evaluator) (nodeText : NodeText) (symbols : Bindings) (path : Option String) : Setting :=
  ⟨ev.functions, ev.constants, ev.maxPasses, symbols, path, nodeText⟩

/-- Evaluates a text without the memo. -/
def evaluateFresh (ev : Evaluator) (nodeText : NodeText) (text : String) (symbols : Bindings)
    (path : Option String) : Value × Evaluator :=
  let cs := text.toList
  let (result, work) :=
    (evaluateText (ev.setting nodeText symbols path) (nestingBound cs) cs).run.run ⟨[], ev.calls, ev.log⟩
  match result with
  | .ok value => (value, { ev with calls := work.calls, log := work.log })
  | .error failure =>
    let message := Text.quoted text ++ " failed: " ++ failure.message
    (.int 0, { ev with calls := work.calls, log := work.log.record "X01" message path })

/-- The text under which a context is remembered. -/
def contextText (nodeText : NodeText) (symbols : Bindings) : Except Failure String :=
  Json.canonical nodeText symbols.toMap

/-- The value of an expression. Anything but a text stands for itself. -/
def evaluate (nodeText : NodeText) (expression : Value) (ctx : Context) (path : Option String) :
    Evaluation Value := do
  match expression with
  | .text text =>
    let symbols := ctx.flatten
    let key ← match contextText nodeText symbols with
      | .ok context => pure (text, context)
      | .error failure => throw failure
    let ev ← get
    match ev.memo[key]? with
    | some value => return value
    | none =>
      let (value, ev) := ev.evaluateFresh nodeText text symbols path
      set { ev with memo := ev.memo.insert key value }
      return value
  | value => return value

/-- Whether a label has to be evaluated: it holds a call or a ternary, or starts with a single `=`. -/
def isComputedLabel (trimmed : List Char) : Bool :=
  trimmed.contains '(' || trimmed.contains '?' || (trimmed.head? == some '=' && (trimmed.drop 1).head? != some '=')

/-- Replaces each `$name` of a label by the text of its value; an unknown name is recorded and stays. -/
def interpolate (nodeText : NodeText) (label : String) (symbols : Bindings) (path : Option String) :
    Nat → List Char → Evaluation (List Char)
  | _, [] => pure []
  | skip + 1, _ :: rest => interpolate nodeText label symbols path skip rest
  | 0, c :: rest => do
    let further (skip : Nat) := interpolate nodeText label symbols path skip rest
    match if c == '$' then cutName? rest else none with
    | none => return c :: (← further 0)
    | some (name, _) =>
      match symbols.get? (String.ofList name) with
      | some value =>
        let text ← match value.joinedText nodeText with
          | .ok text => pure text
          | .error failure => throw failure
        return text.toList ++ (← further name.length)
      | none =>
        let message := "missing variable $" ++ String.ofList name ++ " in " ++ Text.quoted label
        modify fun ev => { ev with log := ev.log.record "X02" message path }
        return c :: name ++ (← further name.length)

/-- Resolves a label, such as an id, a material or a reference target. -/
def render (nodeText : NodeText) (label : Value) (ctx : Context) (path : Option String) : Evaluation Value := do
  match label with
  | .text text =>
    let trimmed := Text.trim text.toList
    if isComputedLabel trimmed then evaluate nodeText label ctx path
    else if !trimmed.contains '$' then return label
    else return .text (String.ofList (← interpolate nodeText text ctx.flatten path 0 text.toList))
  | value => return value

end Evaluator

/-- Whether a value is a text that is evaluated where both texts and expressions may stand. -/
def looksLikeExpression : Value → Bool
  | .text s =>
    let trimmed := Text.trim s.toList
    trimmed.head? == some '=' || trimmed.contains '$' || trimmed.contains '('
  | _ => false

/-- Whether a text has the form of a number. -/
def isNumberText (s : String) : Bool :=
  Expression.isNumberForm (Text.trim s.toList)

end ProceduralScene
