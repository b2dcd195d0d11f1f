import ProceduralScene.Context
import ProceduralScene.Diagnostic.Log
import ProceduralScene.Expression.Conditional
import ProceduralScene.Expression.Reduced

/-!
Reduction of an expression text to the reduced language. The stages replace, in this order, `$name` tokens,
conditional calls, calls of registered functions, named constants and bare numeric variables by texts; what has no
literal text is kept in a slot with a name of its own. A failing function call is recorded and counts as zero, any
other failure ends the evaluation.
-/

set_option autoImplicit false

namespace ProceduralScene.Expression

/-- A function that expressions can call. The first argument says how often it was called before. -/
structure Function where
  call : Nat → List Value → Except Failure Value

/-- A function whose result depends on its arguments alone. -/
def Function.pure (f : List Value → Except Failure Value) : Function := ⟨fun _ => f⟩

/-- What stays fixed while one expression is evaluated. -/
structure Setting where
  functions : List (String × Function)
  constants : Bindings
  maxPasses : Nat
  symbols : Bindings
  path : Option String
  nodeText : NodeText

/-- What changes while one expression is evaluated. -/
structure Workspace where
  slots : Bindings
  calls : List (String × Nat)
  log : DiagnosticLog

abbrev Reduction := ExceptT Failure (StateM Workspace)

def recordWarning (code text : String) (path : Option String) : Reduction Unit :=
  modify fun work => { work with log := work.log.record code text path }

def liftResult {α : Type} (result : Except Failure α) : Reduction α :=
  match result with
  | .ok value => pure value
  | .error failure => throw failure

/-- The literal of a number; a negative one is put into parentheses. -/
def signedLiteral (negative : Bool) (text : String) : List Char :=
  if negative then '(' :: text.toList ++ [')'] else text.toList

/-- Keeps a value in the next slot and gives the name of the slot. -/
def keepInSlot (value : Value) : Reduction (List Char) := do
  let work ← get
  let name := "__slot" ++ toString work.slots.length
  set { work with slots := work.slots ++ [(name, value)] }
  return name.toList

/-- The text that stands for a value. -/
def literalOf (value : Value) : Reduction (List Char) :=
  match value with
  | .bool b => pure (if b then "true".toList else "false".toList)
  | .int n =>
    if (Number.ofInt n).isNone then throw .tooLarge
    else return signedLiteral (n < 0) (← liftResult (showInt n))
  | .float x =>
    if Number.isFinite x then pure (signedLiteral (x < 0.0) (Number.shortestText x)) else keepInSlot value
  | _ => keepInSlot value

/-- What a variable contributes: the field `value` of a map that has one, else the value itself. -/
def parameterValue (value : Value) : Value :=
  (value.field? "value").getD value

def substitute (setting : Setting) (shown : String) (name : String) : Reduction (List Char) := do
  match setting.symbols.get? name with
  | none =>
    recordWarning "X02" ("missing variable $" ++ name ++ " in " ++ Text.quoted shown ++ "; using 0") setting.path
    return ['0']
  | some value => literalOf (parameterValue value)

/-- Replaces the `$name` tokens outside literals. `skip` counts the characters of a name already replaced. -/
def substituteVariables (setting : Setting) (shown : String) :
    Option Char → Nat → List Char → Reduction (List Char)
  | _, _, [] => pure []
  | quote, skip + 1, c :: rest => substituteVariables setting shown (stepQuote quote c) skip rest
  | quote, 0, c :: rest => do
    let further (skip : Nat) := substituteVariables setting shown (stepQuote quote c) skip rest
    if c == '$' && quote.isNone then
      match cutName? rest with
      | some (name, _) =>
        let literal ← substitute setting shown (String.ofList name)
        return literal ++ (← further name.length)
      | none => return c :: (← further 0)
    else return c :: (← further 0)

def callCount (name : String) (calls : List (String × Nat)) : Nat :=
  (calls.lookup name).getD 0

/-- Calls a function; a failure is recorded and gives zero. -/
def callFunction (setting : Setting) (name : String) (function : Function) (args : List Value) :
    Reduction Value := do
  let work ← get
  let before := callCount name work.calls
  set { work with calls := (name, before + 1) :: work.calls.filter (·.1 != name) }
  match function.call before args with
  | .ok value => return value
  | .error failure =>
    recordWarning "X01" (name ++ "(): " ++ failure.message) setting.path
    return .int 0

/-- An argument as a value: a text between quotes stands for itself. -/
def argumentValue (evaluate : List Char → Reduction Value) (raw : List Char) : Reduction Value :=
  if isQuoted raw then pure (.text (String.ofList ((raw.drop 1).dropLast))) else evaluate raw

def argumentValues (evaluate : List Char → Reduction Value) : List (List Char) → Reduction (List Value)
  | [] => pure []
  | raw :: rest => return (← argumentValue evaluate raw) :: (← argumentValues evaluate rest)

/-- Replaces the calls of one function from left to right by their results. -/
def inlineCalls (setting : Setting) (evaluate : List Char → Reduction Value) (name : String)
    (function : Function) : Nat → Option Char → Option Char → List Char → Reduction (List Char)
  | 0, _, _, text => pure text
  | fuel + 1, quote, previous, text =>
    match findCall? name.toList previous text with
    | none => pure text
    | some site =>
      if site.isBlocked quote previous then
        return site.before ++ site.head ++ (← inlineCalls setting evaluate name function fuel
          (quoteAfter quote (site.before ++ site.head)) (some '(') site.rest)
      else
        match cutAtClosing site.rest with
        | none => pure text
        | some (inner, rest) => do
          let args ← argumentValues evaluate (splitArgs inner)
          let literal ← literalOf (← callFunction setting name function args)
          return site.before ++ literal ++ (← inlineCalls setting evaluate name function fuel
            (quoteAfter quote (site.before ++ literal)) literal.getLast? rest)

/-- Replaces the calls of all functions, one function after the other. -/
def inlineFunctions (setting : Setting) (evaluate : List Char → Reduction Value) :
    List (String × Function) → List Char → Reduction (List Char)
  | [], text => pure text
  | (name, function) :: others, text => do
    inlineFunctions setting evaluate others
      (← inlineCalls setting evaluate name function (text.length + 1) none none text)

def inlineConstants (nodeText : NodeText) : Bindings → List Char → Except Failure (List Char)
  | [], text => .ok text
  | (name, value) :: others, text => do
    inlineConstants nodeText others
      (replaceOperand name.toList (← value.display nodeText).toList none none 0 text)

/-- The literal of a bare variable; nothing for a value that is no number. -/
def bareLiteral? : Value → Option (Except Failure (List Char))
  | .int n => some ((showInt n).map (signedLiteral (n < 0)))
  | .float x => some (.ok (signedLiteral (!(0.0 ≤ x)) (Number.shortestText x)))
  | _ => none

/-- Replaces numeric variables that are written without a `$`. -/
def inlineBareVariables : Bindings → List Char → Except Failure (List Char)
  | [], text => .ok text
  | (name, value) :: others, text =>
    match bareLiteral? value with
    | none => inlineBareVariables others text
    | some literal =>
      if hasWord name.toList none text then do
        inlineBareVariables others (replaceOperand name.toList (← literal) none none 0 text)
      else inlineBareVariables others text

/-- Symbols with longer names first; those of one length keep their order. -/
def longestFirst (symbols : Bindings) : Bindings :=
  symbols.mergeSort fun a b => b.1.length ≤ a.1.length

/-- The text without surrounding blanks and without a single leading `=`. -/
def dropAssignment (text : List Char) : List Char :=
  match Text.trim text with
  | '=' :: '=' :: rest => '=' :: '=' :: rest
  | '=' :: rest => rest
  | trimmed => trimmed

/-- The value of an expression text. The first argument bounds the depth of nested arguments. -/
def evaluateText (setting : Setting) : Nat → List Char → Reduction Value
  | 0, _ => throw .tooLarge
  | depth + 1, text => do
    let text := dropAssignment text
    let text ← substituteVariables setting (String.ofList text) none 0 text
    let text := convertConditionals setting.maxPasses text
    let text ← inlineFunctions setting (evaluateText setting depth) setting.functions text
    let text ← liftResult (inlineConstants setting.nodeText setting.constants text)
    let text ← liftResult (inlineBareVariables (longestFirst setting.symbols) text)
    let slots := (← get).slots
    match slots.get? (String.ofList (Text.trim text)) with
    | some value => return value
    | none =>
      let lookup (name : String) := (slots.get? name).or (setting.symbols.get? name)
      liftResult (evaluateReduced ⟨lookup, setting.nodeText⟩ text)

/-- A bound on the depth of nested arguments: every one of them has a name less than the text it was cut from. -/
def nestingBound (text : List Char) : Nat := text.length + 1

end ProceduralScene.Expression
