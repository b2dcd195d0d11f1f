import ProceduralScene.Build.Session
import ProceduralScene.Scene.Placement

/-!
Evaluation of what an action carries: declared parameters, helper parameters with nested helpers, references and
path descriptors in them, dimensions of shapes, transforms and visibility.
-/

set_option autoImplicit false

namespace ProceduralScene

/-- The expression that defines a parameter; null when it has none. -/
def definingExpression : Value → Value
  | .map entries => (Value.entry? "expression" entries).getD .null
  | .text s => .text s
  | _ => .null

/-- The literal that a parameter stands for; null when it has to be evaluated. -/
def literalDefault : Value → Value
  | .text _ => .null
  | spec => parameterDefault spec

/-- Resolves declared parameters, from left to right, in a layer over the context. A literal is taken as it is,
anything else is evaluated in the context with the parameters before it. Names that only have an expression come
last. -/
def resolveParameters (nodeText : NodeText) (specs : Bindings) (parent : Context) (expressions overrides : Bindings) :
    Evaluation Context := do
  let evaluateIn (scope : Context) (name : String) (expression : Value) : Evaluation Context := do
    return scope.set name (← Evaluator.evaluate nodeText expression scope none)
  let declared ← specs.foldlM (fun (scope : Context) (entry : String × Value) => do
    match overrides.get? entry.1 with
    | some value => return scope.set entry.1 value
    | none =>
      let literal := literalDefault entry.2
      if !literal.isNull then return scope.set entry.1 literal
      else
        let own := definingExpression entry.2
        let expression := if own.isNull then (expressions.get? entry.1).getD .null else own
        if expression.isNull then return scope.set entry.1 (.int 0)
        else evaluateIn scope entry.1 expression) (parent.child [])
  expressions.foldlM (fun (scope : Context) (entry : String × Value) =>
    if specs.has entry.1 then pure scope else evaluateIn scope entry.1 entry.2) declared

namespace SessionAction

/-- Whether a map describes a nested helper: by kind and helper, or by verb and parameters. -/
def isHelperDescriptor (entries : List (Key × Value)) : Bool :=
  let kind := (Value.entry? "type" entries).getD .null
  let verb := (Value.entry? "do" entries).getD .null
  (["helper", "helper3d", "helperCall"].any fun name => kind.same (.text name)) &&
      (Value.entry? "helper" entries).isSome ||
    verb.isText && (Value.entry? "params" entries).isSome

/-- The target of a nested reference. -/
def referenceTarget? (entries : List (Key × Value)) : Option Value :=
  if ((Value.entry? "type" entries).getD .null).same (.text "reference") then Value.entry? "target" entries
  else none

def fontScheme : List Char := "font:".toList

/-- Runs a factory; a failure is recorded and gives nothing. -/
def runFactory (name : String) (factory : Factory) (params : Value) (announce : String) (path : String) :
    SessionAction Value := do
  match ← attempt (onScene (FactoryTable.invoke name factory params)) with
  | .ok value => return value
  | .error failure =>
    record "H02" (announce ++ failure.message) (some path)
    return .null

/-- The factory that a value names; one that is not found is recorded. -/
def factoryOrRecord (name : Value) (announce path : String) : SessionAction (Option (String × Factory)) := do
  match ← attempt (findFactory name) with
  | .ok found => return some found
  | .error failure =>
    match failure with
    | .helperNotFound _ =>
      record "H01" (announce ++ failure.message) (some path)
      return none
    | _ => throw failure

/-- The points that a path descriptor stands for; a failure is recorded and gives none. -/
def expandPath (descriptor : Value) (path : String) : SessionAction Value := do
  match Path2D.expandDescriptor descriptor with
  | .ok points => return Path2D.toValue points
  | .error failure =>
    let kind ← plainText (descriptor.fieldOrNull "kind")
    record "X01" (kind ++ " path: " ++ failure.message) (some path)
    return .list []

/-- What a stored result contributes: the curve that a node carries, else the result itself. -/
def storedContribution (store : Store) (value : Value) : Value :=
  match value with
  | .node id => ((store.get? id).bind (·.carried)).getD value
  | _ => value

/-- A text as a value: a font, a stored result, an expression, or the text itself. -/
def evaluateText (s : String) (ctx : Context) (path : String) : SessionAction Value := do
  let session ← get
  match Expression.dropWord? fontScheme s.toList with
  | some rest =>
    let font := String.ofList rest
    match session.fonts.get? font with
    | some value => return value
    | none =>
      record "A01" ("font not loaded: " ++ font) (some path)
      return .null
  | none =>
    match session.stored.get? s with
    | some value => return storedContribution session.scene.store value
    | none =>
      if looksLikeExpression (.text s) then evaluate (.text s) ctx (some path) else return .text s

/-- The items that an evaluated descriptor contributes to a list. -/
def splice (value : Value) : SessionAction (List Value) :=
  lift value.items

/-- The entries of a map with their values evaluated, its kind apart. -/
def evaluateEntries (evaluateOne : Value → SessionAction Value) :
    List (Key × Value) → SessionAction (List (Key × Value))
  | [] => pure []
  | (key, x) :: rest => do
    if key == .text "kind" then evaluateEntries evaluateOne rest
    else return (key, ← evaluateOne x) :: (← evaluateEntries evaluateOne rest)

/-- The items of a list evaluated, with the points of each descriptor in its place. -/
def evaluateItems (evaluateOne : Value → SessionAction Value) : List Value → SessionAction (List Value)
  | [] => pure []
  | item :: rest => do
    let isPath ← lift (Path2D.isDescriptor item)
    let value ← evaluateOne item
    let found ← if isPath then splice value else pure [value]
    return found ++ (← evaluateItems evaluateOne rest)

/-- Runs a nested helper on its evaluated parameters; a failure is recorded and gives nothing. -/
def nestedHelper (evaluateOne : Value → SessionAction Value) (entries : List (Key × Value)) (path : String) :
    SessionAction Value := do
  let given (name : String) := (Value.entry? name entries).getD .null
  let name := if (given "helper").truthy then given "helper" else given "do"
  match ← factoryOrRecord name "nested " path with
  | none => return .null
  | some (name, factory) =>
    let params ← evaluateOne (if (given "params").truthy then given "params" else .map [])
    runFactory name factory params "nested " path

/-- A helper parameter whose value is nested no deeper than `depth`. -/
def evaluateParamWithin (ctx : Context) (path : String) : Nat → Value → SessionAction Value
  | 0, value => pure value
  | depth + 1, value =>
    let evaluateOne := evaluateParamWithin ctx path depth
    match value with
    | .map entries => do
      if isHelperDescriptor entries then nestedHelper evaluateOne entries path
      else
        match referenceTarget? entries with
        | some target => return .marker (← plainText (← render target ctx (some path)))
        | none =>
          let evaluated ← evaluateEntries evaluateOne entries
          match Value.entry? "kind" entries with
          | none => return .map evaluated
          | some kind =>
            let whole := Value.map (evaluated ++ [(.text "kind", kind)])
            if ← lift (Path2D.isDescriptor value) then expandPath whole path else return whole
    | .list items => return .list (← evaluateItems evaluateOne items)
    | .text s => evaluateText s ctx path
    | value => return value

/-- A helper parameter: nested helpers are run, references become markers, path descriptors points, and texts are
evaluated. -/
def evaluateParam (value : Value) (ctx : Context) (path : String) : SessionAction Value :=
  evaluateParamWithin ctx path (value.depth + 2) value

mutual
/-- A dimension of a shape: texts that look like numbers or name a binding are evaluated as well. -/
def evaluateDimension (ctx : Context) (path : String) : Value → SessionAction Value
  | .map entries => do
    let evaluated := Value.map (← evaluateDimensionEntries ctx path entries)
    if ← lift (Path2D.isDescriptor evaluated) then expandPath evaluated path else return evaluated
  | .list items => return .list (← evaluateDimensionItems ctx path items)
  | .text s => do
    let trimmed := Text.trimText s
    if looksLikeExpression (.text trimmed) || isNumberText trimmed || ctx.has trimmed then
      evaluate (.text trimmed) ctx (some path)
    else return .text s
  | value => return value

def evaluateDimensionItems (ctx : Context) (path : String) : List Value → SessionAction (List Value)
  | [] => pure []
  | item :: rest => do
    let value ← evaluateDimension ctx path item
    let found ← if ← lift (Path2D.isDescriptor item) then splice value else pure [value]
    return found ++ (← evaluateDimensionItems ctx path rest)

def evaluateDimensionEntries (ctx : Context) (path : String) :
    List (Key × Value) → SessionAction (List (Key × Value))
  | [] => pure []
  | (key, x) :: rest => do
    let value ← if key == .text "kind" then pure x else evaluateDimension ctx path x
    return (key, value) :: (← evaluateDimensionEntries ctx path rest)
end

/-- A component of a transform; what is no number counts as zero. -/
def componentOf (value : Value) : SessionAction Value :=
  match value.toFloat with
  | .ok x => pure (.float x)
  | .error failure => if failure.isBadNumber then pure (.float 0.0) else throw failure

/-- A number for each axis, or the numbers of a list. -/
def vectorOf (ctx : Context) (path : String) (value : Value) : SessionAction Value :=
  match value with
  | .int _ | .float _ | .bool _ => return .list [value, value, value]
  | .list items => return .list (← items.mapM fun item => do componentOf (← evaluate item ctx (some path)))
  | _ => return .null

/-- A part of a transform as a list of numbers; null when there is none. -/
def evaluateVector (value : Value) (ctx : Context) (path : String) : SessionAction Value := do
  let value ← match value with
    | .text s => evaluate (.text s) ctx (some path)
    | value => pure value
  vectorOf ctx path value

/-- Whether a node is shown; it is unless the value says otherwise. -/
def evaluateVisible (value : Value) (ctx : Context) (path : String) : SessionAction Bool := do
  let value ← match value with
    | .text s => evaluate (.text s) ctx (some path)
    | value => pure value
  return value.isNull || value.truthy

end SessionAction

end ProceduralScene
