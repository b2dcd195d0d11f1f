import ProceduralScene.Build.Parameter

/-!
The walk over normalized actions. It goes depth first from left to right, runs every helper once and gives the
blueprints of what is to be placed; a construct that cannot be carried out is recorded and left out.
-/

set_option autoImplicit false

namespace ProceduralScene

/-- A walk among siblings, which hands out their names. -/
abbrev Walk := StateT SiblingNames SessionAction

namespace Walk

open SessionAction

def claim (name : String) : Walk String :=
  modifyGet fun names => names.claim name

/-- A walk among new siblings. -/
def inside {α : Type} (walk : Walk α) : SessionAction α :=
  walk.run' []

/-- The name of an action: its rendered label, or else the fallback, made unique among its siblings. -/
def labelled (label : Value) (fallback : String) (ctx : Context) : Walk String := do
  let text ← if label.isNull then pure fallback else plainText (← render label ctx none)
  claim text

/-- The name that is given, or else the one of the action. -/
def namedOr (given : Option String) (label : Value) (fallback : String) (ctx : Context) : Walk String :=
  match given with
  | some name => if name == "" then labelled label fallback ctx else pure name
  | none => labelled label fallback ctx

/-- The name that is given, whatever it is, or else the one of the action. -/
def givenOr (given : Option String) (label : Value) (fallback : String) (ctx : Context) : Walk String :=
  match given with
  | some name => pure name
  | none => labelled label fallback ctx

/-- A blueprint with the evaluated frame of its action. -/
def blueprint (source : Action) (ctx : Context) (path name : String) (content : BlueprintContent)
    (children : List Blueprint) : SessionAction Blueprint := do
  let frame := source.frame
  let position ← evaluateVector frame.position ctx path
  let rotation ← evaluateVector frame.rotation ctx path
  let scale ← evaluateVector frame.scale ctx path
  let visible ← evaluateVisible frame.visible ctx path
  return {
    path := path
    name := name
    content := content
    position := position
    rotation := rotation
    scale := scale
    visible := visible
    material := .null
    children := children
    context := ctx.freeze
    scope := ctx.layersAbove (← get).globals
    source := source
    instanceIndex := none
    anchor := false }

/-- The scope of an action in messages: its path, unless it stands at the top. -/
def scopePath (scope : String) : Option String := if scope == "" then none else some scope

def limitText (construct : String) (count limit : Int) : String :=
  construct ++ " of " ++ toString count ++ " iterations exceeds limit " ++ toString limit ++ "; skipped"

def overridesFor (path : String) : SessionAction Bindings := do
  return ((← get).pathOverrides.lookup path).getD []

def group (source : Action) (walkChildren : Context → String → Walk (List Blueprint)) (ctx : Context)
    (path name : String) : SessionAction Blueprint := do
  let children ← inside (walkChildren ctx path)
  blueprint source ctx path name .group children

/-- A subtree whose parameters are resolved first; changed parameters of its path win. -/
def template (source : Action) (parameters expressions : Bindings)
    (walkBody : Context → String → Walk (List Blueprint)) (ctx : Context) (path name : String) :
    SessionAction Blueprint := do
  let overrides ← overridesFor path
  let nodeText := (← store).describe
  let scope ← onEvaluator (resolveParameters nodeText parameters ctx expressions overrides)
  let children ← inside (walkBody scope path)
  return { ← blueprint source ctx path name .group children with anchor := true }

/-- The count of a repetition; one that cannot be used is recorded. -/
def repetitionCount (count : Value) (ctx : Context) (path : String) : SessionAction (Option Nat) := do
  let value ← evaluate count ctx (some path)
  match value.toFloat with
  | .error failure =>
    if failure.isBadNumber then
      record "X01" ("repeat count " ++ (← shown count) ++ " is not a number") (some path)
      return none
    else throw failure
  | .ok x =>
    if !Number.isFinite x then
      record "L01" ("repeat count " ++ Number.shortestText x ++ " is not finite; skipped") (some path)
      return none
    else
      let count := max 0 (← lift (Value.truncateFloat x))
      let limit := (← get).limits.repetition
      if limit < count then
        record "L01" (limitText "repeat" count limit) (some path)
        return none
      else return some count.toNat

/-- The options of a placement; a curve may be given by a text. -/
def placementOptions (options : Option Bindings) (ctx : Context) (path : String) : SessionAction Bindings := do
  let options := options.getD []
  match options.get? "curve" with
  | some (.text s) => return options.put "curve" (← evaluateText s ctx path)
  | _ => return options

def placements (options : Option Bindings) (count : Nat) (ctx : Context) (path : String) :
    SessionAction (List Vec3) := do
  let options ← placementOptions options ctx path
  let store ← store
  onEvaluator (Placement.positions ⟨store, options, count, ctx⟩)

/-- Adds the components of an offset; the sum has as many as the shorter one. -/
def shift (position : Vec3) (offset : Value) : SessionAction Value :=
  match offset with
  | .list items => do
    let sums ← (position.toList.zip items).mapM fun (p, o) => do
      return Value.float (p + (← lift o.toFloat))
    return .list sums
  | _ => pure position.toValue

/-- One instance of a repetition, in a scope with its number and parameters. -/
def instanceAt (source : Action) (parameters : Bindings) (walkChildren : Context → String → Walk (List Blueprint))
    (index : Nat) (position : Vec3) (ctx : Context) (path name : String) : SessionAction Blueprint := do
  let scope ← parameters.foldlM (fun (scope : Context) (entry : String × Value) => do
    return scope.set entry.1 (← evaluate entry.2 scope (some path))) (ctx.child [("index", .int index)])
  let place ← shift position (← evaluateVector source.frame.position ctx path)
  let children ← inside (walkChildren scope path)
  return { ← blueprint source ctx path name .group children with
    position := place, instanceIndex := some index }

/-- The instances of a repetition, whose names begin with `base`. -/
def instances (source : Action) (count : Value) (distribution : Option Bindings) (parameters : Bindings)
    (walkChildren : Context → String → Walk (List Blueprint)) (ctx : Context) (scope base : String) :
    Walk (List Blueprint) := do
  let place := joinPath scope base
  match ← repetitionCount count ctx place with
  | none => return []
  | some count =>
    match ← attempt (placements distribution count ctx scope) with
    | .error failure =>
      if failure.isBadNumber then
        record "X01" ("bad distribution option: " ++ failure.message) (some place)
        return []
      else throw failure
    | .ok positions =>
      positions.zipIdx.mapM fun (position, i) => do
        let name ← claim (base ++ "_" ++ toString i)
        instanceAt source parameters walkChildren i position ctx (joinPath scope name) name

def repetition (source : Action) (count : Value) (distribution : Option Bindings) (parameters : Bindings)
    (walkChildren : Context → String → Walk (List Blueprint)) (ctx : Context) (scope : String) :
    Walk (List Blueprint) := do
  let label := source.frame.id
  let base ← if label.isNull then pure "repeat" else plainText (← render label ctx none)
  instances source count distribution parameters walkChildren ctx scope base

/-- The value of a loop counter: a whole number is an integer. -/
def counterValue (x : Float) : Value :=
  match Number.decode x with
  | .finite d => if d.isInteger then .int d.truncate else .float x
  | _ => .float x

/-- The bounds and the step of a loop as numbers. -/
def loopBounds (start stop step : Value) : Except Failure (Float × Float × Float) := do
  return (← start.toFloat, ← stop.toFloat, ← step.toFloat)

/-- How often a loop runs; bounds that cannot be used are recorded. -/
def loopCount (start stop step : Value) (path : String) : SessionAction (Option (Nat × Float × Float)) := do
  match loopBounds start stop step with
  | .error failure =>
    if failure.isBadNumber then
      record "X01" ("loop bounds are not numbers: " ++ (← shown start) ++ ".." ++ (← shown stop)) (some path)
      return none
    else throw failure
  | .ok (start, stop, step) =>
    if !(Number.isFinite start && Number.isFinite stop && Number.isFinite step) then
      record "L01" ("loop bounds are not finite: " ++ Number.shortestText start ++ ".." ++
        Number.shortestText stop ++ "; skipped") (some path)
      return none
    else if step == 0.0 then
      record "L01" "loop step is 0; skipped" (some path)
      return none
    else
      let count := max 0 (← lift (Value.float ((stop - start) / step)).ceil)
      let limit := (← get).limits.loop
      if limit < count then
        record "L01" (limitText "loop" count limit) (some path)
        return none
      else return some (count.toNat, start, step)

def loop (counter : String) (start stop step : Value) (walkBody : Context → Walk (List Blueprint))
    (ctx : Context) (scope : String) : Walk (List Blueprint) := do
  let place := joinPath scope ("loop(" ++ counter ++ ")")
  let start ← evaluate start ctx (some place)
  let stop ← evaluate stop ctx (some place)
  let step ← evaluate step ctx (some place)
  match ← loopCount start stop step place with
  | none => return []
  | some (count, start, step) =>
    let rounds ← (List.range count).mapM fun n =>
      walkBody (ctx.child [(counter, counterValue (start + Float.ofNat n * step))])
    return rounds.flatten

mutual
/-- Whether a value holds a reference that is resolved later. -/
def holdsMarker : Value → Bool
  | .marker _ => true
  | .list items => itemsHoldMarker items
  | .map entries => entriesHoldMarker entries
  | _ => false

def itemsHoldMarker : List Value → Bool
  | [] => false
  | x :: rest => holdsMarker x || itemsHoldMarker rest

def entriesHoldMarker : List (Key × Value) → Bool
  | [] => false
  | (_, x) :: rest => holdsMarker x || entriesHoldMarker rest
end

/-- The label of a helper: that of the action, or else the parameter `id`. -/
def helperLabel (label params : Value) : SessionAction Value :=
  if !label.isNull then pure label
  else
    match params with
    | .map entries => pure ((Value.entry? "id" entries).getD .null)
    | _ => throw .wrongKind

def storeResult (name : Option String) (result : Value) : SessionAction Unit :=
  match name with
  | some name =>
    if name == "" then pure ()
    else modify fun session => { session with stored := session.stored.put name result }
  | none => pure ()

/-- The blueprint of a leaf, in a list. -/
def leaf (source : Action) (ctx : Context) (scope name : String) (content : BlueprintContent) (material : Value) :
    SessionAction (List Blueprint) := do
  return [{ ← blueprint source ctx (joinPath scope name) name content [] with material := material }]

/-- A call of a helper, which records say happens at a place. With references among its parameters the factory runs
when the blueprint is placed, else at once. -/
def call (source : Action) (helper : String) (params : Bindings) (material : Value) (storeAs : Option String)
    (ctx : Context) (scope : String) (name : Option String) (place : String) : Walk (List Blueprint) := do
  match ← factoryOrRecord (.text helper) "" place with
  | none => return []
  | some (_, factory) =>
    let params ← evaluateParam params.toMap ctx place
    let name ← givenOr name (← helperLabel source.frame.id params) helper ctx
    if holdsMarker params then leaf source ctx scope name (.call helper params none) material
    else
      let result ← runFactory helper factory params "" (joinPath scope name)
      if result.isNull then return []
      else
        storeResult storeAs result
        leaf source ctx scope name (.call helper params (some result)) material

def helper (source : Action) (helper : String) (params : Bindings) (material : Value) (storeAs : Option String)
    (ctx : Context) (scope : String) (name : Option String) : Walk (List Blueprint) := do
  let label := source.frame.id
  let title ← if label.truthy then plainText label else pure helper
  call source helper params material storeAs ctx scope name (joinPath scope title)

def reference (source : Action) (target : String) (material : Value) (ctx : Context) (path name : String) :
    SessionAction Blueprint := do
  let target ← plainText (← render (.text target) ctx (some path))
  return { ← blueprint source ctx path name (.reference target) [] with material := material }

/-- The factory that makes a named shape. -/
def shapeFactory (shape : String) : String :=
  match shape with
  | "box" => "createBox"
  | "sphere" => "createSphere"
  | "cylinder" => "createCylinder"
  | "cone" => "createCone"
  | "plane" => "createPlane"
  | "torus" => "createTorus"
  | "extrude" => "createExtrude"
  | "line" => "createLinePath"
  | "spline" => "createSplinePath"
  | other => other

/-- The parameters that dimensions stand for: a list gives width, height and depth. -/
def shapeEntries (dims : Value) : List (Key × Value) :=
  match dims with
  | .list items => (["width", "height", "depth"].map Key.text).zip items
  | .map entries =>
    match Value.entry? "outer" entries with
    | some outer => Value.putEntry (.text "shape") outer (entries.filter (·.1 != .text "outer"))
    | none => entries
  | _ => []

/-- The parameters of a shape, with its name as `id` unless there is one. -/
def shapeParams (dims : Value) (name : String) : Value :=
  let entries := shapeEntries dims
  if (Value.entry? "id" entries).isSome then .map entries
  else .map (entries ++ [(.text "id", .text name)])

def geometry (source : Action) (shape : String) (dimensions material : Value) (ctx : Context) (scope : String)
    (name : Option String) : Walk (List Blueprint) := do
  let helper := shapeFactory shape
  let name ← givenOr name source.frame.id shape ctx
  let path := joinPath scope name
  match ← factoryOrRecord (.text helper) "" path with
  | none => return []
  | some (_, factory) =>
    let params := shapeParams (← evaluateDimension ctx path dimensions) name
    let result ← runFactory helper factory params "" path
    if result.isNull then return []
    else leaf source ctx scope name (.shape helper params result) material

mutual
/-- The blueprints of one action; a name that is given is used as it is. -/
def action (ctx : Context) (scope : String) (name : Option String) : Action → Walk (List Blueprint)
  | .group frame children => do
    let name ← namedOr name frame.id "group" ctx
    return [← group (.group frame children) (fun ctx path => actions ctx path children) ctx
      (joinPath scope name) name]
  | .template frame parameters expressions body => do
    let name ← namedOr name frame.id "template" ctx
    return [← template (.template frame parameters expressions body) parameters expressions
      (fun ctx path => actions ctx path body) ctx (joinPath scope name) name]
  | .repetition frame count distribution parameters children =>
    repetition (.repetition frame count distribution parameters children) count distribution parameters
      (fun ctx path => actions ctx path children) ctx scope
  | .loop _ counter start stop step body =>
    loop counter start stop step (fun ctx => actions ctx scope body) ctx scope
  | .conditional _ condition accepted refused => do
    if (← evaluate condition ctx (scopePath scope)).truthy then actions ctx scope accepted
    else actions ctx scope refused
  | .helper frame name' params material storeAs =>
    helper (.helper frame name' params material storeAs) name' params material storeAs ctx scope name
  | .reference frame target material => do
    let name ← namedOr name frame.id ("ref_" ++ target) ctx
    return [← reference (.reference frame target material) target material ctx (joinPath scope name) name]
  | .geometry frame shape dimensions material =>
    geometry (.geometry frame shape dimensions material) shape dimensions material ctx scope name

def actions (ctx : Context) (scope : String) : List Action → Walk (List Blueprint)
  | [] => pure []
  | first :: rest => do
    let found ← action ctx scope none first
    return found ++ (← actions ctx scope rest)
end

/-- The blueprints of some actions. -/
def all (list : List Action) (ctx : Context) (scope : String) : SessionAction (List Blueprint) :=
  inside (actions ctx scope list)

/-- Makes the blueprint of one action again, under the name that it had. -/
def again (source : Action) (ctx : Context) (scope name : String) (instanceIndex : Option Nat) :
    SessionAction (Option Blueprint) := do
  match source, instanceIndex with
  | .repetition _ count distribution parameters children, some index =>
    match ← repetitionCount count ctx (joinPath scope name) with
    | none => return none
    | some count =>
      if count ≤ index then return none
      else
        let positions ← placements distribution count ctx scope
        return some (← instanceAt source parameters (fun ctx path => actions ctx path children) index
          (positions.getD index Vec3.zero) ctx (joinPath scope name) name)
  | _, _ => return (← inside (action ctx scope (some name) source)).head?

end Walk

end ProceduralScene
