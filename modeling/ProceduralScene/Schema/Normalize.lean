import ProceduralScene.Diagnostic.Log
import ProceduralScene.Scene.Describe
import ProceduralScene.Schema.Action
import ProceduralScene.Schema.Basic
import ProceduralScene.Schema.Spelling

/-!
Normalization of actions. An action is written with a verb in `do`, with a kind in `type`, or as a step of a
procedure; each form becomes the same action. An item that cannot be normalized is recorded and left out, and the
rest is kept.
-/

set_option autoImplicit false

namespace ProceduralScene

/-- Normalization records what it leaves out. -/
abbrev Normalizing := ExceptT Failure (StateM DiagnosticLog)

namespace Normalize

def leaveOut (text : String) : Normalizing (Option Action) := do
  modify fun log => log.record "N01" text none
  return none

/-- The shapes that an action may name as its kind. -/
def shapes : List String :=
  ["box", "sphere", "cylinder", "cone", "plane", "torus", "extrude", "line", "spline"]

abbrev Entries := List (Key × Value)

def given (name : String) (raw : Entries) : Value :=
  (Value.entry? name raw).getD .null

/-- The first of two fields that is given and counts as true, else the second. -/
def either (first second : Value) : Value :=
  if first.truthy then first else second

def transformKeys : List String := ["position", "rotation", "scale"]

def putGiven (source : Entries) (fields : Entries) (key : String) : Entries :=
  let value := given key source
  if value.isNull then fields else Value.putEntry (.text key) value fields

/-- The parts of a transform, those in a field `transform` before those on the action itself. -/
def transformFields (raw : Entries) : Entries :=
  let own := transformKeys.foldl (putGiven raw) []
  match given "transform" raw with
  | .map transform => transformKeys.foldl (putGiven transform) own
  | _ => own

def withTransform (raw : Entries) : Entries :=
  (transformFields raw).foldl (fun entries entry => Value.putEntry entry.1 entry.2 entries) raw

/-- An action from chosen fields and the transform of the raw one. -/
def chosen (fields : Bindings) (raw : Entries) : Entries :=
  fields.map (fun field => (Key.text field.1, field.2)) ++ transformFields raw

def orEmpty (value : Value) : Value :=
  if value.truthy then value else .map []

/-- Keeps an action that was read; a misfit is recorded with the kind that the raw one names. -/
def keep (store : Store) (raw : Entries) (place : String) (reading : Reading Action) :
    Normalizing (Option Action) := do
  match reading with
  | .ok action => return some action
  | .error paths =>
    match (either (given "type" raw) (given "do" raw)).display store.describe with
    | .ok kind =>
      leaveOut (place ++ ": invalid " ++ kind ++ " node: " ++ (Failure.invalid (Reading.describe paths)).message)
    | .error failure => throw failure

/-- Normalizes nested actions: a list of them or a single one. -/
def nested (normalize : Value → String → Normalizing (Option Action)) (value : Value) (place : String) :
    Normalizing (List Action) := do
  let items := match value with
    | .null => []
    | .list items => items
    | item => [item]
  let found ← items.zipIdx.mapM fun item => normalize item.1 (place ++ "[" ++ toString item.2 ++ "]")
  return found.filterMap id

/-- An action with a verb. -/
def fromVerb (store : Store) (normalize : Value → String → Normalizing (Option Action)) (raw : Entries)
    (place : String) : Normalizing (Option Action) := do
  let keep := keep store raw place
  let entries := withTransform raw
  match given "do" raw with
  | .text "loop" =>
    keep (Action.readLoop entries (← nested normalize (given "body" raw) (place ++ ".body")))
  | .text "if" =>
    let accepted ← nested normalize (given "then" raw) (place ++ ".then")
    let refused ← nested normalize (given "else" raw) (place ++ ".else")
    keep (Action.readConditional entries accepted refused)
  | .text "repeat" =>
    let body := (Value.entry? "body" raw).getD (given "children" raw)
    keep (Action.readRepetition entries (← nested normalize body (place ++ ".body")))
  | .text "clone" =>
    let params := given "params" raw
    if params.truthy && !params.isMap then throw .wrongKind
    let target := either (params.fieldOrNull "id") (given "target" raw)
    if !target.truthy then leaveOut (place ++ ": clone without a source id")
    else
      keep (Action.readReference (chosen
        [("id", given "id" raw), ("target", target), ("material", given "material" raw)] raw))
  | .text "" => leaveOut (place ++ ": 'do' must name a helper")
  | .text name =>
    keep (Action.readHelper (chosen
      [("id", either (given "id" raw) (given "as" raw)), ("helper", .text name),
       ("params", orEmpty (given "params" raw)), ("material", given "material" raw), ("as", given "as" raw),
       ("visible", (Value.entry? "visible" raw).getD (.bool true))] raw))
  | _ => leaveOut (place ++ ": 'do' must name a helper")

/-- A step of a procedure. -/
def fromStep (store : Store) (raw : Entries) (place : String) : Normalizing (Option Action) :=
  keep store raw place (Action.readHelper (chosen
    [("id", either (given "id" raw) (given "store" raw)), ("helper", given "helper" raw),
     ("params", orEmpty (given "params" raw)), ("material", given "material" raw), ("as", given "store" raw)] raw))

/-- The kind that an action names; one with dimensions and no kind is a box. -/
def kindOf (raw : Entries) : Value :=
  match given "type" raw with
  | .null => if (Value.entry? "dimensions" raw).isSome then .text "box" else .null
  | kind => kind

/-- An action with a kind. A kind that cannot be a key is refused. -/
def fromKind (store : Store) (normalize : Value → String → Normalizing (Option Action)) (raw : Entries)
    (place : String) : Normalizing (Option Action) := do
  let keep := keep store raw place
  let entries := withTransform raw
  let unknown (kind : Value) : Normalizing (Option Action) := do
    match kind.display store.describe with
    | .ok shown => leaveOut (place ++ ": unknown node type " ++ shown ++ "; skipped")
    | .error failure => throw failure
  match kindOf raw with
  | .text "group" =>
    keep (Action.readGroup entries (← nested normalize (given "children" raw) (place ++ ".children")))
  | .text "repeat" =>
    keep (Action.readRepetition entries (← nested normalize (given "children" raw) (place ++ ".children")))
  | .text "loop" =>
    let body := (Value.entry? "body" raw).getD (given "children" raw)
    keep (Action.readLoop entries (← nested normalize body (place ++ ".body")))
  | .text "reference" => keep (Action.readReference entries)
  | .text "geometry" => keep (Action.readGeometry entries ((Value.entry? "shape" raw).getD (.text "box")))
  | .text kind =>
    if kind == "template" || kind == "parametric_template" then
      let body := (Value.entry? "template" raw).getD (given "children" raw)
      keep (Action.readTemplate entries (← nested normalize body (place ++ ".template")))
    else if kind == "if" || kind == "conditional" then
      let accepted ← nested normalize (given "then" raw) (place ++ ".then")
      let refused ← nested normalize (given "else" raw) (place ++ ".else")
      keep (Action.readConditional (Value.putEntry (.text "type") (.text "if") entries) accepted refused)
    else if kind == "helper" || kind == "helper3d" || kind == "helperCall" then keep (Action.readHelper entries)
    else if shapes.contains kind then keep (Action.readGeometry entries (.text kind))
    else unknown (.text kind)
  | .list _ | .map _ => throw .wrongKind
  | kind => unknown kind

/-- Normalizes one item, whose actions are nested no deeper than `depth`. -/
def itemWithin (store : Store) : Nat → Value → String → Normalizing (Option Action)
  | 0, _, _ => pure none
  | depth + 1, raw, place =>
    match raw with
    | .map entries =>
      let entries := Spelling.modernEntries entries
      let thought := given "thought" entries
      let entries := entries.filter (·.1 != .text "thought")
      let normalize := itemWithin store depth
      if thought.truthy && entries.isEmpty then pure none
      else if (Value.entry? "do" entries).isSome then fromVerb store normalize entries place
      else if (given "type" entries).isNull && (Value.entry? "helper" entries).isSome then
        fromStep store entries place
      else fromKind store normalize entries place
    | _ => leaveOut (place ++ ": action must be a mapping, got " ++ raw.kindName store.titleOf)

def item (store : Store) (raw : Value) (place : String) : Normalizing (Option Action) :=
  itemWithin store (raw.depth + 1) raw place

/-- Normalizes a list of actions, or a single one; `place` says where in the document they stand. -/
def actions (store : Store) (raw : Value) (place : String) : Normalizing (List Action) :=
  nested (itemWithin store (raw.depth + 1)) raw place

/-- The actions of a schema, whichever dialect it is written in. -/
def schema (store : Store) (schema : Schema) : Normalizing (List Action) :=
  match schema.dialect with
  | .actions =>
    match schema.actions with
    | some items => actions store (.list items) "actions"
    | none => actions store ((schema.template.map Value.list).getD .null) "template"
  | .procedures =>
    match schema.procedures with
    | first :: _ => nested (item store) (.list first.steps) "procedures[0].steps"
    | [] => pure []

end Normalize

end ProceduralScene
