import ProceduralScene.Scene.Store
import ProceduralScene.Value.Json

/-!
A scene as a plain record: nested maps with the name, the kind, the transform and the content of every node.
-/

set_option autoImplicit false

namespace ProceduralScene.Store

def rowsValue (rows : List (List Value)) : Value := .list (rows.map Value.list)

/-- The fields that only one kind of node has; `children` are the records of the children. -/
def payloadFields (store : Store) (children : List Value) : Payload → Bindings
  | .container _ => [("children", .list children)]
  | .drawable geometry material =>
    (match geometry with
    | some geometry => [("geometry", Value.map geometry.entries)]
    | none => []) ++
    (match material with
    | some material => [("material", .text (store.material material).name)]
    | none => [])
  | .curve line => [("points", .list (line.points.map Vec3.toValue)), ("closed", .bool line.closed)]
  | .field origins vectors => [("origins", rowsValue origins), ("vectors", rowsValue vectors)]

/-- The record of a node down to a depth. -/
def recordWithin (store : Store) : Nat → NodeId → Value
  | depth, id =>
    match store.get? id with
    | none => .null
    | some node =>
      let children := match depth with
        | 0 => []
        | depth + 1 => node.payload.children.map (recordWithin store depth)
      Bindings.toMap
        ([("name", .text node.name), ("kind", .text node.payload.kind), ("position", node.position.toValue),
          ("rotation", node.rotation.toValue), ("scale", node.scale.toValue)] ++
          (if node.visible then [] else [("visible", .bool false)]) ++
          store.payloadFields children node.payload)

/-- The record of a node and everything below it. -/
def record (store : Store) (id : NodeId) : Value :=
  store.recordWithin store.size id

/-- The record as an indented JSON document. -/
def recordText (store : Store) (id : NodeId) : Except Failure String :=
  Json.write .refuse (some 0) (store.record id)

end ProceduralScene.Store
