import ProceduralScene.Scene.Store
import ProceduralScene.Value.Display

/-!
The text of a node where it is joined to a text: its kind with all its fields, its children included.
-/

set_option autoImplicit false

namespace ProceduralScene.Store

def vectorText (v : Vec3) : String :=
  "[" ++ ", ".intercalate (v.toList.map Number.shortestText) ++ "]"

def materialText (material : Material) : String :=
  "Material(name=" ++ Text.quoted material.name ++ ", color=" ++ Text.quoted material.color ++
    ", roughness=" ++ Number.shortestText material.roughness ++
    ", metalness=" ++ Number.shortestText material.metalness ++
    ", transparent=" ++ showBool material.transparent ++
    ", opacity=" ++ Number.shortestText material.opacity ++ ")"

/-- The fields that all kinds have. -/
def commonText (nodeText : NodeText) (node : Node) : Except Failure String := do
  let carried ← match node.carried with
    | some value => pure ("\x7b'curve': " ++ (← value.display nodeText) ++ "\x7d")
    | none => pure "\x7b\x7d"
  return "name=" ++ Text.quoted node.name ++ ", position=" ++ vectorText node.position ++
    ", rotation=" ++ vectorText node.rotation ++ ", scale=" ++ vectorText node.scale ++
    ", visible=" ++ showBool node.visible ++ ", user_data=" ++ carried

def rowsText (nodeText : NodeText) (rows : List (List Value)) : Except Failure String :=
  (Value.list (rows.map Value.list)).display nodeText

def payloadText (store : Store) (nodeText : NodeText) (id : NodeId) : Payload → Except Failure String
  | .container children => return "children=[" ++ ", ".intercalate (← children.mapM nodeText) ++ "]"
  | .drawable geometry material => do
    let geometryText ← match geometry with
      | some geometry =>
        pure ("Geometry(kind=" ++ Text.quoted geometry.kind ++ ", params=" ++
          (← (Value.map geometry.params).display nodeText) ++ ", uid=" ++ toString (id + 1) ++
          ", disposed=" ++ showBool geometry.disposed ++ ")")
      | none => pure "None"
    let material := (material.map fun found => materialText (store.material found)).getD "None"
    return "geometry=" ++ geometryText ++ ", material=" ++ material
  | .curve line =>
    return "points=[" ++ ", ".intercalate (line.points.map vectorText) ++ "], closed=" ++ showBool line.closed
  | .field origins vectors =>
    return "origins=" ++ (← rowsText nodeText origins) ++ ", vectors=" ++ (← rowsText nodeText vectors)

/-- The text of a node down to a depth. -/
def describeWithin (store : Store) : Nat → NodeId → Except Failure String
  | depth, id =>
    match store.get? id with
    | none => .error .absent
    | some node =>
      match depth with
      | 0 => .ok (node.payload.title ++ "(...)")
      | depth + 1 => do
        let nodeText := describeWithin store depth
        return node.payload.title ++ "(" ++ (← commonText nodeText node) ++ ", " ++
          (← payloadText store nodeText id node.payload) ++ ")"

/-- The text of a node. -/
def describe (store : Store) (id : NodeId) : Except Failure String :=
  describeWithin store (store.size + 1) id

end ProceduralScene.Store
