import ProceduralScene.Value.Convert

/-!
What a scene is made of. A node is a container of other nodes, a drawable that owns a geometry, a curve or a
sampled vector field; all of them have a name, a transform and a parent. Geometries belong to one drawable,
materials are shared.
-/

set_option autoImplicit false

namespace ProceduralScene

structure Vec3 where
  x : Float
  y : Float
  z : Float
  deriving Inhabited

namespace Vec3

def zero : Vec3 := ⟨0.0, 0.0, 0.0⟩

def one : Vec3 := ⟨1.0, 1.0, 1.0⟩

def uniform (x : Float) : Vec3 := ⟨x, x, x⟩

def add (a b : Vec3) : Vec3 := ⟨a.x + b.x, a.y + b.y, a.z + b.z⟩

def sub (a b : Vec3) : Vec3 := ⟨a.x - b.x, a.y - b.y, a.z - b.z⟩

def scale (a : Vec3) (factor : Float) : Vec3 := ⟨a.x * factor, a.y * factor, a.z * factor⟩

def norm (a : Vec3) : Float := Float.sqrt (a.x * a.x + a.y * a.y + a.z * a.z)

def toList (a : Vec3) : List Float := [a.x, a.y, a.z]

def toValue (a : Vec3) : Value := Value.ofFloats a.toList

/-- The first three of some numbers; missing ones are `missing`. -/
def ofList (missing : Float) (xs : List Float) : Vec3 :=
  ⟨xs.getD 0 missing, xs.getD 1 missing, xs.getD 2 missing⟩

/-- A triple from the first three items of a list-like value. -/
def ofItems (missing : Float) (value : Value) : Except Failure Vec3 := do
  return ofList missing (← ((← value.items).take 3).mapM Value.toFloat)

/-- A triple that a transform names: one number stands for all three components. -/
def ofTransform (missing : Float) (value : Value) : Except Failure Vec3 :=
  match value with
  | .int _ | .float _ | .bool _ => return uniform (← value.toFloat)
  | _ => ofItems missing value

end Vec3

/-- The shape of a drawable, described by a kind and its parameters. -/
structure Geometry where
  kind : String
  params : List (Key × Value)
  disposed : Bool

/-- The kind and the parameters in one map; a parameter called `kind` wins. -/
def Geometry.entries (geometry : Geometry) : List (Key × Value) :=
  geometry.params.foldl (fun entries entry => Value.putEntry entry.1 entry.2 entries)
    [(.text "kind", .text geometry.kind)]

def Geometry.copy (geometry : Geometry) : Geometry := { geometry with disposed := false }

/-- A material of the scene store; two materials with the same fields are still two. -/
abbrev MaterialId := Nat

structure Material where
  name : String
  color : String
  roughness : Float
  metalness : Float
  transparent : Bool
  opacity : Float

namespace Material

def named (name : String) : Material := ⟨name, "#cccccc", 0.5, 0.0, false, 1.0⟩

/-- What a drawable gets when neither its own material nor a default one exists. -/
def fallback : Material := { named "__fallback__" with color := "#808080" }

def fields (material : Material) : Bindings :=
  [("name", .text material.name), ("color", .text material.color), ("roughness", .float material.roughness),
   ("metalness", .float material.metalness), ("transparent", .bool material.transparent),
   ("opacity", .float material.opacity)]

end Material

/-- A polyline; a closed one returns to its first point. -/
structure Polyline where
  points : List Vec3
  closed : Bool

/-- What is particular to a kind of node. -/
inductive Payload where
  | container (children : List NodeId)
  | drawable (geometry : Option Geometry) (material : Option MaterialId)
  | curve (line : Polyline)
  | field (origins vectors : List (List Value))

structure Node where
  name : String
  position : Vec3
  rotation : Vec3
  scale : Vec3
  visible : Bool
  /-- The curve that the node carries beside its own content, if one was attached to it. -/
  carried : Option Value
  parent : Option NodeId
  disposed : Bool
  payload : Payload

namespace Payload

def kind : Payload → String
  | .container _ => "container"
  | .drawable _ _ => "drawable"
  | .curve _ => "curve"
  | .field _ _ => "field"

/-- The name of the kind in messages. -/
def title : Payload → String
  | .container _ => "Container"
  | .drawable _ _ => "Drawable"
  | .curve _ => "Curve"
  | .field _ _ => "Field"

def children : Payload → List NodeId
  | .container children => children
  | _ => []

def isContainer : Payload → Bool
  | .container _ => true
  | _ => false

def isDrawable : Payload → Bool
  | .drawable _ _ => true
  | _ => false

def isCurve : Payload → Bool
  | .curve _ => true
  | _ => false

def isField : Payload → Bool
  | .field _ _ => true
  | _ => false

def geometry? : Payload → Option Geometry
  | .drawable geometry _ => geometry
  | _ => none

def material? : Payload → Option MaterialId
  | .drawable _ material => material
  | _ => none

def polyline? : Payload → Option Polyline
  | .curve line => some line
  | _ => none

/-- The payload of a copy: the geometry is copied, the material shared, and no child taken along. -/
def copyWithoutChildren : Payload → Payload
  | .container _ => .container []
  | .drawable geometry material => .drawable (geometry.map Geometry.copy) material
  | payload => payload

end Payload

namespace Node

/-- A node at the origin with no parent. -/
def ofPayload (name : String) (payload : Payload) : Node where
  name := name
  position := Vec3.zero
  rotation := Vec3.zero
  scale := Vec3.one
  visible := true
  carried := none
  parent := none
  disposed := false
  payload := payload

/-- A geometry that was not disposed yet. -/
def liveGeometry (node : Node) : Bool :=
  node.payload.geometry?.any fun geometry => !geometry.disposed

/-- The node marked as disposed, its geometry included. -/
def dispose (node : Node) : Node :=
  { node with
    disposed := true
    payload :=
      match node.payload with
      | .drawable (some geometry) material => .drawable (some { geometry with disposed := true }) material
      | payload => payload }

/-- A parentless copy without children; a copy of a disposed node is not disposed. -/
def copyWithoutChildren (node : Node) : Node :=
  { node with parent := none, disposed := false, payload := node.payload.copyWithoutChildren }

end Node

end ProceduralScene
