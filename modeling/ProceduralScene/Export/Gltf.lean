import ProceduralScene.Scene.Store
import ProceduralScene.Value.Json

/-!
A scene as a glTF document: the nodes in the order of a walk, each with the indices of its children, and the
materials in the order of their first use. Geometry is described in the extras of a node.
-/

set_option autoImplicit false

namespace ProceduralScene

namespace Gltf

/-- A node of a document; the rotation is a quaternion. -/
structure Node where
  name : String
  translation : List Float
  rotation : List Float
  scale : List Float
  children : List Nat
  extras : Bindings

structure Material where
  name : String
  /-- Red, green, blue and opacity. -/
  color : List Float
  metallic : Float
  roughness : Float
  blended : Bool

end Gltf

/-- The root of a document is its first node. -/
structure Gltf where
  nodes : Array Gltf.Node
  /-- The materials in the order of their first use. -/
  materials : List MaterialId

namespace Gltf

/-- The quaternion of rotations about x, y and z, with a real part that is not negative. -/
def quaternion (rotation : Vec3) : Except Failure (List Float) :=
  if rotation.toList.any Float.isInf then .error .badContent
  else
    let cx := Float.cos (rotation.x / 2.0)
    let sx := Float.sin (rotation.x / 2.0)
    let cy := Float.cos (rotation.y / 2.0)
    let sy := Float.sin (rotation.y / 2.0)
    let cz := Float.cos (rotation.z / 2.0)
    let sz := Float.sin (rotation.z / 2.0)
    let x := sx * cy * cz + cx * sy * sz
    let y := cx * sy * cz - sx * cy * sz
    let z := cx * cy * sz + sx * sy * cz
    let w := cx * cy * cz - sx * sy * sz
    .ok (if w < 0.0 then [-x, -y, -z, -w] else [x, y, z, w])

def hexDigit? (c : Char) : Option Nat :=
  if 'a' ≤ c && c ≤ 'f' then some (c.toNat - 87)
  else if 'A' ≤ c && c ≤ 'F' then some (c.toNat - 55)
  else Text.digitValue? c

/-- A component of a color in hexadecimal digits, with a sign and blanks allowed. -/
def component? (cs : List Char) : Option Float := do
  let (negative, digits) := Value.cutSign (Text.trim cs)
  if digits.isEmpty then none
  else
    let n ← digits.foldlM (fun n c => (hexDigit? c).map (16 * n + ·)) 0
    some (Float.ofInt (if negative then -Int.ofNat n else Int.ofNat n) / 255.0)

/-- Red, green and blue of a color text, then the opacity; an unreadable color is gray. -/
def colorOf (color : String) (opacity : Float) : List Float :=
  let digits := color.toList.dropWhile (· == '#')
  let digits := if digits.length == 3 then digits.flatMap fun c => [c, c] else digits
  match component? (digits.take 2), component? ((digits.drop 2).take 2), component? ((digits.drop 4).take 2) with
  | some r, some g, some b => [r, g, b, opacity]
  | _, _, _ => [0.5, 0.5, 0.5, opacity]

def materialOf (material : ProceduralScene.Material) : Material where
  name := material.name
  color := colorOf material.color material.opacity
  metallic := material.metalness
  roughness := material.roughness
  blended := material.transparent || material.opacity < 1.0

/-- The place of a material in the document; a new one goes to the end. -/
def materialIndex (id : MaterialId) (materials : List MaterialId) : Nat × List MaterialId :=
  match materials.idxOf? id with
  | some index => (index, materials)
  | none => (materials.length, materials ++ [id])

/-- What the extras of a node say about its content, and the materials of the document. -/
def payloadExtras (store : Store) (materials : List MaterialId) : Payload → Bindings × List MaterialId
  | .container _ => ([], materials)
  | .drawable geometry material =>
    let described := match geometry with
      | some geometry => [("geometry", Value.map geometry.entries)]
      | none => []
    match material with
    | some id =>
      let (index, materials) := materialIndex id materials
      (described ++ [("material", .int index), ("materialName", .text (store.material id).name)], materials)
    | none => (described, materials)
  | .curve line =>
    ([("points", .list (line.points.map Vec3.toValue)), ("closed", .bool line.closed)], materials)
  | .field origins _ => ([("sampleCount", .int origins.length)], materials)

def nodeOf (node : ProceduralScene.Node) (extras : Bindings) : Except Failure Node := do
  let hidden : Bindings := if node.visible then [] else [("visible", .bool false)]
  return {
    name := node.name
    translation := node.position.toList
    rotation := ← quaternion node.rotation
    scale := node.scale.toList
    children := []
    extras := [("kind", .text node.payload.kind)] ++ hidden ++ extras }

def setChildren (index : Nat) (children : List Nat) (document : Gltf) : Gltf :=
  { document with nodes := document.nodes.modify index fun node => { node with children := children } }

/-- Adds a node and everything below it down to a depth. Gives the place of the node. -/
def addWithin (store : Store) : Nat → NodeId → Gltf → Except Failure (Nat × Gltf)
  | depth, id, document =>
    match store.get? id with
    | none => .error .absent
    | some node => do
      let index := document.nodes.size
      let (extras, materials) := payloadExtras store document.materials node.payload
      let document : Gltf := ⟨document.nodes.push (← nodeOf node extras), materials⟩
      match depth with
      | 0 => return (index, document)
      | depth + 1 =>
        let (children, document) ← node.payload.children.foldlM (fun (state : List Nat × Gltf) child => do
          let (place, document) ← addWithin store depth child state.2
          return (state.1 ++ [place], document)) ([], document)
        return (index, document.setChildren index children)

/-- The document of a node and everything below it. -/
def ofScene (store : Store) (root : NodeId) : Except Failure Gltf := do
  return (← addWithin store store.size root ⟨#[], []⟩).2

def floats (xs : List Float) : Value := Value.ofFloats xs

def Node.toValue (node : Node) : Value :=
  Bindings.toMap
    ([("name", .text node.name), ("translation", floats node.translation), ("rotation", floats node.rotation),
      ("scale", floats node.scale), ("extras", Bindings.toMap node.extras)] ++
      (if node.children.isEmpty then []
       else [("children", .list (node.children.map fun child => .int (Int.ofNat child)))]))

def Material.toValue (material : Material) : Value :=
  Bindings.toMap
    [("name", .text material.name),
     ("pbrMetallicRoughness", Bindings.toMap
       [("baseColorFactor", floats material.color), ("metallicFactor", .float material.metallic),
        ("roughnessFactor", .float material.roughness)]),
     ("alphaMode", .text (if material.blended then "BLEND" else "OPAQUE"))]

/-- The document as a value; `buffered` says that a binary part of four bytes belongs to it. -/
def toValue (store : Store) (buffered : Bool) (document : Gltf) : Value :=
  Bindings.toMap
    ([("asset", Bindings.toMap [("version", .text "2.0")]), ("scene", .int 0),
      ("scenes", .list [Bindings.toMap [("nodes", .list [.int 0])]]),
      ("nodes", .list (document.nodes.toList.map Node.toValue)),
      ("materials", .list (document.materials.map fun id => (materialOf (store.material id)).toValue))] ++
      (if buffered then [("buffers", .list [Bindings.toMap [("byteLength", .int 4)]])] else []))

def toText (store : Store) (buffered : Bool) (document : Gltf) : Except Failure String :=
  Json.write .refuse none (document.toValue store buffered)

/-- A number as four bytes, the lowest first. -/
def fourBytes (n : Nat) : List UInt8 :=
  (List.range 4).map fun i => UInt8.ofNat (n / Number.twoTo (8 * i) % 256)

def padded (blank : UInt8) (bytes : List UInt8) : List UInt8 :=
  bytes ++ List.replicate ((4 - bytes.length % 4) % 4) blank

/-- The binary form: a header, the document as a chunk of text, and an empty binary chunk. -/
def binary (text : String) : List UInt8 :=
  let document := padded 32 text.toUTF8.toList
  let chunks := fourBytes document.length ++ "JSON".toUTF8.toList ++ document ++
    fourBytes 0 ++ "BIN".toUTF8.toList ++ [0]
  "glTF".toUTF8.toList ++ fourBytes 2 ++ fourBytes (12 + chunks.length) ++ chunks

end Gltf

end ProceduralScene
