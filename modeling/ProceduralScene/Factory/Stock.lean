import ProceduralScene.Scene.Describe
import ProceduralScene.Scene.Resolve

/-!
The node factories that every run starts with. A factory takes a map of evaluated parameters and makes a node; it
fails when a parameter cannot be used.
-/

set_option autoImplicit false

namespace ProceduralScene

/-- Makes a node, a list of nodes or nothing from a map of parameters. -/
abbrev Factory := Value → SceneAction Value

namespace Factory

open SceneAction

def entriesOf (params : Value) : SceneAction (List (Key × Value)) :=
  match params with
  | .map entries => pure entries
  | _ => throw .wrongKind

/-- A parameter, or `missing` when it is not given. -/
def param (entries : List (Key × Value)) (name : String) (missing : Value) : Value :=
  (Value.entry? name entries).getD missing

/-- A numeric parameter; null counts as not given. -/
def number (entries : List (Key × Value)) (name : String) (missing : Float) : Except Failure Float :=
  match param entries name .null with
  | .null => .ok missing
  | value => value.toFloat

/-- The integer part of a numeric parameter. -/
def count (entries : List (Key × Value)) (name : String) (missing : Float) : Except Failure Int := do
  Value.truncateFloat (← number entries name missing)

/-- The name that the parameters give to a node. -/
def nameOf (nodeText : NodeText) (entries : List (Key × Value)) (fallback : String) : Except Failure String :=
  let id := param entries "id" .null
  let name := param entries "name" .null
  if id.truthy then id.plainText nodeText
  else if name.truthy then name.plainText nodeText
  else .ok fallback

def createNamed (entries : List (Key × Value)) (fallback : String) (payload : Payload) : SceneAction Value := do
  let name ← lift (nameOf (← store).describe entries fallback)
  return .node (← create (Node.ofPayload name payload))

/-- A drawable with a geometry of a kind, named for the kind unless the parameters say otherwise. -/
def createMesh (kind : String) (entries : List (Key × Value)) (dims : Bindings) : SceneAction Value :=
  createNamed entries kind
    (.drawable (some ⟨kind, dims.map fun dim => (.text dim.1, dim.2), false⟩) none)

def floatDim (entries : List (Key × Value)) (name : String) (missing : Float) :
    Except Failure (String × Value) := do
  return (name, .float (← number entries name missing))

def countDim (entries : List (Key × Value)) (name : String) (missing : Float) :
    Except Failure (String × Value) := do
  return (name, .int (← count entries name missing))

/-- A mesh whose dimensions are computed from the parameters one after the other. -/
def mesh (kind : String) (dims : List (Key × Value) → List (Except Failure (String × Value))) : Factory :=
  fun params => do
    let entries ← entriesOf params
    createMesh kind entries (← lift ((dims entries).mapM id))

def box : Factory := mesh "box" fun entries =>
  [floatDim entries "width" 1.0, floatDim entries "height" 1.0, floatDim entries "depth" 1.0]

def sphere : Factory := mesh "sphere" fun entries =>
  [floatDim entries "radius" 0.5, countDim entries "widthSegments" 32.0, countDim entries "heightSegments" 16.0]

def cylinder : Factory := fun params => do
  let entries ← entriesOf params
  let radius ← lift (number entries "radius" 0.5)
  let dims := [floatDim entries "radiusTop" radius, floatDim entries "radiusBottom" radius,
    floatDim entries "height" 1.0, countDim entries "radialSegments" 32.0]
  createMesh "cylinder" entries (← lift (dims.mapM id))

def cone : Factory := mesh "cone" fun entries =>
  [floatDim entries "radius" 0.5, floatDim entries "height" 1.0, countDim entries "radialSegments" 32.0]

def plane : Factory := mesh "plane" fun entries =>
  [floatDim entries "width" 1.0, floatDim entries "height" 1.0]

def torus : Factory := mesh "torus" fun entries =>
  [floatDim entries "radius" 1.0, floatDim entries "tube" 0.25, countDim entries "radialSegments" 16.0,
   countDim entries "tubularSegments" 48.0]

/-- The plane outline of a curve-like value. -/
def outline (value : Value) (divisions : Int) : SceneAction (List (List Float)) := do
  let scene ← store
  return (← lift (scene.resolvePoints scene.describe value (.int divisions))).map (·.take 2)

/-- A plane outline, with holes, drawn out to a depth. -/
def extrude : Factory := fun params => do
  let entries ← entriesOf params
  let divisions ← lift (count entries "divisions" 32.0)
  let shape ← outline (param entries "shape" (param entries "points" .null)) divisions
  if shape.length < 3 then
    throw (.rejected "createExtrude needs an outline of at least 3 points")
  let given := param entries "holes" .null
  let holes ← (← lift (if given.truthy then given.items else .ok [])).mapM fun hole => outline hole 32
  let depth ← lift (floatDim entries "depth" 1.0)
  createMesh "extrude" entries
    [("shape", Value.ofRows shape), ("holes", .list (holes.map Value.ofRows)), depth]

def curveOfRows (rows : List (List Float)) (closed : Bool) : Polyline :=
  ⟨rows.map (Vec3.ofList 0.0), closed⟩

/-- A line through points or along a curve. -/
def linePath : Factory := fun params => do
  let entries ← entriesOf params
  let scene ← store
  let points ← lift (scene.resolvePoints scene.describe (param entries "points" .null) (.int 32))
  if points.length < 2 then throw (.rejected "createLinePath needs at least 2 points")
  createNamed entries "line" (.curve (curveOfRows points (param entries "closed" .null).truthy))

/-- A smooth line through points. -/
def splinePath : Factory := fun params => do
  let entries ← entriesOf params
  let given := param entries "points" .null
  let points := if given.truthy then given else .list []
  if (← lift points.items).length < 2 then throw (.rejected "createSplinePath needs at least 2 points")
  let closed := (param entries "closed" .null).truthy
  let segments ← lift (count entries "segments" 16.0)
  let rows ← lift (Spline.through points (.int segments) closed)
  createNamed entries "spline" (.curve (curveOfRows rows closed))

/-- All triples of coordinates, the last one running fastest. -/
def lattice (axis : List Float) : List Vec3 :=
  axis.flatMap fun x => axis.flatMap fun y => axis.map fun z => ⟨x, y, z⟩

/-- A row scaled to a length; a row without a positive length becomes zero. -/
def normalized (strength : Float) (row : List Float) : List Float :=
  let norm := Float.sqrt (row.foldl (fun sum c => sum + c * c) 0.0)
  row.map fun c => (if norm > 0.0 then c / norm else 0.0) * strength

/-- The rows that a constant direction contributes to each sample. -/
def directionRows (direction : Value) : Except Failure (List (List Float)) := do
  let table ← Path2D.Table.ofValue direction
  match table.shape with
  | [] => return [table.data]
  | [_] => return [table.data]
  | [count, width] => return Path2D.rowsOf width count table.data
  | _ => throw .badContent

/-- Vectors on a regular lattice: away from the origin, around the vertical axis, or in one direction. -/
def vectorField : Factory := fun params => do
  let entries ← entriesOf params
  let size ← lift (number entries "size" 2.0)
  let resolution := max 1 (← lift (count entries "resolution" 4.0))
  let strength ← lift (number entries "strength" 1.0)
  let _ ← lift (Path2D.sampleCount (resolution * resolution * resolution))
  let origins := lattice (Path2D.evenly (-size / 2.0) (size / 2.0) resolution.toNat)
  let vectors ← match param entries "mode" .null with
    | .text "radial" => pure (origins.map Vec3.toList)
    | .text "swirl" => pure (origins.map fun p => [-p.z, 0.0, p.x])
    | _ => do
      let given := param entries "direction" .null
      let rows ← lift (directionRows (if given.truthy then given else .list [.int 0, .int 1, .int 0]))
      pure (origins.flatMap fun _ => rows)
  createNamed entries "field"
    (.field (origins.map fun p => p.toList.map .float)
      (vectors.map fun row => (normalized strength row).map .float))

/-- The nodes among some values, with the members of lists in their places. -/
def memberNodes (values : List Value) : List NodeId :=
  values.flatMap fun value =>
    match value with
    | .list members => members.filterMap asNode
    | _ => (asNode value).toList
where
  asNode : Value → Option NodeId
    | .node id => some id
    | _ => none

/-- A container of the nodes in the parameter `children`. -/
def group : Factory := fun params => do
  let entries ← entriesOf params
  let name ← lift (nameOf (← store).describe entries "group")
  let given := param entries "children" .null
  let members ← lift (if given.truthy then given.items else .ok [])
  let id ← createContainer name
  modify (·.onStore fun store => (memberNodes members).foldl (fun store child => store.add id child) store)
  return .node id

/-- The stock factories by name. -/
def stock : List (String × Factory) :=
  [("createBox", box), ("createSphere", sphere), ("createCylinder", cylinder), ("createCone", cone),
   ("createPlane", plane), ("createTorus", torus), ("createExtrude", extrude), ("createLinePath", linePath),
   ("createSplinePath", splinePath), ("createVectorField", vectorField), ("group", group)]

end Factory

end ProceduralScene
