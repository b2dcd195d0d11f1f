import ProceduralScene.Expression.Evaluator
import ProceduralScene.Number.RandomStream
import ProceduralScene.Scene.Describe
import ProceduralScene.Scene.Polyline

/-!
Where the instances of a repetition stand. A placement maps a count to one offset for each instance; its options
are evaluated in the context of the repetition, so that spacings and radii may be expressions.
-/

set_option autoImplicit false

namespace ProceduralScene

namespace Evaluation

def lift {α : Type} (result : Except Failure α) : Evaluation α :=
  match result with
  | .ok value => pure value
  | .error failure => throw failure

end Evaluation

namespace Placement

open Number Evaluation

/-- What a placement is computed from. -/
structure Request where
  store : Store
  options : Bindings
  count : Nat
  ctx : Context

namespace Request

def evaluate (request : Request) (expression : Value) : Evaluation Value :=
  Evaluator.evaluate request.store.describe expression request.ctx none

def given (request : Request) (name : String) : Value :=
  (request.options.get? name).getD .null

/-- The value of the first of some options that is given. -/
def option (request : Request) (names : List String) (missing : Value) : Evaluation Value :=
  match names.find? fun name => !(request.given name).isNull with
  | some name => request.evaluate (request.given name)
  | none => pure missing

def number (request : Request) (names : List String) (missing : Value) : Evaluation Float := do
  lift (← request.option names missing).toFloat

/-- The number of each instance. -/
def indices (request : Request) : List Float :=
  (List.range request.count).map Float.ofNat

/-- The instances spread evenly over the unit interval, both ends included. -/
def fractions (request : Request) : List Float :=
  if request.count ≤ 1 then List.replicate request.count 0.0
  else request.indices.map (· / Float.ofNat (request.count - 1))

end Request

/-- An axis that a value names. A value that cannot be a key is refused. -/
def axisOf (value : Value) : Except Failure (Float → Vec3) :=
  match value with
  | .text "y" => .ok fun x => ⟨0.0, x, 0.0⟩
  | .text "z" => .ok fun x => ⟨0.0, 0.0, x⟩
  | .list _ | .map _ => .error .wrongKind
  | _ => .ok fun x => ⟨x, 0.0, 0.0⟩

/-- A row along an axis, centered unless the option says otherwise. -/
def linear (request : Request) : Evaluation (List Vec3) := do
  let spacing ← request.number ["spacing"] (.int 1)
  let along ← lift (axisOf ((request.options.get? "axis").getD (.text "x")))
  let centered := match request.options.get? "centered" with
    | some (.bool false) => false
    | _ => true
  let start := if centered then -spacing * (Float.ofInt ((request.count : Int) - 1)) / 2.0 else 0.0
  return request.indices.map fun i => along (start + i * spacing)

/-- The least number whose square is not below `n`. -/
def ceilSqrt (n : Nat) : Nat :=
  match decode (Float.sqrt (Float.ofNat n)) with
  | .finite d => d.ceil.toNat
  | _ => 0

/-- Rows of a plane grid, in as many columns as rows unless the option says otherwise. -/
def grid (request : Request) : Evaluation (List Vec3) := do
  let spacingX ← request.number ["spacingX", "spacing"] (.int 1)
  let spacingZ ← request.number ["spacingZ", "spacing"] (.int 1)
  let chosen ← request.option ["columns"] .null
  let columns : Int ← if chosen.truthy then lift chosen.toInt else pure (max 1 (ceilSqrt request.count))
  if columns.natAbs ≥ twoTo 63 then throw .tooLarge
  return (List.range request.count).map fun i =>
    let index := Int.ofNat i
    let column := if columns == 0 then 0 else index.fmod columns
    let row := if columns == 0 then 0 else index.fdiv columns
    ⟨Float.ofInt column * spacingX, 0.0, Float.ofInt row * spacingZ⟩

/-- Points of a circle around an axis, from the start angle to the end angle. -/
def radial (request : Request) : Evaluation (List Vec3) := do
  let radius ← request.number ["radius"] (.int 1)
  let start ← request.number ["startAngle"] (.int 0)
  let stop ← request.number ["endAngle"] (.float 6.283185307179586)
  let place : Float → Float → Vec3 := match request.options.get? "axis" with
    | some (.text "x") => fun a b => ⟨0.0, a, b⟩
    | some (.text "z") => fun a b => ⟨a, b, 0.0⟩
    | _ => fun a b => ⟨a, 0.0, b⟩
  return request.fractions.map fun t =>
    let angle := start + (stop - start) * t
    place (radius * Float.cos angle) (radius * Float.sin angle)

/-- The line that a value stands for: a curve, or a list of points. -/
def lineOf (request : Request) (source : Value) : Evaluation (Option Polyline) :=
  match request.store.findPolyline source with
  | some line => pure (some line)
  | none =>
    match source with
    | .list (first :: rest) => return some (← lift (Polyline.ofValues (first :: rest) false))
    | _ => pure none

/-- Points of a line at equal steps of its length; the origin without a line. -/
def pointsAlong (request : Request) : Option Polyline → List Vec3
  | some line => request.fractions.map line.pointAt
  | none => List.replicate request.count Vec3.zero

def alongCurve (request : Request) : Evaluation (List Vec3) := do
  let source ← match request.given "curve" with
    | .text s => request.evaluate (.text s)
    | value => pure value
  return pointsAlong request (← lineOf request source)

/-- The extents of a box: one for each axis, or one for all. -/
def extents (request : Request) : Evaluation (List Float) := do
  let sizes := match (request.options.get? "size").getD (.int 1) with
    | .list sizes => sizes
    | size => [size]
  sizes.mapM fun size => do lift (← request.evaluate size).toFloat

def triples : Nat → List Float → List Vec3
  | count + 1, x :: y :: z :: rest => ⟨x, y, z⟩ :: triples count rest
  | _, _ => []

/-- Points scattered in a box around the origin, the same ones for the same seed. -/
def random (request : Request) : Evaluation (List Vec3) := do
  let seed ← request.option ["seed"] (.int 0)
  let sizes ← extents request
  let seed ← lift seed.toInt
  if seed < 0 then throw .badContent
  let box : Vec3 ← match sizes with
    | [x] => pure (Vec3.uniform x)
    | [x, y, z] => pure ⟨x, y, z⟩
    | _ => throw .badContent
  let stream := RandomStream.ofSeed seed.toNat
  return (triples request.count (stream.take (3 * request.count))).map fun p =>
    ⟨(p.x - 0.5) * box.x, (p.y - 0.5) * box.y, (p.z - 0.5) * box.z⟩

/-- The offsets of the instances; the origin when no placement is named. -/
def positions (request : Request) : Evaluation (List Vec3) :=
  match (request.options.get? "type").getD (.text "") with
  | .text "linear" => linear request
  | .text "grid" => grid request
  | .text "radial" => radial request
  | .text "along_curve" => alongCurve request
  | .text "random" => random request
  | .list _ | .map _ => throw .wrongKind
  | _ => pure (List.replicate request.count Vec3.zero)

end Placement

end ProceduralScene
