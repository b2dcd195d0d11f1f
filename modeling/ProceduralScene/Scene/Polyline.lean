import ProceduralScene.Scene.Node

/-!
Measures of curves and vector fields: length, points by arc length, and the range of magnitudes.
-/

set_option autoImplicit false

namespace ProceduralScene

namespace Polyline

/-- A point of the plane or of space from a list-like value; a missing coordinate is zero. -/
def pointOf (value : Value) : Except Failure Vec3 :=
  Vec3.ofItems 0.0 value

def ofValues (points : List Value) (closed : Bool) : Except Failure Polyline := do
  return ⟨← points.mapM pointOf, closed⟩

/-- The points in the order in which the line visits them. -/
def vertices (line : Polyline) : List Vec3 :=
  if line.closed && line.points.length > 1 then line.points ++ line.points.take 1 else line.points

/-- The lengths of the segments between consecutive vertices. -/
def segmentLengths : List Vec3 → List Float
  | a :: b :: rest => (b.sub a).norm :: segmentLengths (b :: rest)
  | _ => []

def length (line : Polyline) : Float :=
  (segmentLengths line.vertices).foldl (· + ·) 0.0

/-- The arc length at each vertex, from `start` on. -/
def arcLengths (start : Float) : List Float → List Float
  | [] => [start]
  | size :: rest => start :: arcLengths (start + size) rest

/-- The value moved into the unit interval. -/
def clampUnit (t : Float) : Float :=
  let above := if t < 0.0 then 0.0 else t
  if 1.0 < above then 1.0 else above

/-- Order of arc lengths; one that is no number comes after all numbers. -/
def before (a b : Float) : Bool :=
  a < b || (b.isNaN && !a.isNaN)

/-- The point at a fraction of the length; fractions outside the unit interval mean the ends. -/
def pointAt (line : Polyline) (t : Float) : Vec3 :=
  match line.vertices with
  | [] => Vec3.zero
  | [point] => point
  | vertices =>
    let sizes := segmentLengths vertices
    let arcs := arcLengths 0.0 sizes
    let target := clampUnit t * arcs.getLastD 0.0
    let passed := arcs.countP fun arc => !before target arc
    let i := min (passed - 1) (sizes.length - 1)
    let start := vertices.getD i Vec3.zero
    let size := sizes.getD i 0.0
    let part := if size == 0.0 then 0.0 else (target - arcs.getD i 0.0) / size
    start.add (((vertices.getD (i + 1) Vec3.zero).sub start).scale part)

/-- Points at equal steps of the fraction of the length, both ends included. -/
def sample (line : Polyline) (divisions : Nat) : List Vec3 :=
  (List.range (divisions + 1)).map fun i => line.pointAt (Float.ofNat i / Float.ofNat divisions)

end Polyline

/-- The Euclidean length of a vector. -/
def magnitude (vector : List Value) : Except Failure Float := do
  let total ← vector.foldlM (fun sum c => do sum.add (← c.mul c)) (Value.int 0)
  let size ← total.number
  if size < 0.0 then throw .badContent else return Float.sqrt size

def leastFloat (best : Float) (xs : List Float) : Float :=
  xs.foldl (fun best x => if x < best then x else best) best

def greatestFloat (best : Float) (xs : List Float) : Float :=
  xs.foldl (fun best x => if best < x then x else best) best

/-- The least and the greatest magnitude of some vectors; zeros when there is none. -/
def magnitudeRange (vectors : List (List Value)) : Except Failure (Float × Float) := do
  match ← vectors.mapM magnitude with
  | [] => return (0.0, 0.0)
  | first :: rest => return (leastFloat first rest, greatestFloat first rest)

end ProceduralScene
