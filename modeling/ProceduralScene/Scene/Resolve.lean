import ProceduralScene.Scene.Basic
import ProceduralScene.Path2D.Descriptor
import ProceduralScene.Value.Display

/-!
Curves, point lists and fields from the values that stand for them: a node, a list of points, or a list in which
path descriptors stand for their points.
-/

set_option autoImplicit false

namespace ProceduralScene

namespace Spline

/-- One span of a uniform spline through `b` and `c`, between the neighbours `a` and `d`. -/
def blend (a b c d t : Float) : Float :=
  let t2 := t * t
  let t3 := t2 * t
  0.5 * (2 * b + (-a + c) * t + (2 * a - 5 * b + 4 * c - d) * t2 + (-a + 3 * b - 3 * c + d) * t3)

def blendRows (a b c d : List Float) (t : Float) : List Float :=
  ((a.zip b).zip (c.zip d)).map fun entry => blend entry.1.1 entry.1.2 entry.2.1 entry.2.2 t

/-- The samples of the spans of an open line, from the point before them on. -/
def openSpans (ts : List Float) : List Float → List (List Float) → List (List Float)
  | before, b :: c :: rest =>
    ts.map (blendRows before b c (rest.headD c)) ++ openSpans ts b (c :: rest)
  | _, _ => []

/-- The samples of as many spans as there are points, each point followed by the next ones in a ring. -/
def ringSpans (ts : List Float) : Nat → List (List Float) → List (List Float)
  | 0, _ => []
  | count + 1, before :: b :: rest =>
    let ring := b :: rest ++ [before]
    ts.map (blendRows before b (ring.getD 1 []) (ring.getD 2 (ring.getD 0 []))) ++ ringSpans ts count ring
  | _, _ => []

/-- The parameters of the samples of one span. -/
def parameters (segments : Nat) : List Float :=
  let step := 1.0 / Float.ofNat segments
  (Path2D.ramp segments).map (· * step)

/-- A point with missing coordinates filled in by zeros, up to three. -/
def padPoint (value : Value) : Except Failure Value := do
  let items ← value.items
  return .list (items ++ List.replicate (3 - items.length) (.float 0.0))

/-- A smooth line through points of space, with `segments` samples a span. -/
def through (points : Value) (segments : Value) (closed : Bool) : Except Failure (List (List Float)) := do
  let table ← Path2D.Table.ofValue (.list (← (← points.items).mapM padPoint))
  match table.shape with
  | [0] => return []
  | [count, width] =>
    let rows := Path2D.rowsOf width count table.data
    if count < 2 then return rows
    let n ← segments.toInt
    if n < 0 then throw .badContent
    let ts := parameters (← Path2D.sampleCount n)
    if closed then
      return ringSpans ts count (rows.drop (count - 1) ++ rows.take (count - 1)) ++ rows.take 1
    else return openSpans ts (rows.headD []) rows ++ rows.drop (count - 1)
  | _ => throw .badContent

end Spline

namespace Polyline

/-- A smooth line through a list of points. -/
def smooth (points : List Value) : Except Failure Polyline := do
  let rows ← Spline.through (.list points) (.int 16) false
  ofValues (rows.map Value.ofFloats) false

end Polyline

namespace SceneAction

def createCurve (name : String) (line : Polyline) : SceneAction NodeId :=
  create (Node.ofPayload name (.curve line))

/-- The curve that a value stands for; a list of two points or more becomes a smooth curve. -/
def resolveCurve (value : Value) : SceneAction Value := do
  match (← store).findCurve value with
  | some id => return .node id
  | none =>
    match value with
    | .list points =>
      if points.length < 2 then return .null
      else return .node (← createCurve "" (← lift (Polyline.smooth points)))
    | _ => return .null

/-- The field that a value stands for. -/
def resolveField (value : Value) : SceneAction Value := do
  match (← store).findField value with
  | some id => return .node id
  | none => return .null

end SceneAction

namespace Store

/-- A descriptor that was left in a list of points, by its kind. -/
def leftDescriptor (nodeText : NodeText) (items : List Value) : Except Failure Unit :=
  match items.find? Value.isMap with
  | none => .ok ()
  | some found => do
    throw (.refused ("unknown path descriptor kind " ++ (← (found.fieldOrNull "kind").display nodeText)))

/-- A row of numbers with missing coordinates filled in by zeros, up to three. -/
def pointRow (value : Value) : Except Failure (List Float) := do
  let row ← (← value.items).mapM Value.toFloat
  return row ++ List.replicate (3 - row.length) 0.0

/-- The points of a line at `divisions` equal steps, or its own points when there are no steps. A count of steps has
to be an integer. -/
def pointsOfLine (line : Polyline) (divisions : Value) : Except Failure (List Vec3) := do
  match ← divisions.scalar with
  | .int n => if n ≤ 0 then return line.points else return line.sample (← Path2D.sampleCount n)
  | .float x => if x ≤ 0.0 then return line.points else throw .wrongKind
  | .complex _ _ => throw .wrongKind

/-- The points of a value: a curve gives the points of its line; a list gives its points, with each descriptor replaced
by its own. -/
def resolvePoints (store : Store) (nodeText : NodeText) (value : Value) (divisions : Value) :
    Except Failure (List (List Float)) := do
  if value.isNull then return []
  match store.findPolyline value with
  | some line => return (← pointsOfLine line divisions).map Vec3.toList
  | none =>
    match value with
    | .list items =>
      let points ← Path2D.expandItems items
      leftDescriptor nodeText points
      points.mapM pointRow
    | _ => throw (.refused ("cannot resolve points from " ++ value.kindName store.titleOf))

end Store

end ProceduralScene
