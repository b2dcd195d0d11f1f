import ProceduralScene.Path2D.Table

/-!
Generators of plane paths. Each takes evaluated arguments and gives its points in order.
-/

set_option autoImplicit false

namespace ProceduralScene.Path2D

structure Point where
  x : Float
  y : Float
  deriving Inhabited

abbrev Path := List Point

def Point.toValue (p : Point) : Value := Value.ofFloats [p.x, p.y]

def toValue (path : Path) : Value := .list (path.map Point.toValue)

def pi : Float := 3.141592653589793

/-- The points of a list of rows with two numbers or more. -/
def pointsOf (value : Value) : Except Failure Path := do
  let table ← Table.ofValue value
  match table.shape with
  | [count, width] =>
    if width < 2 then throw (.rejected "expected a list of [x, y] points")
    else return (rowsOf width count table.data).map fun row => ⟨row.getD 0 0.0, row.getD 1 0.0⟩
  | _ => throw (.rejected "expected a list of [x, y] points")

def onCircle (cx cy rx ry angle : Float) : Point :=
  ⟨cx + rx * Float.cos angle, cy + ry * Float.sin angle⟩

/-- Turns points around a center; no turn leaves them as they are. -/
def rotate (cx cy : Float) (rotation : Value) (path : Path) : Except Failure Path := do
  if rotation.isZero then return path
  else
    let angle ← rotation.number
    if angle.isInf then throw .badContent
    let c := Float.cos angle
    let s := Float.sin angle
    return path.map fun p =>
      let dx := p.x - cx
      let dy := p.y - cy
      ⟨cx + dx * c - dy * s, cy + dx * s + dy * c⟩

/-- Repeats the first point at the end. -/
def closePath (path : Path) : Path := path ++ path.take 1

def arc (cx cy r a0 a1 clockwise segments : Value) : Except Failure Path := do
  let segments ← segments.toInt
  let sweep ← if clockwise.truthy then a0.sub a1 else a1.sub a0
  let delta ← (← sweep.div (.int segments)).number
  let start ← a0.number
  let count ← sampleCount (segments + 1)
  let cx ← cx.number
  let cy ← cy.number
  let r ← r.number
  return (ramp count).map fun i =>
    onCircle cx cy r r (if clockwise.truthy then start - i * delta else start + i * delta)

def quadratic (p0 p1 p2 t : Float) : Float :=
  (1 - t) * (1 - t) * p0 + 2 * (1 - t) * t * p1 + t * t * p2

def cubic (p0 p1 p2 p3 t : Float) : Float :=
  Float.pow (1 - t) 3 * p0 + 3 * ((1 - t) * (1 - t)) * t * p1 + 3 * (1 - t) * (t * t) * p2 + Float.pow t 3 * p3

/-- A curve with three or four control points. -/
def bezier (points segments : Value) : Except Failure Path := do
  let control ← pointsOf points
  let ts ← samples 0.0 1.0 ((← segments.toInt) + 1)
  match control with
  | [p0, p1, p2] => return ts.map fun t => ⟨quadratic p0.x p1.x p2.x t, quadratic p0.y p1.y p2.y t⟩
  | [p0, p1, p2, p3] =>
    return ts.map fun t => ⟨cubic p0.x p1.x p2.x p3.x t, cubic p0.y p1.y p2.y p3.y t⟩
  | _ =>
    throw (.rejected ("bezier2d needs 3 or 4 control points, got " ++ toString control.length))

def polygon (cx cy r sides rotation : Value) : Except Failure Path := do
  let sides ← sides.toInt
  let turn ← rotation.number
  let cx ← cx.number
  let cy ← cy.number
  let r ← r.number
  let count ← sampleCount sides
  return (ramp count).map fun i => onCircle cx cy r r (turn + i * 2 * pi / Float.ofInt sides)

def ellipse (cx cy rx ry a0 a1 segments : Value) : Except Failure Path := do
  let count := (← segments.toInt) + 1
  let angles ← samples (← a0.number) (← a1.number) count
  let cx ← cx.number
  let cy ← cy.number
  let rx ← rx.number
  let ry ← ry.number
  return angles.map (onCircle cx cy rx ry)

/-- The weights of the four points around a span, at the parameter `t`. -/
def cardinalWeights (tension t : Float) : Float × Float × Float × Float :=
  let t2 := t * t
  let t3 := t * t * t
  (-tension * t3 + 2 * tension * t2 - tension * t,
   (2 - tension) * t3 + (tension - 3) * t2 + 1,
   (tension - 2) * t3 + (3 - 2 * tension) * t2 + tension * t,
   tension * t3 - tension * t2)

def blend (weights : Float × Float × Float × Float) (a b c d : Float) : Float :=
  weights.1 * a + weights.2.1 * b + weights.2.2.1 * c + weights.2.2.2 * d

/-- The spans of a cardinal spline from the point before them on. -/
def cardinalSpans (tension : Float) (ts : List Float) : Point → Path → Path
  | before, p1 :: p2 :: rest =>
    let after := rest.headD p2
    (ts.map fun t =>
      let w := cardinalWeights tension t
      ⟨blend w before.x p1.x p2.x after.x, blend w before.y p1.y p2.y after.y⟩) ++
      cardinalSpans tension ts p1 (p2 :: rest)
  | _, _ => []

/-- A cardinal spline through the points, its end points doubled. -/
def cardinalSpline (points segments tension : Value) : Except Failure Path := do
  let path ← pointsOf points
  match path with
  | first :: _ :: _ =>
    let ts ← samples 0.0 1.0 ((← segments.toInt) + 1)
    return cardinalSpans (← tension.number) ts first path
  | _ => return path

def distance (dx dy : Float) : Float := (Number.ComplexFloat.mk dx dy).abs

/-- The tip of the triangle over the middle third of a segment. -/
def kochPeak (a b ab bb : Point) : Point :=
  let angle := Float.atan2 (b.y - a.y) (b.x - a.x) - pi / 3
  let length := distance (bb.x - ab.x) (bb.y - ab.y)
  ⟨ab.x + Float.cos angle * length, ab.y + Float.sin angle * length⟩

/-- The Koch curve over one segment: four curves of the level below, joined at their ends. -/
def kochCurve : Nat → Point → Point → Path
  | 0, a, b => [a, b]
  | level + 1, a, b =>
    let ab : Point := ⟨a.x + (b.x - a.x) / 3, a.y + (b.y - a.y) / 3⟩
    let bb : Point := ⟨a.x + (b.x - a.x) * 2 / 3, a.y + (b.y - a.y) * 2 / 3⟩
    let peak := kochPeak a b ab bb
    kochCurve level a ab ++ (kochCurve level ab peak).drop 1 ++ (kochCurve level peak bb).drop 1 ++
      (kochCurve level bb b).drop 1

def endPoint (value : Value) : Except Failure Point := do
  return ⟨← (← value.index (.int 0)).toFloat, ← (← value.index (.int 1)).toFloat⟩

/-- The points of a Koch curve. From a negative level the descent would have no end. -/
def koch (p0 p1 level : Value) : Except Failure Path := do
  let a ← endPoint p0
  let b ← endPoint p1
  let level ← level.toInt
  if level < 0 then throw .tooLarge
  return kochCurve level.toNat a b

def spiral (cx cy r0 turns expansion pointsPerTurn : Value) : Except Failure Path := do
  let steps ← (← turns.mul pointsPerTurn).ceil
  let perTurn ← pointsPerTurn.number
  let r0 ← r0.number
  let growth ← expansion.toFloat
  let cx ← cx.number
  let cy ← cy.number
  let count ← sampleCount (steps + 1)
  return (ramp count).map fun i =>
    let r := r0 * Float.pow growth (i / perTurn)
    onCircle cx cy r r (2 * pi * i / perTurn)

/-- Applies an affine matrix of two or three rows. -/
def transform (points matrix : Value) : Except Failure Path := do
  let table ← Table.ofValue matrix
  if table.data.length != 6 && table.data.length != 9 then
    throw (.rejected "transform2d needs a 3x3 (or 2x3) matrix")
  let m (i : Nat) : Float := table.data.getD i 0.0
  return (← pointsOf points).map fun p =>
    ⟨p.x * m 0 + p.y * m 1 + m 2, p.x * m 3 + p.y * m 4 + m 5⟩

def mirror (points axis value : Value) : Except Failure Path := do
  let path ← pointsOf points
  let twice := (← value.number) * 2
  if axis.same (.text "x") then return path.map fun p => ⟨twice - p.x, p.y⟩
  else return path.map fun p => ⟨p.x, twice - p.y⟩

def unitNormal (x y : Float) : Point :=
  let length := Float.sqrt (x * x + y * y)
  ⟨x / length, y / length⟩

/-- The point moved along the mean of the normals of its two edges. -/
def offsetPoint (distance : Float) (before p after : Point) : Point :=
  let n0 := unitNormal (p.y - before.y) (-(p.x - before.x))
  let n1 := unitNormal (after.y - p.y) (-(after.x - p.x))
  let n := unitNormal ((n0.x + n1.x) * 0.5) ((n0.y + n1.y) * 0.5)
  ⟨p.x + n.x * distance, p.y + n.y * distance⟩

/-- Offsets a closed polygon. -/
def offset (points distance : Value) : Except Failure Path := do
  let path ← pointsOf points
  let distance ← distance.number
  let before := path.drop (path.length - 1) ++ path.dropLast
  let after := path.drop 1 ++ path.take 1
  return (before.zip (path.zip after)).map fun (b, p, a) => offsetPoint distance b p a

def roundedRect (cx cy width height r segments rotation : Value) : Except Failure Path := do
  let segments ← segments.toInt
  let halfWidth ← width.div (.int 2)
  let halfHeight ← height.div (.int 2)
  let radius ← Value.leastFrom r [halfWidth, halfHeight]
  let hw ← (← halfWidth.sub radius).number
  let hh ← (← halfHeight.sub radius).number
  let radius ← radius.number
  let cx ← cx.number
  let cy ← cy.number
  let count ← sampleCount segments
  let corner (i : Float) (x y : Float) : Path :=
    (ramp count).map fun k => onCircle x y radius radius (i * pi / 2 + k / natFloat count * (pi / 2))
  let path := corner 0 (cx + hw) (cy + hh) ++ corner 1 (cx - hw) (cy + hh) ++
    corner 2 (cx - hw) (cy - hh) ++ corner 3 (cx + hw) (cy - hh)
  return closePath (← rotate cx cy rotation path)

def rect (cx cy width height rotation : Value) : Except Failure Path := do
  let hw ← (← width.div (.int 2)).number
  let hh ← (← height.div (.int 2)).number
  let cx ← cx.number
  let cy ← cy.number
  rotate cx cy rotation [⟨-hw + cx, -hh + cy⟩, ⟨hw + cx, -hh + cy⟩, ⟨hw + cx, hh + cy⟩, ⟨-hw + cx, hh + cy⟩]

/-- A star whose corners alternate between two radii. -/
def star (cx cy outer inner points rotation : Value) : Except Failure Path := do
  let points ← points.toInt
  let outer ← outer.number
  let inner ← inner.number
  let turn ← rotation.number
  let cx ← cx.number
  let cy ← cy.number
  let count ← sampleCount (points * 2)
  return closePath ((List.range count).map fun i =>
    let r := if i % 2 == 0 then outer else inner
    onCircle cx cy r r (natFloat i * pi / Float.ofInt points + turn))

def polyline (points : Value) : Except Failure Path := pointsOf points

/-- The first two numbers of an end point; a single one counts for both coordinates. -/
def lineEnd (value : Value) : Except Failure (List Float) :=
  match value with
  | .list items => do
    let table ← Table.ofValue (.list (items.take 2))
    match table.shape with
    | [_] => return table.data
    | _ => throw .badContent
  | _ => throw .wrongKind

def line (p0 p1 segments : Value) : Except Failure Path := do
  let ts ← samples 0.0 1.0 ((← segments.toInt) + 1)
  let mix (a b t : Float) : Float := a * (1 - t) + b * t
  match ← lineEnd p0, ← lineEnd p1 with
  | [ax, ay], [bx, by'] => return ts.map fun t => ⟨mix ax bx t, mix ay by' t⟩
  | [a], [bx, by'] => return ts.map fun t => ⟨mix a bx t, mix a by' t⟩
  | [ax, ay], [b] => return ts.map fun t => ⟨mix ax b t, mix ay b t⟩
  | _, _ => throw .badContent

end ProceduralScene.Path2D
