import ProceduralScene.Path2D.Generator

/-!
Path descriptors: maps whose `kind` names a generator and whose other entries are its arguments. A descriptor in a
list of points stands for all points of its path, in order.
-/

set_option autoImplicit false

namespace ProceduralScene.Path2D

/-- A generator with the names of its parameters; a parameter with a default may be left out. -/
structure Generator where
  parameters : List (String × Option Value)
  run : List Value → Except Failure Path

namespace Generator

def require (name : String) : String × Option Value := (name, none)

def optional (name : String) (value : Value) : String × Option Value := (name, some value)

/-- Arguments in the order of the parameters, the missing ones by their defaults. -/
def bindPositional : List (String × Option Value) → List Value → Except Failure (List Value)
  | [], [] => .ok []
  | [], _ :: _ => .error .wrongKind
  | _ :: parameters, arg :: args => return arg :: (← bindPositional parameters args)
  | (_, some value) :: parameters, [] => return value :: (← bindPositional parameters [])
  | (_, none) :: _, [] => .error .wrongKind

/-- Arguments by name; an unknown name is refused. -/
def bindNamed (parameters : List (String × Option Value)) (args : Bindings) : Except Failure (List Value) :=
  if args.all fun arg => parameters.any (·.1 == arg.1) then
    parameters.mapM fun (name, preset) =>
      match args.get? name, preset with
      | some value, _ => .ok value
      | none, some value => .ok value
      | none, none => .error .wrongKind
  else .error .wrongKind

def callPositional (generator : Generator) (args : List Value) : Except Failure Path := do
  generator.run (← bindPositional generator.parameters args)

def callNamed (generator : Generator) (args : Bindings) : Except Failure Path := do
  generator.run (← bindNamed generator.parameters args)

def arc : Generator where
  parameters := [require "cx", require "cy", require "r", require "a0", require "a1",
    optional "clockwise" (.bool false), optional "segments" (.int 12)]
  run
    | [cx, cy, r, a0, a1, clockwise, segments] => Path2D.arc cx cy r a0 a1 clockwise segments
    | _ => .error .wrongKind

def bezier : Generator where
  parameters := [require "points", optional "segments" (.int 24)]
  run
    | [points, segments] => Path2D.bezier points segments
    | _ => .error .wrongKind

def polygon : Generator where
  parameters := [require "cx", require "cy", require "r", optional "sides" (.int 3),
    optional "rotation" (.int 0)]
  run
    | [cx, cy, r, sides, rotation] => Path2D.polygon cx cy r sides rotation
    | _ => .error .wrongKind

def ellipse : Generator where
  parameters := [require "cx", require "cy", require "rx", require "ry", optional "a0" (.int 0),
    optional "a1" (.float (2 * pi)), optional "segments" (.int 24)]
  run
    | [cx, cy, rx, ry, a0, a1, segments] => Path2D.ellipse cx cy rx ry a0 a1 segments
    | _ => .error .wrongKind

def cardinalSpline : Generator where
  parameters := [require "points", optional "segments" (.int 32), optional "tension" (.float 0.5)]
  run
    | [points, segments, tension] => Path2D.cardinalSpline points segments tension
    | _ => .error .wrongKind

def koch : Generator where
  parameters := [require "p0", require "p1", optional "level" (.int 3)]
  run
    | [p0, p1, level] => Path2D.koch p0 p1 level
    | _ => .error .wrongKind

def spiral : Generator where
  parameters := [require "cx", require "cy", require "r0", require "turns", optional "expansion" (.int 1),
    optional "points_per_turn" (.int 24)]
  run
    | [cx, cy, r0, turns, expansion, perTurn] => Path2D.spiral cx cy r0 turns expansion perTurn
    | _ => .error .wrongKind

def transform : Generator where
  parameters := [require "points", require "matrix"]
  run
    | [points, matrix] => Path2D.transform points matrix
    | _ => .error .wrongKind

def mirror : Generator where
  parameters := [require "points", optional "axis" (.text "x"), optional "value" (.int 0)]
  run
    | [points, axis, value] => Path2D.mirror points axis value
    | _ => .error .wrongKind

def offset : Generator where
  parameters := [require "points", require "distance"]
  run
    | [points, distance] => Path2D.offset points distance
    | _ => .error .wrongKind

def roundedRect : Generator where
  parameters := [require "cx", require "cy", require "width", require "height", require "r",
    optional "segments" (.int 8), optional "rotation" (.int 0)]
  run
    | [cx, cy, width, height, r, segments, rotation] =>
      Path2D.roundedRect cx cy width height r segments rotation
    | _ => .error .wrongKind

def rect : Generator where
  parameters := [require "cx", require "cy", require "width", require "height", optional "rotation" (.int 0)]
  run
    | [cx, cy, width, height, rotation] => Path2D.rect cx cy width height rotation
    | _ => .error .wrongKind

def star : Generator where
  parameters := [require "cx", require "cy", require "r_outer", require "r_inner", require "points",
    optional "rotation" (.int 0)]
  run
    | [cx, cy, outer, inner, points, rotation] => Path2D.star cx cy outer inner points rotation
    | _ => .error .wrongKind

def polyline : Generator where
  parameters := [require "points"]
  run
    | [points] => Path2D.polyline points
    | _ => .error .wrongKind

def line : Generator where
  parameters := [require "p0", require "p1", optional "segments" (.int 1)]
  run
    | [p0, p1, segments] => Path2D.line p0 p1 segments
    | _ => .error .wrongKind

/-- The generator that a descriptor kind names. -/
def ofKind? (kind : String) : Option Generator :=
  match kind with
  | "arc" => some arc
  | "bezier" => some bezier
  | "ellipse" => some ellipse
  | "polygon" => some polygon
  | "spline" => some cardinalSpline
  | "line" => some line
  | "polyline" => some polyline
  | "star" => some star
  | "rect" => some rect
  | "roundedrect" => some roundedRect
  | "offset" => some offset
  | "mirror" => some mirror
  | "transform" => some transform
  | "spiral" => some spiral
  | "kochsnowflake" => some koch
  | _ => none

/-- The names under which expressions call the generators, in order. -/
def expressionNames : List (String × Generator) :=
  [("arc2d", arc), ("bezier2d", bezier), ("ellipse2d", ellipse), ("polygon2d", polygon),
   ("catmullRom2d", cardinalSpline), ("spline2d", cardinalSpline), ("line2d", line), ("polyline2d", polyline),
   ("regularStar2d", star), ("rect2d", rect), ("roundedRect2d", roundedRect), ("offset2d", offset),
   ("mirror2d", mirror), ("transform2d", transform), ("spiral2d", spiral), ("kochSnowflake2d", koch)]

end Generator

/-- The parameter that a descriptor key names. -/
def parameterName (key : String) : String :=
  if key == "rOuter" then "r_outer"
  else if key == "rInner" then "r_inner"
  else if key == "pointsPerTurn" then "points_per_turn"
  else key

/-- The generator that the kind of a map names. A kind that cannot be a key is a failure. -/
def kindGenerator (kind : Value) : Except Failure (Option Generator) :=
  match kind with
  | .text name => .ok (Generator.ofKind? name)
  | .list _ | .map _ => .error .wrongKind
  | _ => .ok none

/-- Whether a value is a map whose kind names a generator. -/
def isDescriptor (value : Value) : Except Failure Bool :=
  match value with
  | .map entries => do
    return (← kindGenerator ((Value.entry? "kind" entries).getD .null)).isSome
  | _ => .ok false

/-- The arguments of a descriptor by parameter name. -/
def descriptorArgs : List (Key × Value) → Bindings → Except Failure Bindings
  | [], args => .ok args
  | (.text "kind", _) :: rest, args => descriptorArgs rest args
  | (.text key, value) :: rest, args => descriptorArgs rest (args.put (parameterName key) value)
  | _ :: _, _ => .error .wrongKind

/-- The points of the path that a descriptor describes. -/
def expandDescriptor (descriptor : Value) : Except Failure Path := do
  match descriptor with
  | .map entries =>
    match Value.entry? "kind" entries with
    | none => throw .absent
    | some kind =>
      match ← kindGenerator kind with
      | none => throw .absent
      | some generator => generator.callNamed (← descriptorArgs entries [])
  | _ => throw .wrongKind

/-- Puts the points of each descriptor in its place and keeps every other item. -/
def expandItems : List Value → Except Failure (List Value)
  | [] => .ok []
  | item :: rest => do
    let found ← if ← isDescriptor item then (expandDescriptor item).map (·.map Point.toValue) else pure [item]
    return found ++ (← expandItems rest)

end ProceduralScene.Path2D
