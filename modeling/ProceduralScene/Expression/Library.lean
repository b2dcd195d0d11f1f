import ProceduralScene.Expression.Evaluator
import ProceduralScene.Path2D.Descriptor

/-!
The functions and constants that every expression can use.
-/

set_option autoImplicit false

namespace ProceduralScene.Expression

open Number

def constants : Bindings :=
  [("pi", .float 3.141592653589793), ("tau", .float 6.283185307179586), ("e", .float 2.718281828459045)]

/-- A function of one number that is defined on finite numbers only where `domain` holds. A result that is
infinite for a finite argument is too large. -/
def oneNumber (domain : Float → Bool) (f : Float → Float) : Function :=
  .pure fun args =>
    match args with
    | [a] => do
      let x ← a.number
      let result := f x
      if x.isNaN then return .float x
      else if !domain x || result.isNaN then throw .badContent
      else if result.isInf && isFinite x then throw .tooLarge
      else return .float result
    | _ => .error .wrongKind

def anywhere (_ : Float) : Bool := true

def atan2 : Function := .pure fun
  | [a, b] => return .float (Float.atan2 (← a.number) (← b.number))
  | _ => .error .wrongKind

def absolute : Function := .pure fun
  | [a] => do
    match ← a.scalar with
    | .int n => return .int n.natAbs
    | .float x => return .float x.abs
    | .complex re im => return .float (Number.ComplexFloat.mk re im).abs
  | _ => .error .wrongKind

/-- The square root; a negative argument is turned down with a reason. -/
def squareRoot : Function := .pure fun
  | [a] => do
    if ← a.less (.int 0) then
      let shown ← a.plainText fun _ => .error .wrongKind
      throw (.rejected ("sqrt(" ++ shown ++ "): domain error (negative argument)"))
    else return .float (Float.sqrt (← a.number))
  | _ => .error .wrongKind

/-- The power in floating numbers. -/
def floatPow : Function := .pure fun
  | [a, b] => do
    let x ← a.number
    let y ← b.number
    let result := Float.pow x y
    if isFinite x && isFinite y then
      if result.isNaN || (x == 0.0 && y < 0.0) then throw .badContent
      else if result.isInf then throw .tooLarge
    return .float result
  | _ => .error .wrongKind

/-- The natural logarithm of an integer of any size, by its leading bits. -/
def logOfNat (n : Nat) : Float :=
  match Number.ofInt n with
  | some x => Float.log x
  | none =>
    let shift := Nat.log2 n - 60
    Float.log (Float.ofNat (n / twoTo shift)) + Float.ofNat shift * Float.log 2.0

def naturalLog (value : Value) : Except Failure Float := do
  match ← value.scalar with
  | .int n => if n ≤ 0 then throw .badContent else return logOfNat n.natAbs
  | other =>
    let x ← other.toFloat
    if x.isNaN then return x
    else if x ≤ 0.0 then throw .badContent
    else return Float.log x

def logarithm : Function := .pure fun
  | [a] => return .float (← naturalLog a)
  | [a, base] => do
    let above ← naturalLog a
    let below ← naturalLog base
    if below == 0.0 then throw .absent else return .float (above / below)
  | _ => .error .wrongKind

/-- The items of a single list, or else the arguments themselves. -/
def spread (args : List Value) : List Value :=
  match args with
  | [.list items] => items
  | _ => args

/-- The extremum of the items; a single list is spread first. -/
def extremumOf (pick : Value → List Value → Except Failure Value) : Function :=
  .pure fun args =>
    match spread args with
    | first :: rest => pick first rest
    | [] => .error .badContent

/-- The nearest integer; a half goes up. -/
def roundHalfUp : Function := .pure fun
  | [a] => return .int (← (← a.add (.float 0.5)).floor)
  | _ => .error .wrongKind

def sign : Function := .pure fun
  | [a] => do
    let above ← (Value.int 0).less a
    let below ← a.less (.int 0)
    return .int ((if above then 1 else 0) - (if below then 1 else 0))
  | _ => .error .wrongKind

/-- The value kept between two bounds; the lower bound wins when they cross. -/
def clamp : Function := .pure fun
  | [x, low, high] => do
    Value.greatestFrom low [← Value.leastFrom high [x]]
  | _ => .error .wrongKind

def lerp : Function := .pure fun
  | [a, b, t] => do a.add (← (← b.sub a).mul t)
  | _ => .error .wrongKind

/-- The remainder that has the sign of the divisor. -/
def floorMod : Function := .pure fun
  | [a, b] => do
    let divisor ← b.scalar
    let once ← Scalar.flooredRemainder (← a.scalar) divisor
    Scalar.flooredRemainder (← (← once.add b).scalar) divisor
  | _ => .error .wrongKind

def toRadians (x : Float) : Float := x * (3.141592653589793 / 180.0)

def toDegrees (x : Float) : Float := x * (180.0 / 3.141592653589793)

/-- Red, green and blue of a hue in turns, a saturation and a value. -/
def hsvToRgb (h s v : Value) : Except Failure (Value × Value × Value) := do
  if s.same (.float 0.0) then return (v, v, v)
  let six ← h.mul (.float 6.0)
  let sector ← six.toInt
  let f ← six.sub (.int sector)
  let one := Value.float 1.0
  let p ← v.mul (← one.sub s)
  let q ← v.mul (← one.sub (← s.mul f))
  let t ← v.mul (← one.sub (← s.mul (← one.sub f)))
  match (sector.emod 6).toNat with
  | 0 => return (v, t, p)
  | 1 => return (q, v, p)
  | 2 => return (p, v, t)
  | 3 => return (p, q, v)
  | 4 => return (t, p, v)
  | _ => return (v, p, q)

/-- A color component as at least two small hexadecimal digits. -/
def componentHex (c : Value) : Except Failure String := do
  let scaled ← c.mul (.int 255)
  let n ← match ← scaled.scalar with
    | .int n => pure n
    | .float x =>
      match decode x with
      | .finite d => pure d.roundEven
      | .infinite _ => throw .tooLarge
      | .notANumber => throw .badContent
    | .complex _ _ => throw .wrongKind
  let digits := Nat.toDigits 16 n.natAbs
  let text := if n < 0 then '-' :: digits else digits
  return String.ofList (List.replicate (2 - text.length) '0' ++ text)

def hexOfDegrees (degrees s v : Value) : Except Failure Value := do
  let full := Value.int 360
  let fullTurn := Scalar.int 360
  let once ← Scalar.flooredRemainder (← degrees.scalar) fullTurn
  let turned ← Scalar.flooredRemainder (← (← once.add full).scalar) fullTurn
  let (r, g, b) ← hsvToRgb (← turned.div full) s v
  return .text ("#" ++ (← componentHex r) ++ (← componentHex g) ++ (← componentHex b))

/-- A hue up to one is a fraction of a turn, a larger one counts degrees. -/
def hsvToHex : Function := .pure fun
  | [h, s, v] => do hexOfDegrees (← if ← h.lessOrSame (.int 1) then h.mul (.int 360) else pure h) s v
  | _ => .error .wrongKind

def cyclicItem (items : List Value) (index : Value) : Except Failure Value := do
  let n ← index.toInt
  if items.isEmpty then throw .absent
  else Value.itemAt items (n.emod items.length)

def alternating : Function := .pure fun
  | index :: values => cyclicItem values index
  | [] => .error .wrongKind

/-- The item of a list at an index that wraps around; any other value stands for itself. -/
def nth : Function := .pure fun
  | [.list items, index] => cyclicItem items index
  | [value, _] => .ok value
  | _ => .error .wrongKind

def length : Function := .pure fun
  | [.text s] => .ok (.int s.length)
  | [.list items] => .ok (.int items.length)
  | [.map entries] => .ok (.int entries.length)
  | _ => .error .wrongKind

def floorOf : Function := .pure fun
  | [a] => return .int (← a.floor)
  | _ => .error .wrongKind

def ceilOf : Function := .pure fun
  | [a] => return .int (← a.ceil)
  | _ => .error .wrongKind

/-- The functions by name, in the order in which their calls are inlined. -/
def functions : List (String × Function) :=
  [("sin", oneNumber isFinite Float.sin),
   ("cos", oneNumber isFinite Float.cos),
   ("tan", oneNumber isFinite Float.tan),
   ("asin", oneNumber anywhere Float.asin),
   ("acos", oneNumber anywhere Float.acos),
   ("atan", oneNumber anywhere Float.atan),
   ("atan2", atan2),
   ("abs", absolute),
   ("sqrt", squareRoot),
   ("pow", floatPow),
   ("exp", oneNumber anywhere Float.exp),
   ("log", logarithm),
   ("min", extremumOf Value.leastFrom),
   ("max", extremumOf Value.greatestFrom),
   ("floor", floorOf),
   ("ceil", ceilOf),
   ("round", roundHalfUp),
   ("sign", sign),
   ("clamp", clamp),
   ("lerp", lerp),
   ("mod", floorMod),
   ("deg2rad", oneNumber (fun _ => true) toRadians),
   ("rad2deg", .pure fun
      | [a] => return .float (toDegrees (← a.number))
      | _ => .error .wrongKind),
   ("hsv_to_hex", hsvToHex),
   ("alternating", alternating),
   ("nth", nth),
   ("len", length)] ++
  Path2D.Generator.expressionNames.map fun (name, generator) =>
    (name, .pure fun args => return Path2D.toValue (← generator.callPositional args))

/-- An evaluator with the stock functions and constants, and with more of both. -/
def evaluator (added : List (String × Function)) (addedConstants : Bindings) (maxPasses : Nat)
    (log : DiagnosticLog) : Evaluator where
  functions := Evaluator.withFunctions functions added
  constants := constants.overlay addedConstants
  maxPasses := maxPasses
  memo := {}
  calls := []
  log := log

end ProceduralScene.Expression
