import ProceduralScene.Number.Complex
import ProceduralScene.Value.Order

/-!
Arithmetic on values. Integers stay exact; an integer that meets a floating number becomes one, and a magnitude
too large for that is a failure. A negative number raised to a fraction is complex. Lists and texts can be
repeated, and lists joined.
-/

set_option autoImplicit false

namespace ProceduralScene

open Number

namespace Scalar

def toFloat : Scalar → Except Failure Float
  | .int n =>
    match Number.ofInt n with
    | some x => .ok x
    | none => .error .tooLarge
  | .float x => .ok x
  | .complex _ _ => .error .wrongKind

def toComplex : Scalar → Except Failure ComplexFloat
  | .complex re im => .ok ⟨re, im⟩
  | other => return ComplexFloat.ofFloat (← other.toFloat)

def isComplex : Scalar → Bool
  | .complex _ _ => true
  | _ => false

def toValue : Scalar → Value
  | .int n => .int n
  | .float x => .float x
  | .complex re im => .complex re im

/-- A binary operation in the smallest domain that holds both operands. -/
def combine (onInts : Int → Int → Int) (onFloats : Float → Float → Float)
    (onComplex : ComplexFloat → ComplexFloat → ComplexFloat) (a b : Scalar) : Except Failure Value :=
  match a, b with
  | .int m, .int n => .ok (.int (onInts m n))
  | _, _ =>
    if a.isComplex || b.isComplex then do
      let found := onComplex (← a.toComplex) (← b.toComplex)
      return .complex found.re found.im
    else return .float (onFloats (← a.toFloat) (← b.toFloat))

def isZero : Scalar → Bool
  | .int n => n == 0
  | .float x => x == 0.0
  | .complex re im => re == 0.0 && im == 0.0

def neg : Scalar → Scalar
  | .int n => .int (-n)
  | .float x => .float (-x)
  | .complex re im => .complex (-re) (-im)

def complexPower (a b : ComplexFloat) : Except Failure Value :=
  let finish (found : ComplexFloat) : Except Failure Value :=
    if found.re.isInf || found.im.isInf then .error .tooLarge else .ok (.complex found.re found.im)
  match if b.im == 0.0 then decode b.re else .notANumber with
  | .finite d =>
    if d.isInteger && b.re.abs ≤ 100.0 then
      let exponent := d.truncate
      if 0 ≤ exponent then finish (a.powNat exponent.natAbs)
      else if a.isZero then .error .absent
      else finish ((⟨1.0, 0.0⟩ : ComplexFloat).div (a.powNat exponent.natAbs))
    else
      match a.powPolar? b with
      | some found => finish found
      | none => .error .absent
  | _ =>
    match a.powPolar? b with
    | some found => finish found
    | none => .error .absent

/-- The power of floating numbers. A finite result is required of finite operands. -/
def floatPower (x y : Float) : Except Failure Value :=
  if x == 0.0 && y < 0.0 && isFinite y then .error .absent
  else if x < 0.0 && isFinite x && isFinite y && !isInteger y then
    complexPower (ComplexFloat.ofFloat x) (ComplexFloat.ofFloat y)
  else
    let found := Float.pow x y
    if found.isInf && isFinite x && isFinite y then .error .tooLarge else .ok (.float found)

/-- The largest count of bits that a power of an integer may have. -/
def powerLimit : Nat := twoTo 26

def power : Scalar → Scalar → Except Failure Value
  | .int base, .int exponent =>
    if exponent < 0 then do floatPower (← (Scalar.int base).toFloat) (← (Scalar.int exponent).toFloat)
    else if base.natAbs ≤ 1 then
      .ok (.int (if base == 0 then (if exponent == 0 then 1 else 0)
        else if base == 1 || exponent % 2 == 0 then 1 else -1))
    else if (Nat.log2 base.natAbs + 1) * exponent.natAbs > powerLimit then .error .tooLarge
    else .ok (.int (base.pow exponent.natAbs))
  | a, b =>
    if a.isComplex || b.isComplex then do complexPower (← a.toComplex) (← b.toComplex)
    else do floatPower (← a.toFloat) (← b.toFloat)

def divide (a b : Scalar) : Except Failure Value :=
  match a, b with
  | .int m, .int n =>
    if n == 0 then .error .absent
    else match divideInts m n with
      | some x => .ok (.float x)
      | none => .error .tooLarge
  | _, _ =>
    if b.isZero then .error .absent
    else if a.isComplex || b.isComplex then do
      let found := (← a.toComplex).div (← b.toComplex)
      return .complex found.re found.im
    else return .float ((← a.toFloat) / (← b.toFloat))

/-- The remainder of a division truncated to an integer, taken in floating numbers. -/
def truncatedRemainder (a b : Scalar) : Except Failure Value := do
  let x ← a.toFloat
  let y ← b.toFloat
  if y == 0.0 || (x.isInf && !y.isNaN) then throw .badContent
  let rest := remainder x y
  match a, b with
  | .int _, .int _ =>
    match decode rest with
    | .finite d => return .int d.truncate
    | _ => throw .badContent
  | _, _ => return .float rest

/-- The remainder of a division rounded down. -/
def flooredRemainder : Scalar → Scalar → Except Failure Value
  | .int m, .int n => if n == 0 then .error .absent else .ok (.int (m.fmod n))
  | a, b => do
    let x ← a.toFloat
    let y ← b.toFloat
    if y == 0.0 then throw .absent
    return .float (floorRemainder x y)

end Scalar

namespace Value

/-- The most items that a repetition may make. -/
def repetitionLimit : Nat := twoTo 26

def scalar (value : Value) : Except Failure Scalar :=
  match value.scalar? with
  | some found => .ok found
  | none => .error .wrongKind

def repeatItems {α : Type} (count : Int) (items : List α) : Except Failure (List α) :=
  if count ≤ 0 then .ok []
  else if count.natAbs * items.length > repetitionLimit then .error .tooLarge
  else .ok (List.replicate count.natAbs items).flatten

def add : Value → Value → Except Failure Value
  | .list xs, .list ys => .ok (.list (xs ++ ys))
  | .text a, .text b => .ok (.text (a ++ b))
  | a, b => do Scalar.combine (· + ·) (· + ·) ComplexFloat.add (← a.scalar) (← b.scalar)

def sub (a b : Value) : Except Failure Value := do
  Scalar.combine (· - ·) (· - ·) ComplexFloat.sub (← a.scalar) (← b.scalar)

def repetition (count : Value) (times : Value → Int → Except Failure Value) (repeated : Value) :
    Except Failure Value :=
  match count.scalar? with
  | some (.int n) => times repeated n
  | _ => .error .wrongKind

def times (repeated : Value) (n : Int) : Except Failure Value :=
  match repeated with
  | .text s => return .text (String.ofList (← repeatItems n s.toList))
  | .list xs => return .list (← repeatItems n xs)
  | _ => .error .wrongKind

def mul : Value → Value → Except Failure Value
  | .text s, b => repetition b times (.text s)
  | .list xs, b => repetition b times (.list xs)
  | a, .text s => repetition a times (.text s)
  | a, .list xs => repetition a times (.list xs)
  | a, b => do Scalar.combine (· * ·) (· * ·) ComplexFloat.mul (← a.scalar) (← b.scalar)

def div (a b : Value) : Except Failure Value := do
  Scalar.divide (← a.scalar) (← b.scalar)

def pow (a b : Value) : Except Failure Value := do
  Scalar.power (← a.scalar) (← b.scalar)

def neg (a : Value) : Except Failure Value := do
  return (← a.scalar).neg.toValue

/-- Whether the value equals zero. -/
def isZero (value : Value) : Bool :=
  match value.scalar? with
  | some found => found.isZero
  | none => false

/-- The integer that an index stands for; a floating index must have no fraction. -/
def indexInt? : Value → Option Int
  | .int n => some n
  | .bool b => some (if b then 1 else 0)
  | .float x =>
    match decode x with
    | .finite d => if d.isInteger then some d.truncate else none
    | _ => none
  | _ => none

/-- The item at an index; a negative index counts from the end. -/
def itemAt {α : Type} (items : List α) (index : Int) : Except Failure α :=
  let place := if index < 0 then index + items.length else index
  if place < 0 then .error .absent
  else match items[place.toNat]? with
    | some item => .ok item
    | none => .error .absent

def keyOf? : Value → Option Key
  | .text s => some (.text s)
  | .int n => some (.int n)
  | .bool b => some (.bool b)
  | .float x => some (.float x.toBits)
  | .null => some .null
  | _ => none

/-- Keys that are equal as numbers find each other. -/
def findKey (key : Key) (entries : List (Key × Value)) : Option Value :=
  match key with
  | .float bits =>
    match decode (Float.ofBits bits) with
    | .finite d =>
      if d.isInteger then entries.lookup key <|> entries.lookup (.int d.truncate) else entries.lookup key
    | _ => entries.lookup key
  | .bool b => entries.lookup key <|> entries.lookup (.int (if b then 1 else 0))
  | .int n => entries.lookup key <|>
    (if n == 1 then entries.lookup (.bool true) else if n == 0 then entries.lookup (.bool false) else none)
  | _ => entries.lookup key

/-- A list or a text by position, a map by key. -/
def index (value at' : Value) : Except Failure Value :=
  match value with
  | .list xs =>
    match at'.indexInt? with
    | some n => itemAt xs n
    | none => .error .wrongKind
  | .text s =>
    match at'.indexInt? with
    | some n => return .text (String.ofList [← itemAt s.toList n])
    | none => .error .wrongKind
  | .map entries =>
    match at'.keyOf? with
    | some key =>
      match findKey key entries with
      | some found => .ok found
      | none => .error .absent
    | none => .error .wrongKind
  | _ => .error .wrongKind

end Value

end ProceduralScene
