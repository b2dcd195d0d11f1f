/-!
Arithmetic of complex numbers in binary64 components.
-/

set_option autoImplicit false

namespace ProceduralScene.Number

structure ComplexFloat where
  re : Float
  im : Float

namespace ComplexFloat

def ofFloat (x : Float) : ComplexFloat := ⟨x, 0.0⟩

def add (a b : ComplexFloat) : ComplexFloat := ⟨a.re + b.re, a.im + b.im⟩
def sub (a b : ComplexFloat) : ComplexFloat := ⟨a.re - b.re, a.im - b.im⟩
def neg (a : ComplexFloat) : ComplexFloat := ⟨-a.re, -a.im⟩
def mul (a b : ComplexFloat) : ComplexFloat := ⟨a.re * b.re - a.im * b.im, a.re * b.im + a.im * b.re⟩

def isZero (a : ComplexFloat) : Bool := a.re == 0.0 && a.im == 0.0

/-- The quotient by the scaled method: the larger component of the divisor is divided out first. -/
def div (a b : ComplexFloat) : ComplexFloat :=
  if b.im.abs ≤ b.re.abs then
    let ratio := b.im / b.re
    let den := b.re + b.im * ratio
    ⟨(a.re + a.im * ratio) / den, (a.im - a.re * ratio) / den⟩
  else if b.re.abs ≤ b.im.abs then
    let ratio := b.re / b.im
    let den := b.re * ratio + b.im
    ⟨(a.re * ratio + a.im) / den, (a.im * ratio - a.re) / den⟩
  else ⟨0.0 / 0.0, 0.0 / 0.0⟩

/-- The distance from zero. -/
def abs (a : ComplexFloat) : Float :=
  let x := a.re.abs
  let y := a.im.abs
  let high := if x < y then y else x
  let low := if x < y then x else y
  if high == 0.0 then 0.0
  else if high.isInf then high
  else
    let plain := Float.sqrt (x * x + y * y)
    if plain.isInf || plain < 1e-150 then high * Float.sqrt (1.0 + (low / high) * (low / high)) else plain

/-- The power with a natural exponent, by repeated squaring. -/
def powNat (a : ComplexFloat) : Nat → ComplexFloat
  | 0 => ⟨1.0, 0.0⟩
  | n + 1 =>
    let half := powNat a ((n + 1) / 2)
    let square := mul half half
    if (n + 1) % 2 == 0 then square else mul square a

/-- The power by polar coordinates; nothing for zero to a power that is negative or not real. -/
def powPolar? (a b : ComplexFloat) : Option ComplexFloat :=
  if b.isZero then some ⟨1.0, 0.0⟩
  else if a.isZero then
    if b.im != 0.0 || b.re < 0.0 then none else some ⟨0.0, 0.0⟩
  else
    let size := a.abs
    let angle := Float.atan2 a.im a.re
    let length := Float.pow size b.re
    let phase := angle * b.re
    let (length, phase) :=
      if b.im != 0.0 then (length * Float.exp (-angle * b.im), phase + b.im * Float.log size) else (length, phase)
    some ⟨length * Float.cos phase, length * Float.sin phase⟩

end ComplexFloat

end ProceduralScene.Number
