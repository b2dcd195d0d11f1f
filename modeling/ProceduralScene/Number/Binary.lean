/-!
Binary64 numbers as exact quantities: a finite number is decoded into sign, mantissa and exponent, and a
quotient of natural numbers is rounded to the nearest binary64 number, ties to the even mantissa. Comparison
of integers with floating numbers, remainders and the roundings to an integer are exact.
-/

set_option autoImplicit false

namespace ProceduralScene.Number

/-- The power of two with an exponent. -/
def twoTo (exponent : Nat) : Nat := Nat.pow 2 exponent

/-- The power of ten with an exponent. -/
def tenTo (exponent : Nat) : Nat := Nat.pow 10 exponent

/-- The magnitude `mantissa · 2 ^ exponent` with a sign. -/
structure Dyadic where
  negative : Bool
  mantissa : Nat
  exponent : Int
  deriving DecidableEq, Repr

inductive Decoded where
  | finite (value : Dyadic)
  | infinite (negative : Bool)
  | notANumber
  deriving DecidableEq, Repr

def decode (x : Float) : Decoded :=
  let bits := x.toBits.toNat
  let negative := decide (twoTo 63 ≤ bits)
  let biased : Nat := (bits / twoTo 52) % 2048
  let fraction : Nat := bits % twoTo 52
  if biased == 2047 then
    if fraction == 0 then .infinite negative else .notANumber
  else if biased == 0 then .finite ⟨negative, fraction, -1074⟩
  else .finite ⟨negative, twoTo 52 + fraction, (biased : Int) - 1075⟩

def infinity (negative : Bool) : Float :=
  if negative then -(1.0 / 0.0) else 1.0 / 0.0

/-- The quotient rounded to the nearest natural number, a tie to the even one. -/
def divideEven (num den : Nat) : Nat :=
  let quotient := num / den
  let twice := 2 * (num % den)
  if twice < den then quotient
  else if den < twice then quotient + 1
  else if quotient % 2 == 0 then quotient
  else quotient + 1

/-- The quotient `num / den` in units of `2 ^ exponent`, as a quotient of natural numbers. -/
def scaleBy (num den : Nat) (exponent : Int) : Nat × Nat :=
  if exponent < 0 then (num * twoTo exponent.natAbs, den) else (num, den * twoTo exponent.natAbs)

/-- The exponent of the last mantissa bit of `num / den`, not below the one of the subnormal numbers. -/
def unitExponent (num den : Nat) : Int :=
  let guess : Int := (Nat.log2 num : Int) - (Nat.log2 den : Int) - 52
  let (scaled, unit) := scaleBy num den guess
  max (-1074) (if scaled / unit < twoTo 52 then guess - 1 else guess)

/-- The binary64 number nearest to `num / den`, or nothing when that magnitude is too large. -/
def nearest (negative : Bool) (num den : Nat) : Option Float :=
  let sign := if negative then twoTo 63 else 0
  if num == 0 then some (Float.ofBits (UInt64.ofNat sign))
  else
    let exponent := unitExponent num den
    let (scaled, unit) := scaleBy num den exponent
    let rounded := divideEven scaled unit
    let (mantissa, exponent) := if rounded == twoTo 53 then (twoTo 52, exponent + 1) else (rounded, exponent)
    if exponent + 52 > 1023 then none
    else if mantissa < twoTo 52 then some (Float.ofBits (UInt64.ofNat (sign + mantissa)))
    else some (Float.ofBits (UInt64.ofNat (sign + (exponent + 1075).toNat * twoTo 52 + (mantissa - twoTo 52))))

def ofInt (n : Int) : Option Float :=
  nearest (decide (n < 0)) n.natAbs 1

/-- The quotient of two integers, rounded once. -/
def divideInts (a b : Int) : Option Float :=
  nearest (decide (a < 0) != decide (b < 0)) a.natAbs b.natAbs

/-- A decimal number `digits · 10 ^ exponent`; a magnitude too large becomes an infinity. -/
def ofDecimal (negative : Bool) (digits : Nat) (exponent : Int) : Float :=
  let zero := if negative then -0.0 else 0.0
  if digits == 0 then zero
  else
    let length : Int := (toString digits).length
    if exponent + length > 400 then infinity negative
    else if exponent + length < -400 then zero
    else
      let value := if exponent < 0 then nearest negative digits (tenTo exponent.natAbs)
        else nearest negative (digits * tenTo exponent.natAbs) 1
      value.getD (infinity negative)

namespace Dyadic

/-- The magnitude as a quotient. -/
def ratio (d : Dyadic) : Nat × Nat :=
  if d.exponent < 0 then (d.mantissa, twoTo d.exponent.natAbs) else (d.mantissa * twoTo d.exponent.natAbs, 1)

def signed (negative : Bool) (n : Nat) : Int :=
  if negative then -(n : Int) else n

/-- The largest integer not above the number. -/
def floor (d : Dyadic) : Int :=
  let (num, den) := d.ratio
  (signed d.negative num).fdiv den

/-- The number without its fraction. -/
def truncate (d : Dyadic) : Int :=
  let (num, den) := d.ratio
  signed d.negative (num / den)

def ceil (d : Dyadic) : Int :=
  let (num, den) := d.ratio
  Int.neg ((signed (!d.negative) num).fdiv den)

def isInteger (d : Dyadic) : Bool :=
  let (num, den) := d.ratio
  num % den == 0

/-- The nearest integer, a tie to the even one. -/
def roundEven (d : Dyadic) : Int :=
  let (num, den) := d.ratio
  signed d.negative (divideEven num den)

def compareInt (n : Int) (d : Dyadic) : Ordering :=
  let (num, den) := d.ratio
  compare (n * den) (signed d.negative num)

end Dyadic

def isFinite (x : Float) : Bool :=
  match decode x with
  | .finite _ => true
  | _ => false

/-- A finite number with no fraction. -/
def isInteger (x : Float) : Bool :=
  match decode x with
  | .finite d => d.isInteger
  | _ => false

def isNegative (x : Float) : Bool :=
  decide (twoTo 63 ≤ x.toBits.toNat)

/-- How an integer compares with a floating number; nothing compares with a number that is none. -/
def compareIntFloat (n : Int) (x : Float) : Option Ordering :=
  match decode x with
  | .finite d => some (d.compareInt n)
  | .infinite negative => some (if negative then .gt else .lt)
  | .notANumber => none

/-- The exact remainder of a division truncated to an integer; it has the sign of the dividend. -/
def remainder (x y : Float) : Float :=
  match decode x, decode y with
  | .finite a, .finite b =>
    if b.mantissa == 0 then 0.0 / 0.0
    else
      let unit := min a.exponent b.exponent
      let left := a.mantissa * twoTo (a.exponent - unit).toNat
      let right := b.mantissa * twoTo (b.exponent - unit).toNat
      let rest : Dyadic := ⟨a.negative, left % right, unit⟩
      let (num, den) := rest.ratio
      (nearest a.negative num den).getD x
  | .finite _, .infinite _ => x
  | _, _ => 0.0 / 0.0

/-- The remainder of a division rounded down; it has the sign of the divisor. -/
def floorRemainder (x y : Float) : Float :=
  let rest := remainder x y
  if rest == 0.0 then (if isNegative y then -0.0 else 0.0)
  else if (y < 0.0) != (rest < 0.0) then rest + y
  else rest

end ProceduralScene.Number
