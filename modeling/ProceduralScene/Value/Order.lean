import ProceduralScene.Value.Basic
import ProceduralScene.Number.Binary

/-!
Equality and order of values. Numbers of all kinds, booleans included, compare by their exact quantity; texts by
code points; lists by their first difference. Other values have no order.
-/

set_option autoImplicit false

namespace ProceduralScene

/-- A number of any kind; a boolean counts as zero or one. -/
inductive Scalar where
  | int (n : Int)
  | float (x : Float)
  | complex (re im : Float)

namespace Value

def scalar? : Value → Option Scalar
  | .bool b => some (.int (if b then 1 else 0))
  | .int n => some (.int n)
  | .float x => some (.float x)
  | .complex re im => some (.complex re im)
  | _ => none

end Value

namespace Scalar

/-- Order by exact quantity; nothing when one side is not a number. -/
def order : Scalar → Scalar → Option Ordering
  | .int a, .int b => some (compare a b)
  | .int a, .float b => Number.compareIntFloat a b
  | .float a, .int b => (Number.compareIntFloat b a).map Ordering.swap
  | .float a, .float b =>
    if a < b then some .lt else if b < a then some .gt else if a == b then some .eq else none
  | _, _ => none

def same : Scalar → Scalar → Bool
  | .complex a b, .complex c d => a == c && b == d
  | .complex a b, other => b == 0.0 && (Scalar.float a).order other == some .eq
  | other, .complex a b => b == 0.0 && (Scalar.float a).order other == some .eq
  | a, b => a.order b == some .eq

/-- Equality inside a list or a map, where a value that is no number equals itself. -/
def sameElement : Scalar → Scalar → Bool
  | .float a, .float b => a == b || (a.isNaN && b.isNaN)
  | a, b => a.same b

end Scalar

namespace Value

mutual
/-- Equality of two values held in a list or a map. -/
def sameElement : Value → Value → Bool
  | .null, .null => true
  | .text a, .text b => a == b
  | .node a, .node b => a == b
  | .marker a, .marker b => a == b
  | .list xs, .list ys => sameItems xs ys
  | .map xs, .map ys => xs.length == ys.length && sameEntries xs ys
  | a, b =>
    match a.scalar?, b.scalar? with
    | some m, some n => m.sameElement n
    | _, _ => false

def sameItems : List Value → List Value → Bool
  | [], [] => true
  | x :: xs, y :: ys => sameElement x y && sameItems xs ys
  | _, _ => false

/-- Every entry of the first map is found in the second. -/
def sameEntries : List (Key × Value) → List (Key × Value) → Bool
  | [], _ => true
  | (key, x) :: rest, ys =>
    (match ys.lookup key with
    | some y => sameElement x y
    | none => false) && sameEntries rest ys
end

/-- Equality of two values. -/
def same (a b : Value) : Bool :=
  match a.scalar?, b.scalar? with
  | some m, some n => m.same n
  | _, _ => sameElement a b

mutual
/-- The order of two values; `none` inside means that neither comes first. -/
def order : Value → Value → Except Failure (Option Ordering)
  | .text a, .text b => .ok (some (compare a.toList b.toList))
  | .list xs, .list ys => orderItems xs ys
  | a, b =>
    match a.scalar?, b.scalar? with
    | some (.complex _ _), _ => .error .wrongKind
    | _, some (.complex _ _) => .error .wrongKind
    | some m, some n => .ok (m.order n)
    | _, _ => .error .wrongKind

def orderItems : List Value → List Value → Except Failure (Option Ordering)
  | [], [] => .ok (some .eq)
  | [], _ :: _ => .ok (some .lt)
  | _ :: _, [] => .ok (some .gt)
  | x :: xs, y :: ys => if sameElement x y then orderItems xs ys else order x y
end

def less (a b : Value) : Except Failure Bool :=
  return (← order a b) == some .lt

def lessOrSame (a b : Value) : Except Failure Bool := do
  let found ← order a b
  return found == some .lt || found == some .eq

/-- The earliest item that no other item comes before. -/
def leastFrom : Value → List Value → Except Failure Value
  | best, [] => .ok best
  | best, x :: rest => do
    if ← less x best then leastFrom x rest else leastFrom best rest

def greatestFrom : Value → List Value → Except Failure Value
  | best, [] => .ok best
  | best, x :: rest => do
    if ← less best x then greatestFrom x rest else greatestFrom best rest

end Value

end ProceduralScene
