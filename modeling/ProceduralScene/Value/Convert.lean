import ProceduralScene.Text.CharClass
import ProceduralScene.Number.Decimal
import ProceduralScene.Value.Arithmetic

/-!
Conversion of values to numbers. A text is read as a number with blanks around it, digits of any script and single
underscores between digits; a floating number loses its fraction when it becomes an integer.
-/

set_option autoImplicit false

namespace ProceduralScene

open Number

namespace Value

/-- Removes underscores that stand between two digits; nothing when one stands elsewhere. -/
def dropUnderscores? (previous : Option Char) : List Char → Option (List Char)
  | [] => some []
  | '_' :: rest =>
    if previous.any Text.isDecimal && rest.head?.any Text.isDecimal then dropUnderscores? (some '_') rest else none
  | c :: rest => (dropUnderscores? (some c) rest).map (c :: ·)

def cutSign : List Char → Bool × List Char
  | '-' :: rest => (true, rest)
  | '+' :: rest => (false, rest)
  | cs => (false, cs)

def decimalValue (digits : List Char) : Nat :=
  digits.foldl (fun n c => 10 * n + (Text.digitValue? c).getD 0) 0

/-- Reads an integer. -/
def parseInt? (s : String) : Option Int := do
  let (negative, unsigned) := cutSign (Text.trim s.toList)
  let digits ← dropUnderscores? none unsigned
  if digits.isEmpty || !digits.all Text.isDecimal || digits.length > digitLimit then none
  else
    let size : Int := decimalValue digits
    some (if negative then -size else size)

def lowerAscii (c : Char) : Char := c.toLower

/-- Reads a floating number; infinities and the number that is none have names. -/
def parseFloat? (s : String) : Option Float := do
  let (negative, unsigned) := cutSign (Text.trim s.toList)
  let word := String.ofList (unsigned.map lowerAscii)
  if word == "inf" || word == "infinity" then return infinity negative
  else if word == "nan" then return 0.0 / 0.0
  else
    let cs ← dropUnderscores? none unsigned
    let whole := cs.takeWhile Text.isDecimal
    let rest := cs.dropWhile Text.isDecimal
    let (fraction, rest) := match rest with
      | '.' :: rest => (rest.takeWhile Text.isDecimal, rest.dropWhile Text.isDecimal)
      | _ => ([], rest)
    if whole.isEmpty && fraction.isEmpty then none
    else
      let digits := decimalValue (whole ++ fraction)
      match rest with
      | [] => return ofDecimal negative digits (-(fraction.length : Int))
      | mark :: rest =>
        if mark != 'e' && mark != 'E' then none
        else
          let (down, power) := cutSign rest
          if power.isEmpty || !power.all Text.isDecimal then none
          else
            let size : Int := decimalValue power
            return ofDecimal negative digits ((if down then -size else size) - fraction.length)

/-- The floating number that a value denotes, texts included. -/
def toFloat : Value → Except Failure Float
  | .text s =>
    match parseFloat? s with
    | some x => .ok x
    | none => .error .badContent
  | value => do (← value.scalar).toFloat

/-- A number as a floating number; texts do not count. -/
def number (value : Value) : Except Failure Float := do
  (← value.scalar).toFloat

def truncateFloat (x : Float) : Except Failure Int :=
  match decode x with
  | .finite d => .ok d.truncate
  | .infinite _ => .error .tooLarge
  | .notANumber => .error .badContent

/-- The integer that a value denotes, texts included. -/
def toInt : Value → Except Failure Int
  | .text s =>
    match parseInt? s with
    | some n => .ok n
    | none => .error .badContent
  | value => do
    match ← value.scalar with
    | .int n => return n
    | .float x => truncateFloat x
    | .complex _ _ => throw .wrongKind

/-- The least integer not below a number. -/
def ceil (value : Value) : Except Failure Int := do
  match ← value.scalar with
  | .int n => return n
  | .float x =>
    match decode x with
    | .finite d => return d.ceil
    | .infinite _ => throw .tooLarge
    | .notANumber => throw .badContent
  | .complex _ _ => throw .wrongKind

/-- The largest integer not above a number. -/
def floor (value : Value) : Except Failure Int := do
  match ← value.scalar with
  | .int n => return n
  | .float x =>
    match decode x with
    | .finite d => return d.floor
    | .infinite _ => throw .tooLarge
    | .notANumber => throw .badContent
  | .complex _ _ => throw .wrongKind

/-- A key as a value. -/
def ofKey : Key → Value
  | .text s => .text s
  | .int n => .int n
  | .bool b => .bool b
  | .float bits => .float (Float.ofBits bits)
  | .null => .null

/-- The items of a list, the characters of a text, the keys of a map. -/
def items : Value → Except Failure (List Value)
  | .list items => .ok items
  | .text s => .ok (s.toList.map fun c => .text (String.ofList [c]))
  | .map entries => .ok (entries.map fun entry => ofKey entry.1)
  | _ => .error .wrongKind

/-- A point, or any other row of floating numbers, as a list. -/
def ofFloats (row : List Float) : Value := .list (row.map .float)

def ofRows (rows : List (List Float)) : Value := .list (rows.map ofFloats)

end Value

end ProceduralScene
