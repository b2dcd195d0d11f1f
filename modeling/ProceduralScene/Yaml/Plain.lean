import ProceduralScene.Value.Convert
import ProceduralScene.Yaml.Cursor

/-!
What a plain scalar stands for: null, a boolean, an integer in one of four notations, a floating number, or its
own text.
-/

set_option autoImplicit false

namespace ProceduralScene.Yaml

inductive PlainKind where
  | null
  | bool (b : Bool)
  | int
  | float
  | merge
  /-- The single `=`, which has no value. -/
  | default
  | text
  deriving DecidableEq, Repr

def isDigit (c : Char) : Bool := '0' ≤ c && c ≤ '9'

def isDigitOrBar (c : Char) : Bool := isDigit c || c == '_'

def dropSign : List Char → List Char
  | '-' :: rest => rest
  | '+' :: rest => rest
  | cs => cs

/-- An exponent; `signed` says that it has to have a sign. -/
def isExponent (signed : Bool) : List Char → Bool
  | mark :: rest =>
    (mark == 'e' || mark == 'E') &&
      (match rest with
      | '-' :: digits => !digits.isEmpty && digits.all isDigit
      | '+' :: digits => !digits.isEmpty && digits.all isDigit
      | digits => !signed && !digits.isEmpty && digits.all isDigit)
  | [] => false

def isFloatForm (cs : List Char) : Bool :=
  let unsigned := dropSign cs
  match unsigned with
  | '.' :: rest =>
    let behind := rest.dropWhile isDigitOrBar
    (behind.length < rest.length && (behind.isEmpty || isExponent true behind)) ||
      ["inf", "Inf", "INF"].contains (String.ofList rest) ||
      (["nan", "NaN", "NAN"].contains (String.ofList rest) && unsigned.length == cs.length)
  | c :: _ =>
    isDigit c &&
      (match unsigned.dropWhile isDigitOrBar with
      | '.' :: rest =>
        let behind := rest.dropWhile isDigitOrBar
        behind.isEmpty || isExponent false behind
      | [] => false
      | behind => isExponent false behind)
  | [] => false

def isBase (digit : Char → Bool) (digits : List Char) : Bool :=
  !digits.isEmpty && digits.all fun c => digit c || c == '_'

def isOctal (c : Char) : Bool := '0' ≤ c && c ≤ '7'

def isHex (c : Char) : Bool := isDigit c || ('a' ≤ c && c ≤ 'f') || ('A' ≤ c && c ≤ 'F')

def isIntForm (cs : List Char) : Bool :=
  let unsigned := dropSign cs
  (match unsigned with
  | '0' :: 'b' :: digits => isBase (fun c => c == '0' || c == '1') digits
  | '0' :: 'o' :: digits => isBase isOctal digits
  | '0' :: 'x' :: digits => isBase isHex digits
  | _ => isBase isDigit unsigned)

/-- A number starts with a digit, a sign or a point. -/
def startsNumber (cs : List Char) : Bool :=
  cs.head?.any fun c => isDigit c || c == '-' || c == '+' || c == '.'

def plainKind (s : String) : PlainKind :=
  let cs := s.toList
  if s == "" || s == "~" || s == "null" || s == "Null" || s == "NULL" then .null
  else if s == "true" || s == "True" || s == "TRUE" then .bool true
  else if s == "false" || s == "False" || s == "FALSE" then .bool false
  else if s == "<<" then .merge
  else if s == "=" then .default
  else if startsNumber cs && isFloatForm cs then .float
  else if startsNumber cs && cs.head? != some '.' && isIntForm cs then .int
  else .text

def digitIn (c : Char) : Nat :=
  if isDigit c then c.toNat - 48 else if 'a' ≤ c && c ≤ 'z' then c.toNat - 87 else c.toNat - 55

def valueIn (base : Nat) (digits : List Char) : Nat :=
  digits.foldl (fun n c => base * n + digitIn c) 0

/-- Digits in a base other than ten. -/
def based (base : Nat) (digits : List Char) : Except Fault Int :=
  if !digits.isEmpty && digits.all (fun c => isHex c && digitIn c < base) then .ok (valueIn base digits)
  else .error .unusable

/-- The integer that a text denotes; bars between digits are ignored. -/
def intOf (s : String) : Except Fault Value := do
  let cs := s.toList.filter (· != '_')
  let size ← match dropSign cs with
    | '0' :: 'b' :: digits => based 2 digits
    | '0' :: 'x' :: digits => based 16 digits
    | '0' :: 'o' :: digits => based 8 digits
    | digits =>
      match Value.parseInt? (String.ofList digits) with
      | some n => pure n
      | none => throw .unusable
  return .int (if cs.head? == some '-' then -size else size)

/-- The floating number that a text denotes; bars between digits are ignored. -/
def floatOf (s : String) : Except Fault Value := do
  let cs := (s.toList.filter (· != '_')).map Char.toLower
  let negative := cs.head? == some '-'
  let unsigned := String.ofList (dropSign cs)
  if unsigned == ".inf" then return .float (Number.infinity negative)
  else if unsigned == ".nan" then return .float (0.0 / 0.0)
  else
    match Value.parseFloat? unsigned with
    | some x => return .float (if negative then -x else x)
    | none => throw .unusable

end ProceduralScene.Yaml
