import ProceduralScene.Value.Convert
import ProceduralScene.Value.Json

/-!
Reading of JSON text into values. A number with a fraction or an exponent is a floating number, any other number an
integer of any size. The entries of an object keep the order in which their names were first written.
-/

set_option autoImplicit false

namespace ProceduralScene.Json

def isBlank (c : Char) : Bool := c == ' ' || c == '\n' || c == '\t' || c == '\r'

def skipBlanks (cs : List Char) : List Char := cs.dropWhile isBlank

/-- The value of a hexadecimal digit. -/
def hexDigit? (c : Char) : Option Nat :=
  if c.isDigit then some (c.toNat - 48)
  else if 'a' ≤ c && c ≤ 'f' then some (c.toNat - 87)
  else if 'A' ≤ c && c ≤ 'F' then some (c.toNat - 55)
  else none

def hexValue? (digits : List Char) : Option Nat :=
  digits.foldlM (fun n c => (hexDigit? c).map (16 * n + ·)) 0

/-- The code of a character that is written after a backslash. -/
def escapedCode? (c : Char) : Option Nat :=
  if c == '"' || c == '\\' || c == '/' then some c.toNat
  else if c == 'n' then some 10
  else if c == 't' then some 9
  else if c == 'r' then some 13
  else if c == 'b' then some 8
  else if c == 'f' then some 12
  else none

/-- The codes of a text up to its closing quote, and what follows the quote. An escape may stand for one unit of a
pair. -/
def readCodes : List Char → Option (List Nat × List Char)
  | [] => none
  | '"' :: rest => some ([], rest)
  | '\\' :: 'u' :: a :: b :: c :: d :: rest => do
    let code ← hexValue? [a, b, c, d]
    let (codes, rest) ← readCodes rest
    return (code :: codes, rest)
  | '\\' :: c :: rest => do
    let code ← escapedCode? c
    let (codes, rest) ← readCodes rest
    return (code :: codes, rest)
  | c :: rest => do
    let (codes, rest) ← readCodes rest
    return (c.toNat :: codes, rest)

/-- Characters from codes. Two units of a pair make one character; a unit without its partner stands for none. -/
def joinCodes : List Nat → List Char
  | high :: low :: rest =>
    if 0xd800 ≤ high && high < 0xdc00 && 0xdc00 ≤ low && low < 0xe000 then
      Char.ofNat (0x10000 + (high - 0xd800) * 1024 + (low - 0xdc00)) :: joinCodes rest
    else Char.ofNat high :: joinCodes (low :: rest)
  | [code] => [Char.ofNat code]
  | [] => []

/-- A text after its opening quote. -/
def readText (cs : List Char) : Option (String × List Char) :=
  (readCodes cs).map fun (codes, rest) => (String.ofList (joinCodes codes), rest)

def isNumberChar (c : Char) : Bool :=
  c.isDigit || c == '-' || c == '+' || c == '.' || c == 'e' || c == 'E'

def isFloatChar (c : Char) : Bool := c == '.' || c == 'e' || c == 'E'

def numberOf? (cs : List Char) : Option Value :=
  let text := String.ofList cs
  if cs.any isFloatChar then (Value.parseFloat? text).map .float else (Value.parseInt? text).map .int

mutual
/-- A value at the start of a text, and what follows it. The first argument bounds the nesting and the count of
items. -/
def readValue : Nat → List Char → Option (Value × List Char)
  | 0, _ => none
  | fuel + 1, cs =>
    match skipBlanks cs with
    | 'n' :: 'u' :: 'l' :: 'l' :: rest => some (.null, rest)
    | 't' :: 'r' :: 'u' :: 'e' :: rest => some (.bool true, rest)
    | 'f' :: 'a' :: 'l' :: 's' :: 'e' :: rest => some (.bool false, rest)
    | '"' :: rest => (readText rest).map fun (s, rest) => (.text s, rest)
    | '[' :: rest =>
      match skipBlanks rest with
      | ']' :: rest => some (.list [], rest)
      | rest => (readItems fuel rest).map fun (items, rest) => (.list items, rest)
    | '\x7b' :: rest =>
      match skipBlanks rest with
      | '\x7d' :: rest => some (.map [], rest)
      | rest => (readEntries fuel [] rest).map fun (entries, rest) => (.map entries, rest)
    | cs => (numberOf? (cs.takeWhile isNumberChar)).map fun value => (value, cs.dropWhile isNumberChar)

def readItems : Nat → List Char → Option (List Value × List Char)
  | 0, _ => none
  | fuel + 1, cs => do
    let (item, rest) ← readValue fuel cs
    match skipBlanks rest with
    | ',' :: rest =>
      let (items, rest) ← readItems fuel rest
      return (item :: items, rest)
    | ']' :: rest => return ([item], rest)
    | _ => none

def readEntries : Nat → List (Key × Value) → List Char → Option (List (Key × Value) × List Char)
  | 0, _, _ => none
  | fuel + 1, entries, cs => do
    let (name, rest) ← match skipBlanks cs with
      | '"' :: rest => readText rest
      | _ => none
    let (value, rest) ← match skipBlanks rest with
      | ':' :: rest => readValue fuel rest
      | _ => none
    let entries := Value.putEntry (.text name) value entries
    match skipBlanks rest with
    | ',' :: rest => readEntries fuel entries rest
    | '\x7d' :: rest => return (entries, rest)
    | _ => none
end

/-- The value that a JSON document holds. -/
def read (text : String) : Option Value :=
  match readValue (text.length + 1) text.toList with
  | some (value, rest) => if rest.all isBlank then some value else none
  | none => none

end ProceduralScene.Json
