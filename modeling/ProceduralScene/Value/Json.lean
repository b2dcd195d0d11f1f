import ProceduralScene.Text.Order
import ProceduralScene.Value.Display

/-!
Values as JSON text. The canonical text of a context sorts the keys of every map, so that it does not depend on
the order of the names; the document text keeps the order and is indented. Characters outside ASCII are escaped.
-/

set_option autoImplicit false

namespace ProceduralScene.Json

open Number

/-- One sixteen-bit unit as an escape. -/
def unitEscape (n : Nat) : List Char :=
  '\\' :: 'u' :: Text.hexDigits 4 n

def escapeChar (c : Char) : List Char :=
  if c == '"' then ['\\', '"']
  else if c == '\\' then ['\\', '\\']
  else if c == '\n' then ['\\', 'n']
  else if c == '\r' then ['\\', 'r']
  else if c == '\t' then ['\\', 't']
  else if c.toNat == 8 then ['\\', 'b']
  else if c.toNat == 12 then ['\\', 'f']
  else if 32 ≤ c.toNat && c.toNat < 127 then [c]
  else if c.toNat < 65536 then unitEscape c.toNat
  else
    let above := c.toNat - 65536
    unitEscape (0xd800 + above / 1024) ++ unitEscape (0xdc00 + above % 1024)

def quoted (s : String) : String :=
  String.ofList ('"' :: s.toList.flatMap escapeChar ++ ['"'])

def floatText (x : Float) : String :=
  match decode x with
  | .finite _ => shortestText x
  | .infinite negative => if negative then "-Infinity" else "Infinity"
  | .notANumber => "NaN"

def boolText (b : Bool) : String :=
  if b then "true" else "false"

/-- The text of a key inside its quotes. -/
def keyText : Key → Except Failure String
  | .text s => .ok s
  | .int n => showInt n
  | .bool b => .ok (boolText b)
  | .float bits => .ok (floatText (Float.ofBits bits))
  | .null => .ok "null"

def sameKeyKind : Key → Key → Bool
  | .text _, .text _ => true
  | .text _, _ | _, .text _ => false
  | .null, _ | _, .null => false
  | _, _ => true

def keyNumber : Key → Scalar
  | .int n => .int n
  | .bool b => .int (if b then 1 else 0)
  | .float bits => .float (Float.ofBits bits)
  | _ => .int 0

def keyBefore : Key → Key → Bool
  | .text a, .text b => Text.ordered a b
  | a, b => (keyNumber a).order (keyNumber b) != some .gt

/-- The entries in ascending order of their keys, which must all be texts or all be numbers. -/
def sortEntries {α : Type} (entries : List (Key × α)) : Except Failure (List (Key × α)) :=
  match entries with
  | [] | [_] => .ok entries
  | first :: rest =>
    if rest.all fun entry => sameKeyKind first.1 entry.1 then
      .ok (entries.mergeSort fun a b => keyBefore a.1 b.1)
    else .error .wrongKind


mutual
/-- One line, with the entries of maps sorted by key. -/
def canonical (nodeText : NodeText) : Value → Except Failure String
  | .null => .ok "null"
  | .bool b => .ok (boolText b)
  | .int n => showInt n
  | .float x => .ok (floatText x)
  | .text s => .ok (quoted s)
  | .list items => return "[" ++ ", ".intercalate (← canonicalItems nodeText items) ++ "]"
  | .map entries => do
    let sorted ← sortEntries (← canonicalEntries nodeText entries)
    return "\x7b" ++ ", ".intercalate (sorted.map (·.2)) ++ "\x7d"
  | value => return quoted (← value.display nodeText)

def canonicalItems (nodeText : NodeText) : List Value → Except Failure (List String)
  | [] => .ok []
  | x :: rest => return (← canonical nodeText x) :: (← canonicalItems nodeText rest)

def canonicalEntries (nodeText : NodeText) : List (Key × Value) → Except Failure (List (Key × String))
  | [] => .ok []
  | (key, x) :: rest =>
    return (key, quoted (← keyText key) ++ ": " ++ (← canonical nodeText x)) ::
      (← canonicalEntries nodeText rest)
end

/-- Line breaks and blanks before an item at a depth. -/
def indent (depth : Nat) : String :=
  "\n" ++ String.ofList (List.replicate (2 * depth) ' ')

/-- Items between brackets; with a depth, each item has a line of its own. -/
def enclose (opening closing : String) (depth : Option Nat) (items : List String) : String :=
  match depth, items with
  | _, [] => opening ++ closing
  | none, _ => opening ++ ", ".intercalate items ++ closing
  | some d, _ => opening ++ indent (d + 1) ++ ("," ++ indent (d + 1)).intercalate items ++ indent d ++ closing

/-- A value that JSON has no form for; it is refused, or written as the text of its plain form. -/
inductive Foreign where
  | refuse
  | plain (nodeText : NodeText)

mutual
/-- The text in the order of the entries; with a depth it is indented by two blanks a level. -/
def write (foreign : Foreign) (depth : Option Nat) : Value → Except Failure String
  | .null => .ok "null"
  | .bool b => .ok (boolText b)
  | .int n => showInt n
  | .float x => .ok (floatText x)
  | .text s => .ok (quoted s)
  | .list items => return enclose "[" "]" depth (← writeItems foreign (depth.map (· + 1)) items)
  | .map entries => return enclose "\x7b" "\x7d" depth (← writeEntries foreign (depth.map (· + 1)) entries)
  | value =>
    match foreign with
    | .refuse => .error .wrongKind
    | .plain nodeText => return quoted (← value.plainText nodeText)

def writeItems (foreign : Foreign) (depth : Option Nat) : List Value → Except Failure (List String)
  | [] => .ok []
  | x :: rest => return (← write foreign depth x) :: (← writeItems foreign depth rest)

def writeEntries (foreign : Foreign) (depth : Option Nat) :
    List (Key × Value) → Except Failure (List String)
  | [] => .ok []
  | (key, x) :: rest =>
    return (quoted (← keyText key) ++ ": " ++ (← write foreign depth x)) :: (← writeEntries foreign depth rest)
end

end ProceduralScene.Json
