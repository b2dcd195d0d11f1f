import ProceduralScene.Number.Decimal
import ProceduralScene.Text.Quoted
import ProceduralScene.Value.Arithmetic

/-!
Texts of values. The shown form of a value quotes texts and keeps every kind apart; the plain form leaves a text
as it is; the joined form, used where a value becomes part of a text, drops the fraction of a whole number and
writes booleans in small letters. An integer past the digit limit has no text.
-/

set_option autoImplicit false

namespace ProceduralScene

/-- How the store shows a node. -/
abbrev NodeText := NodeId → Except Failure String

open Number

def showInt (n : Int) : Except Failure String :=
  match intText? n with
  | some text => .ok text
  | none => .error .badContent

def showBool (b : Bool) : String :=
  if b then "True" else "False"

/-- A component of a complex number, without the mark of a whole number. -/
def componentText (x : Float) : String :=
  let text := shortestText x
  let cs := text.toList
  if cs.drop (cs.length - 2) == ['.', '0'] then String.ofList (cs.take (cs.length - 2)) else text

def showComplex (re im : Float) : String :=
  let imaginary := componentText im
  if re == 0.0 && !isNegative re then imaginary ++ "j"
  else
    let sign := if imaginary.toList.head? == some '-' then "" else "+"
    "(" ++ componentText re ++ sign ++ imaginary ++ "j)"

def Key.display : Key → Except Failure String
  | .text s => .ok (Text.quoted s)
  | .int n => showInt n
  | .bool b => .ok (showBool b)
  | .float bits => .ok (shortestText (Float.ofBits bits))
  | .null => .ok "None"

namespace Value

mutual
/-- The shown form of a value. -/
def display (nodeText : NodeText) : Value → Except Failure String
  | .null => .ok "None"
  | .bool b => .ok (showBool b)
  | .int n => showInt n
  | .float x => .ok (shortestText x)
  | .complex re im => .ok (showComplex re im)
  | .text s => .ok (Text.quoted s)
  | .list items => return "[" ++ ", ".intercalate (← displayItems nodeText items) ++ "]"
  | .map entries => return "\x7b" ++ ", ".intercalate (← displayEntries nodeText entries) ++ "\x7d"
  | .node id => nodeText id
  | .marker target => .ok ("ReferenceMarker(target=" ++ Text.quoted target ++ ")")

def displayItems (nodeText : NodeText) : List Value → Except Failure (List String)
  | [] => .ok []
  | x :: rest => return (← display nodeText x) :: (← displayItems nodeText rest)

def displayEntries (nodeText : NodeText) : List (Key × Value) → Except Failure (List String)
  | [] => .ok []
  | (key, x) :: rest =>
    return ((← key.display) ++ ": " ++ (← display nodeText x)) :: (← displayEntries nodeText rest)
end

/-- The plain form of a value. -/
def plainText (nodeText : NodeText) : Value → Except Failure String
  | .text s => .ok s
  | value => value.display nodeText

/-- The form that a value takes when it is joined to a text. -/
def joinedText (nodeText : NodeText) : Value → Except Failure String
  | .bool b => .ok (if b then "true" else "false")
  | .float x =>
    match decode x with
    | .finite d => if d.isInteger then showInt d.truncate else .ok (shortestText x)
    | _ => .ok (shortestText x)
  | value => value.plainText nodeText

end Value

end ProceduralScene
