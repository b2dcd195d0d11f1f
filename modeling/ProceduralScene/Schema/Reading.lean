import ProceduralScene.Text.Order
import ProceduralScene.Value.Convert

/-!
Reading the fields of a document into a model. A reading gives a value or the paths of all fields that do not fit;
numbers and booleans are also accepted in the usual textual forms.
-/

set_option autoImplicit false

namespace ProceduralScene

/-- The way from the top of a document to a field. -/
abbrev FieldPath := List String

/-- A value, or the paths of the fields that do not fit. -/
abbrev Reading (α : Type) := Except (List FieldPath) α

namespace Reading

def faults {α : Type} : Reading α → List FieldPath
  | .ok _ => []
  | .error paths => paths

def misfit {α : Type} : Reading α := .error [[]]

/-- A reading of the part of a value that is called `name`. -/
def under {α : Type} (name : String) : Reading α → Reading α
  | .ok value => .ok value
  | .error paths => .error (paths.map (name :: ·))

/-- All readings together: their values, or the faults of all of them. -/
def all {α : Type} : List (Reading α) → Reading (List α)
  | [] => .ok []
  | reading :: rest =>
    match reading, all rest with
    | .ok value, .ok values => .ok (value :: values)
    | first, others => .error (faults first ++ faults others)

def byPosition {α : Type} (read : Value → Reading α) (items : List Value) : Reading (List α) :=
  all (items.zipIdx.map fun item => under (toString item.2) (read item.1))

/-- The distinct paths in ascending order, their parts joined by dots. -/
def describe (paths : List FieldPath) : List String :=
  ((paths.map fun path => ".".intercalate path).mergeSort Text.ordered).eraseDups

def toResult {α : Type} : Reading α → Except Failure α
  | .ok value => .ok value
  | .error paths => .error (.invalid (describe paths))

def text : Value → Reading String
  | .text s => .ok s
  | _ => misfit

def isBlank (c : Char) : Bool := Text.isSpace c && !(28 ≤ c.toNat && c.toNat ≤ 31)

def trimBlank (cs : List Char) : List Char :=
  ((cs.dropWhile isBlank).reverse.dropWhile isBlank).reverse

/-- A floating number in ASCII digits, without blanks and underscores. -/
def plainFloat? (cs : List Char) : Option Float :=
  if cs.all fun c => c.toNat < 128 && c != '_' && !Text.isSpace c then Value.parseFloat? (String.ofList cs) else none

def hasDoubleUnderscore : List Char → Bool
  | '_' :: '_' :: _ => true
  | _ :: rest => hasDoubleUnderscore rest
  | [] => false

/-- A text without its underscores; they may neither stand at an end nor side by side. -/
def withoutUnderscores? (cs : List Char) : Option (List Char) :=
  if !cs.contains '_' || cs.head? == some '_' || cs.getLast? == some '_' || hasDoubleUnderscore cs then none
  else some (cs.filter (· != '_'))

/-- A number: integers and booleans are widened, texts are read. -/
def float : Value → Reading Float
  | .text s =>
    match plainFloat? (trimBlank s.toList) <|> (withoutUnderscores? s.toList).bind plainFloat? with
    | some x => .ok x
    | none => misfit
  | .list _ | .map _ | .null => misfit
  | value =>
    match value.toFloat with
    | .ok x => .ok x
    | .error _ => misfit

def lowerText (s : String) : String := String.ofList (s.toList.map Char.toLower)

/-- A boolean: zero and one, and the usual words, count as well. -/
def bool : Value → Reading Bool
  | .bool b => .ok b
  | .int 0 => .ok false
  | .int 1 => .ok true
  | .float x => if x == 0.0 then .ok false else if x == 1.0 then .ok true else misfit
  | .text s =>
    if ["0", "f", "n", "no", "off", "false"].contains (lowerText s) then .ok false
    else if ["1", "t", "y", "on", "yes", "true"].contains (lowerText s) then .ok true
    else misfit
  | _ => misfit

def list : Value → Reading (List Value)
  | .list items => .ok items
  | _ => misfit

/-- A key as a part of a path. -/
def keyPart : Key → String
  | .text s => s
  | .int n => toString n
  | .bool b => if b then "1" else "0"
  | .float bits => Number.shortestText (Float.ofBits bits)
  | .null => "None"

def entry {α : Type} (read : Value → Reading α) (entry : Key × Value) : Reading (String × α) :=
  match entry.1, under (keyPart entry.1) (read entry.2) with
  | .text name, .ok value => .ok (name, value)
  | .text _, .error paths => .error paths
  | key, reading => .error ([keyPart key, "[key]"] :: faults reading)

/-- A map with text keys whose values are read alike. -/
def mapOf {α : Type} (read : Value → Reading α) : Value → Reading (List (String × α))
  | .map entries => all (entries.map (entry read))
  | _ => misfit

def anything (value : Value) : Reading Value := .ok value

def bindings : Value → Reading Bindings := mapOf anything

/-- A value that may be null. -/
def optional {α : Type} (read : Value → Reading α) : Value → Reading (Option α)
  | .null => .ok none
  | value => (read value).map some

/-- A field by the first of its names that is present; `missing` when none is. -/
def field {α : Type} (names : List String) (missing : Reading α) (read : Value → Reading α)
    (entries : List (Key × Value)) : Reading α :=
  match names.find? fun name => (Value.entry? name entries).isSome with
  | some name => under name (read ((Value.entry? name entries).getD .null))
  | none => missing

/-- A field that has to be present. -/
def required {α : Type} (name : String) (read : Value → Reading α) (entries : List (Key × Value)) : Reading α :=
  field [name] (under name misfit) read entries

end Reading

end ProceduralScene
