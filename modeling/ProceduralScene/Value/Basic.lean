import ProceduralScene.Failure

/-!
The values that a schema document, an expression and a node factory exchange: null, booleans, integers of any
size, binary64 and complex numbers, texts, lists, ordered maps, scene nodes and markers of references that are
resolved later. A map keeps the order in which its keys were first written.
-/

set_option autoImplicit false

namespace ProceduralScene

/-- A node of the scene store. -/
abbrev NodeId := Nat

/-- The key of a map. A floating key is kept by its bits. -/
inductive Key where
  | text (s : String)
  | int (n : Int)
  | bool (b : Bool)
  | float (bits : UInt64)
  | null
  deriving DecidableEq, Repr, Inhabited

inductive Value where
  | null
  | bool (b : Bool)
  | int (n : Int)
  | float (x : Float)
  | complex (re im : Float)
  | text (s : String)
  | list (items : List Value)
  | map (entries : List (Key × Value))
  | node (id : NodeId)
  | marker (target : String)
  deriving Inhabited

/-- Named values in order, as a context or a parameter map holds them. -/
abbrev Bindings := List (String × Value)

namespace Bindings

def get? (name : String) (bindings : Bindings) : Option Value :=
  bindings.lookup name

def has (name : String) (bindings : Bindings) : Bool :=
  bindings.any (·.1 == name)

/-- A bound name keeps its place; a new one goes to the end. -/
def put (name : String) (value : Value) : Bindings → Bindings
  | [] => [(name, value)]
  | (key, old) :: rest => if key == name then (key, value) :: rest else (key, old) :: put name value rest

def erase (name : String) (bindings : Bindings) : Bindings :=
  bindings.filter (·.1 != name)

/-- All bindings of `upper` written over `lower`, in order. -/
def overlay (lower upper : Bindings) : Bindings :=
  upper.foldl (fun result entry => put entry.1 entry.2 result) lower

def toMap (bindings : Bindings) : Value :=
  .map (bindings.map fun entry => (.text entry.1, entry.2))

end Bindings

namespace Value

/-- The value at a text key of a list of entries. -/
def entry? (name : String) (entries : List (Key × Value)) : Option Value :=
  entries.lookup (.text name)

def putEntry (key : Key) (value : Value) : List (Key × Value) → List (Key × Value)
  | [] => [(key, value)]
  | (found, old) :: rest =>
    if found == key then (found, value) :: rest else (found, old) :: putEntry key value rest

/-- The field of a map; nothing for an absent field and for a value that is no map. -/
def field? (name : String) : Value → Option Value
  | .map entries => entry? name entries
  | _ => none

/-- The field of a map with null for an absent one. -/
def fieldOrNull (name : String) (value : Value) : Value :=
  (value.field? name).getD .null

/-- The entries of a map when all its keys are texts. -/
def bindings? : Value → Option Bindings
  | .map entries => entries.mapM fun entry =>
    match entry.1 with
    | .text name => some (name, entry.2)
    | _ => none
  | _ => none

def isNull : Value → Bool
  | .null => true
  | _ => false

def isMap : Value → Bool
  | .map _ => true
  | _ => false

def isText : Value → Bool
  | .text _ => true
  | _ => false

/-- Whether a value counts as true: zeros, the empty text, list and map, and null do not. -/
def truthy : Value → Bool
  | .null => false
  | .bool b => b
  | .int n => n != 0
  | .float x => x != 0.0
  | .complex re im => re != 0.0 || im != 0.0
  | .text s => s != ""
  | .list items => !items.isEmpty
  | .map entries => !entries.isEmpty
  | .node _ | .marker _ => true

mutual
/-- How deeply lists and maps are nested in a value. -/
def depth : Value → Nat
  | .list items => depthOfItems items + 1
  | .map entries => depthOfEntries entries + 1
  | _ => 0

def depthOfItems : List Value → Nat
  | [] => 0
  | x :: rest => max (depth x) (depthOfItems rest)

def depthOfEntries : List (Key × Value) → Nat
  | [] => 0
  | (_, x) :: rest => max (depth x) (depthOfEntries rest)
end

/-- The name of the kind of a value, as messages give it; `nodeKind` names the kind of a node. -/
def kindName (nodeKind : NodeId → String) : Value → String
  | .null => "NoneType"
  | .bool _ => "bool"
  | .int _ => "int"
  | .float _ => "float"
  | .complex _ _ => "complex"
  | .text _ => "str"
  | .list _ => "list"
  | .map _ => "dict"
  | .node id => nodeKind id
  | .marker _ => "ReferenceMarker"

end Value

end ProceduralScene
