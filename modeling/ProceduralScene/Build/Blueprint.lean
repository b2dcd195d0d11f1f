import ProceduralScene.Context
import ProceduralScene.Schema.Action

/-!
Blueprints: what a walk over the actions of a schema makes, before anything is placed into a scene. A blueprint
knows its path, how it was made and the scope it was made in, so that it can be made again.
-/

set_option autoImplicit false

namespace ProceduralScene

/-- What a blueprint becomes when it is placed. -/
inductive BlueprintContent where
  /-- A container of the children. -/
  | group
  /-- What a factory made from parameters; nothing yet when they hold references. -/
  | call (helper : String) (params : Value) (result : Option Value)
  /-- What a factory made for a named shape. -/
  | shape (helper : String) (params result : Value)
  /-- A copy of the node that a target means. -/
  | reference (target : String)

structure Blueprint where
  path : String
  name : String
  content : BlueprintContent
  position : Value
  rotation : Value
  scale : Value
  visible : Bool
  material : Value
  children : List Blueprint
  /-- The bindings that late evaluation sees. -/
  context : Context
  /-- The layers of the scope above the global one, outermost first. -/
  scope : List Bindings
  source : Action
  /-- The number of an instance of a repetition. -/
  instanceIndex : Option Nat
  /-- Whether the subtree has parameters of its own. -/
  anchor : Bool

namespace BlueprintContent

def kind : BlueprintContent → String
  | .group => "group"
  | .call _ _ _ => "helperCall"
  | .shape _ _ _ => "rawGeometry"
  | .reference _ => "reference"

def params : BlueprintContent → Value
  | .call _ params _ | .shape _ params _ => params
  | _ => .map []

def helper? : BlueprintContent → Option String
  | .call helper _ _ | .shape helper _ _ => some helper
  | _ => none

def target? : BlueprintContent → Option String
  | .reference target => some target
  | _ => none

/-- Whether the factory runs only when the blueprint is placed. -/
def isDeferred : BlueprintContent → Bool
  | .call _ _ none => true
  | _ => false

end BlueprintContent

/-- What a blueprint says about itself, its scope and its children apart. -/
def Blueprint.fields (blueprint : Blueprint) : Bindings :=
  let textOrNull (found : Option String) : Value := (found.map Value.text).getD .null
  [("path", .text blueprint.path), ("name", .text blueprint.name), ("kind", .text blueprint.content.kind),
   ("params", blueprint.content.params), ("position", blueprint.position), ("rotation", blueprint.rotation),
   ("scale", blueprint.scale), ("material", blueprint.material), ("visible", .bool blueprint.visible),
   ("helper", textOrNull blueprint.content.helper?), ("deferred", .bool blueprint.content.isDeferred),
   ("target", textOrNull blueprint.content.target?),
   ("instance", (blueprint.instanceIndex.map fun index => Value.int (Int.ofNat index)).getD .null),
   ("anchor", .bool blueprint.anchor)]

/-- The path of a name inside another path. -/
def joinPath (scope name : String) : String :=
  if scope == "" then name else scope ++ "." ++ name

/-- How often each name was asked for among siblings. -/
abbrev SiblingNames := List (String × Nat)

namespace SiblingNames

def put (name : String) (count : Nat) : SiblingNames → SiblingNames
  | [] => [(name, count)]
  | (found, old) :: rest => if found == name then (found, count) :: rest else (found, old) :: put name count rest

/-- The name itself when it is asked for first, then the name with a number. -/
def claim (name : String) (names : SiblingNames) : String × SiblingNames :=
  let count := (names.lookup name).getD 0
  (if count == 0 then name else name ++ "_" ++ toString count, names.put name (count + 1))

end SiblingNames

end ProceduralScene
