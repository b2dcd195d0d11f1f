import ProceduralScene.Diagnostic.Log
import ProceduralScene.Factory.Stock
import ProceduralScene.Text.Order

/-!
The factories of a run by name. A failing factory is reported with its name; a definition in a schema that holds no
code adds nothing.
-/

set_option autoImplicit false

namespace ProceduralScene

abbrev FactoryTable := List (String × Factory)

namespace FactoryTable

def get? (name : String) (table : FactoryTable) : Option Factory := table.lookup name

def put (name : String) (factory : Factory) : FactoryTable → FactoryTable
  | [] => [(name, factory)]
  | (found, old) :: rest => if found == name then (found, factory) :: rest else (found, old) :: put name factory rest

/-- The names in ascending order. -/
def names (table : FactoryTable) : List String :=
  (table.map (·.1)).mergeSort Text.ordered

/-- The factory that a value names. A value that cannot be a key is refused. -/
def find (nodeText : NodeText) (name : Value) (table : FactoryTable) : Except Failure (String × Factory) :=
  match name with
  | .text s =>
    match table.get? s with
    | some factory => .ok (s, factory)
    | none => .error (.helperNotFound (Text.quoted s))
  | .list _ | .map _ => .error .wrongKind
  | _ => do throw (.helperNotFound (← name.display nodeText))

/-- Runs the factory of a name on some parameters, or on none. Failures stay as they are. -/
def call (nodeText : NodeText) (name : String) (params : Value) (table : FactoryTable) : SceneAction Value := do
  let (_, factory) ← SceneAction.lift (table.find nodeText (.text name))
  if !params.truthy then factory (.map [])
  else if params.isMap then factory params
  else throw .wrongKind

/-- Runs a factory; a failure is reported with its name. -/
def invoke (name : String) (factory : Factory) (params : Value) : SceneAction Value :=
  tryCatch (factory params) fun failure => throw (.helperFailed (name ++ ": " ++ failure.message))

/-- The body of a definition: a text, or the field `code` of a map. -/
def definitionBody : Value → Value
  | .map entries => (Value.entry? "code" entries).getD .null
  | value => value

def isBlankBody : Value → Bool
  | .text s => (Text.trim s.toList).isEmpty
  | _ => true

/-- Records the definitions of a schema, of which none adds a factory: those without code, and those with code,
which is not run. -/
def recordDefinitions (definitions : Bindings) (log : DiagnosticLog) : DiagnosticLog :=
  definitions.foldl (fun log (name, definition) =>
    let about := "definition " ++ Text.quoted name
    let text := if isBlankBody (definitionBody definition) then about ++ ": no code found"
      else about ++ " failed to compile: " ++ Failure.unworded
    log.record "H03" text none) log

end FactoryTable

end ProceduralScene
