import ProceduralScene.Schema.Basic
import ProceduralScene.Yaml.Document

/-!
Loading of schema documents, from YAML or JSON text or from a map that was read before.
-/

set_option autoImplicit false

namespace ProceduralScene

inductive SchemaSource where
  | text (s : String)
  | fields (entries : List (Key × Value))

namespace SchemaSource

/-- A document is given as a text or as a map. -/
def ofValue : Value → Except Failure SchemaSource
  | .text s => .ok (.text s)
  | .map entries => .ok (.fields entries)
  | _ => .error .wrongKind

/-- The entries of a document, before they are read into a schema. -/
def document : SchemaSource → Except Failure (List (Key × Value))
  | .fields entries => .ok entries
  | .text s =>
    match Yaml.load s with
    | .ok (.map entries) => .ok entries
    | .ok _ => .error (.badSchema "Top-level schema value must be a mapping")
    | .error .malformed => .error (.badSchema ("Invalid schema document: " ++ Failure.unworded))
    | .error .unusable => .error .badContent

/-- The schema that a document holds. -/
def schema (source : SchemaSource) : Except Failure Schema := do
  match Schema.read (← source.document) with
  | .ok schema => return schema
  | .error paths =>
    throw (.badSchema ("Schema validation failed:\n" ++ (Failure.invalid (Reading.describe paths)).message))

end SchemaSource

/-- The value of a text that stands for a single YAML value. -/
def loadValue (s : String) : Except Yaml.Fault Value := Yaml.load s

end ProceduralScene
