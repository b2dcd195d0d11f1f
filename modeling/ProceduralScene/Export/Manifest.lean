import ProceduralScene.Diagnostic.Log
import ProceduralScene.Export.File
import ProceduralScene.Export.Sha256
import ProceduralScene.Text.Order

/-!
A manifest describes one run: its input and output with their digests, the size of the scene, the diagnostics and
the parameters.
-/

set_option autoImplicit false

namespace ProceduralScene

/-- A file that a run has read or written. -/
structure Artifact where
  path : String
  content : FileContent

structure Manifest where
  input : Artifact
  output : Option Artifact
  root : String
  nodes : Nat
  leaves : Nat
  counts : List (String × Nat)
  parameters : Bindings

namespace Artifact

def toValue (artifact : Artifact) : Value :=
  Bindings.toMap [("path", .text artifact.path), ("sha256", .text (Sha256.hex artifact.content.toBytes))]

end Artifact

namespace Manifest

def toolName : String := "shapeweave"

def toolVersion : String := "0.1.0"

def ofScene (store : Store) (root : NodeId) (log : DiagnosticLog) (parameters : Bindings) (input : Artifact)
    (output : Option Artifact) : Manifest where
  input := input
  output := output
  root := store.nameOf root
  nodes := (store.walk root).length
  leaves := store.countLeaves root
  counts := log.counts.mergeSort fun a b => Text.ordered a.1 b.1
  parameters := parameters

def toValue (manifest : Manifest) : Value :=
  Bindings.toMap
    ([("manifest_version", .int 1),
      ("tool", Bindings.toMap [("name", .text toolName), ("version", .text toolVersion)]),
      ("input", manifest.input.toValue),
      ("scene", Bindings.toMap
        [("root", .text manifest.root), ("nodes", .int (Int.ofNat manifest.nodes)),
         ("leaves", .int (Int.ofNat manifest.leaves))]),
      ("diagnostics", Bindings.toMap (manifest.counts.map fun entry => (entry.1, .int (Int.ofNat entry.2))))] ++
      (match manifest.output with
      | some output => [("output", output.toValue)]
      | none => []) ++
      (if manifest.parameters.isEmpty then [] else [("parameters", Bindings.toMap manifest.parameters)]))

/-- The manifest as an indented JSON document. -/
def text (nodeText : NodeText) (manifest : Manifest) : Except Failure String :=
  Json.write (.plain nodeText) (some 0) manifest.toValue

end Manifest

end ProceduralScene
