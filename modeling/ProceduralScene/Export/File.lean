import ProceduralScene.Export.Gltf
import ProceduralScene.Export.Record

/-!
Files with exported scenes. The ending of the path chooses the format.
-/

set_option autoImplicit false

namespace ProceduralScene

inductive FileContent where
  | text (s : String)
  | binary (bytes : List UInt8)

namespace FileContent

def toBytes : FileContent → List UInt8
  | .text s => s.toUTF8.toList
  | .binary bytes => bytes

end FileContent

namespace FilePath

/-- The parts of a path without empty ones and without those that stay in place. -/
def parts (path : String) : List String :=
  (path.splitOn "/").filter fun part => part != "" && part != "."

/-- A path without needless parts. -/
def plain (path : String) : String :=
  let lead := if path.toList.head? == some '/' then "/" else ""
  let joined := lead ++ "/".intercalate (parts path)
  if joined == "" then "." else joined

/-- The last part of a path. -/
def name (path : String) : String := (parts path).getLastD ""

/-- The ending of a name from its last point on; a point at either end of the name starts none. -/
def suffix (path : String) : String :=
  let cs := (name path).toList
  let behind := (cs.reverse.takeWhile (· != '.')).reverse
  if behind.isEmpty || cs.length ≤ behind.length + 1 then "" else String.ofList ('.' :: behind)

end FilePath

namespace Export

def lowerText (s : String) : String := String.ofList (s.toList.map Char.toLower)

/-- A failure of the export itself. -/
def failed {α : Type} (result : Except Failure α) : Except Failure α :=
  result.mapError fun failure => .notExported ("Failed to export scene: " ++ failure.message)

/-- The content of the file with a path that a scene is exported to. -/
def content (store : Store) (root : NodeId) (path : String) : Except Failure FileContent := do
  let suffix := FilePath.suffix path
  match lowerText suffix with
  | ".json" => return .text ((← failed (store.recordText root)) ++ "\n")
  | ".gltf" => return .text (← failed do (← Gltf.ofScene store root).toText store false)
  | ".glb" => return .binary (Gltf.binary (← failed do (← Gltf.ofScene store root).toText store true))
  | _ =>
    throw (.notExported
      ("Unsupported output format: " ++ Text.quoted suffix ++ " (use .json, .gltf or .glb)"))

end Export

end ProceduralScene
