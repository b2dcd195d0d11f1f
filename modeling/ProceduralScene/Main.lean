import ProceduralScene.CommandLine.Run

/-!
The command line program. It reads the files that its arguments name, runs the command and carries out what the
command gives.
-/

set_option autoImplicit false

namespace ProceduralScene.CommandLine

/-- The texts of the files that some of the arguments name, by their plain paths. -/
def readFiles (items : List String) : IO (List (String × String)) :=
  items.foldlM (fun (found : List (String × String)) (item : String) => do
    try
      let text ← IO.FS.readFile item
      return (ProceduralScene.FilePath.plain item, text) :: found
    catch _ => return found) []

def writeFile (file : String × FileContent) : IO Unit :=
  IO.FS.writeBinFile file.1 ⟨file.2.toBytes.toArray⟩

end ProceduralScene.CommandLine

open ProceduralScene.CommandLine

def main (items : List String) : IO UInt32 := do
  let known ← readFiles items
  let outcome := execute (fun path => known.lookup (ProceduralScene.FilePath.plain path)) items
  outcome.files.reverse.forM writeFile
  (← IO.getStdout).putStr outcome.out
  (← IO.getStderr).putStr outcome.err
  match outcome.crash with
  | some failure => (← IO.getStderr).putStrLn failure.message
  | none => pure ()
  return UInt32.ofNat outcome.exit
