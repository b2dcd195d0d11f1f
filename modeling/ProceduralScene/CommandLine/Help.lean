import ProceduralScene.CommandLine.Arguments

/-!
The commands, their options and the help pages.
-/

set_option autoImplicit false

namespace ProceduralScene.CommandLine

def helpOption : OptionForm := ⟨["--help"], false⟩

def paramOption : OptionForm := ⟨["-p", "--param"], true⟩

def outputOption : OptionForm := ⟨["-o", "--output"], true⟩

def logOption : OptionForm := ⟨["--log", "--no-log"], false⟩

def runForm : CommandForm where
  name := "run"
  arguments := ["SCHEMA_FILE"]
  options := [paramOption, outputOption, ⟨["--warn-as-error"], true⟩, ⟨["--suppress-warning"], true⟩, logOption,
    ⟨["--emit-manifest"], true⟩, helpOption]

def evalForm : CommandForm where
  name := "eval"
  arguments := ["EXPRESSION"]
  options := [⟨["-c", "--context"], true⟩, helpOption]

def pathsForm : CommandForm where
  name := "paths"
  arguments := ["SCHEMA_FILE"]
  options := [paramOption, helpOption]

def regenerateForm : CommandForm where
  name := "regenerate"
  arguments := ["SCHEMA_FILE", "PATH"]
  options := [⟨["-s", "--set"], true⟩, ⟨["--global"], false⟩, paramOption, outputOption, logOption, helpOption]

def commandForms : List CommandForm := [runForm, evalForm, pathsForm, regenerateForm]

/-- The options in front of a command. -/
def groupForm : CommandForm where
  name := ""
  arguments := []
  options := [⟨["--version"], false⟩, helpOption]

def usageOf (form : CommandForm) : String :=
  "Usage: shapeweave " ++ form.name ++ " [OPTIONS] " ++ " ".intercalate form.arguments

def groupUsage : String := "Usage: shapeweave [OPTIONS] COMMAND [ARGS]..."

def lines (texts : List String) : String := String.join (texts.map (· ++ "\n"))

def groupHelp : String := lines [
  groupUsage,
  "",
  "  shapeweave: schema-driven procedural scene generation.",
  "",
  "Options:",
  "  --version  Show the version and exit.",
  "  --help     Show this message and exit.",
  "",
  "Commands:",
  "  eval        Evaluate one expression and print the result.",
  "  paths       List the registry paths a schema materializes.",
  "  regenerate  Execute a schema, change parameters, and rebuild the subtree...",
  "  run         Execute a schema and output the generated scene."]

def runHelp : String := lines [
  usageOf runForm,
  "",
  "  Execute a schema and output the generated scene.",
  "",
  "Options:",
  "  -p, --param TEXT         Override a global parameter: name=value. May be",
  "                           repeated.",
  "  -o, --output PATH        Write the scene to .json, .gltf or .glb. Prints JSON",
  "                           to stdout when omitted.",
  "  --warn-as-error TEXT     Comma-separated diagnostic codes to treat as errors",
  "                           (e.g. X01,R01).",
  "  --suppress-warning TEXT  Comma-separated diagnostic codes to silence (e.g.",
  "                           X02).",
  "  --log / --no-log         Print interpreter logging to stderr.",
  "  --emit-manifest PATH     Write a JSON run manifest to this path.",
  "  --help                   Show this message and exit."]

def evalHelp : String := lines [
  usageOf evalForm,
  "",
  "  Evaluate one expression and print the result.",
  "",
  "Options:",
  "  -c, --context TEXT  Bind a variable: name=value. May be repeated.",
  "  --help              Show this message and exit."]

def pathsHelp : String := lines [
  usageOf pathsForm,
  "",
  "  List the registry paths a schema materializes.",
  "",
  "Options:",
  "  -p, --param TEXT  Override a global parameter: name=value. May be repeated.",
  "  --help            Show this message and exit."]

def regenerateHelp : String := lines [
  usageOf regenerateForm,
  "",
  "  Execute a schema, change parameters, and rebuild the subtree at PATH.",
  "",
  "Options:",
  "  -s, --set TEXT     Parameter to change before rebuilding: name=value. May be",
  "                     repeated.",
  "  --global           Apply --set values as global parameters instead of to the",
  "                     template at PATH.",
  "  -p, --param TEXT   Override a global parameter: name=value. May be repeated.",
  "  -o, --output PATH  Write the whole scene after regeneration (.json, .gltf or",
  "                     .glb).",
  "  --log / --no-log   Print interpreter logging to stderr.",
  "  --help             Show this message and exit."]

def helpOf (form : CommandForm) : String :=
  match form.name with
  | "run" => runHelp
  | "eval" => evalHelp
  | "paths" => pathsHelp
  | _ => regenerateHelp

end ProceduralScene.CommandLine
