import ProceduralScene.Build.Run
import ProceduralScene.CommandLine.Help
import ProceduralScene.Export.Manifest

/-!
The commands: run a schema, evaluate an expression, list the paths of a schema, and rebuild a subtree. A command
reads files through a function and gives what it prints and writes.
-/

set_option autoImplicit false

namespace ProceduralScene.CommandLine

/-- What a command has printed and written so far, and how it ends. -/
structure Outcome where
  exit : Nat
  out : String
  err : String
  /-- The files that were written, the latest first. -/
  files : List (String × FileContent)
  /-- A failure that no command expects. -/
  crash : Option Failure

/-- Why a command ends early. -/
inductive Stop where
  /-- The command line is wrong. -/
  | usage (form : Option CommandForm) (fault : UsageFault)
  | failed (failure : Failure)
  | crashed (failure : Failure)
  /-- All that was asked for was shown. -/
  | done

abbrev Command := ExceptT Stop (StateM Outcome)

/-- Reads the text of a file, if it exists. -/
abbrev Files := String → Option String

namespace Command

def print (text : String) : Command Unit :=
  modify fun outcome => { outcome with out := outcome.out ++ text ++ "\n" }

def complain (text : String) : Command Unit :=
  modify fun outcome => { outcome with err := outcome.err ++ text ++ "\n" }

def write (path : String) (content : FileContent) : Command Unit :=
  modify fun outcome => { outcome with files := (path, content) :: outcome.files }

/-- A result whose failure is reported. -/
def orFail {α : Type} (result : Except Failure α) : Command α :=
  match result with
  | .ok value => pure value
  | .error failure => throw (.failed failure)

/-- A result whose failure is not expected. -/
def orCrash {α : Type} (result : Except Failure α) : Command α :=
  match result with
  | .ok value => pure value
  | .error failure => throw (.crashed failure)

/-- An assignment cut at its first equals sign. -/
def cutAssignment (item : String) : Option (String × String) :=
  let cs := item.toList
  let name := Text.trim (cs.takeWhile (· != '='))
  match cs.dropWhile (· != '=') with
  | [] => none
  | _ :: raw => if name.isEmpty then none else some (String.ofList name, String.ofList raw)

/-- The value of an assignment: YAML, or else the text itself. -/
def assignedValue (raw : String) : Command Value :=
  if (Text.trim raw.toList).isEmpty then pure (.text "")
  else
    match loadValue raw with
    | .ok value => pure value
    | .error .malformed => pure (.text raw)
    | .error .unusable => throw (.crashed .badContent)

/-- Reads assignments of the form `name=value`. -/
def assignments (form : CommandForm) (spelling : String) (items : List String) : Command Bindings :=
  items.foldlM (fun (bindings : Bindings) item => do
    match cutAssignment item with
    | some (name, raw) => return bindings.put name (← assignedValue raw)
    | none =>
      throw (.usage (some form) (.badValue spelling ("expected name=value, got " ++ Text.quoted item)))) []

def levels : List String := ["warning", "error"]

def echoDiagnostics (log : DiagnosticLog) : Command Unit :=
  log.messages.forM fun entry =>
    if levels.contains entry.level then
      let place := match entry.path with
        | some path => if path == "" then "" else " at " ++ path
        | none => ""
      complain (entry.level ++ ": " ++ DiagnosticLog.warningText entry ++ place)
    else pure ()

/-- Runs an operation on a session. -/
def onSession {α : Type} (action : SessionAction α) (session : Session) : Except Failure α × Session :=
  action.run.run session

def newSession (policy : WarningPolicy) : Session :=
  Session.new Limits.standard policy [] (fun _ => .error .absent) Factory.stock Scene.empty

/-- Runs the schema in a file. -/
def executeFile (files : Files) (path : String) (parameters : Bindings) (session : Session) :
    Command (NodeId × Session) := do
  let (result, session) := onSession (SessionAction.execute (.text ((files path).getD "")) parameters) session
  return (← orCrash result, session)

/-- Applies the warning policy, then writes or prints the scene. -/
def finish (session : Session) (root : NodeId) (output : Option String) : Command Unit := do
  orFail session.log.raiseForPolicy
  let store := session.scene.store
  match output with
  | none => print (← orCrash (store.recordText root))
  | some path =>
    write path (← orFail (Export.content store root path))
    complain ("Wrote: " ++ path)

/-- The codes that an option names. -/
def codes (text : Option String) : Command (List String) :=
  match text with
  | some text => orFail (parseCodes text)
  | none => pure []

def policyOf (arguments : Arguments) : Command WarningPolicy := do
  let escalated ← codes (arguments.last? "--warn-as-error")
  let silenced ← codes (arguments.last? "--suppress-warning")
  return ⟨escalated, silenced⟩

def outputOf (arguments : Arguments) : Option String :=
  (arguments.last? "-o").map FilePath.plain

def writeManifest (files : Files) (session : Session) (root : NodeId) (input : String)
    (output : Option String) (parameters : Bindings) (path : String) : Command Unit := do
  let store := session.scene.store
  let written := (← get).files
  let source := (written.lookup input).getD (.text ((files input).getD ""))
  let artifact := output.bind fun path => (written.lookup path).map fun content => Artifact.mk path content
  let manifest := Manifest.ofScene store root session.log parameters ⟨input, source⟩ artifact
  write path (.text (← orCrash (manifest.text store.describe)))

def runSchema (files : Files) (arguments : Arguments) (file : String) : Command Unit := do
  let policy ← policyOf arguments
  let parameters ← assignments runForm "-p" (arguments.values "-p")
  let (root, session) ← executeFile files file parameters (newSession policy)
  echoDiagnostics session.log
  let output := outputOf arguments
  finish session root output
  match arguments.last? "--emit-manifest" with
  | some path => writeManifest files session root (FilePath.plain file) output parameters (FilePath.plain path)
  | none => pure ()

/-- The printed form of a value: a text as it is, anything else as JSON. -/
def printed (value : Value) : Except Failure String :=
  match value with
  | .text s => .ok s
  | value => Json.write (.plain Store.empty.describe) none value

def evalExpression (arguments : Arguments) (expression : String) : Command Unit := do
  let bindings ← assignments evalForm "-c" (arguments.values "-c")
  let log := DiagnosticLog.new WarningPolicy.none Limits.standard.messages.toNat
  let evaluator := Expression.evaluator [] [] Limits.standard.conditionalPasses.toNat log
  let (result, evaluator) :=
    (Evaluator.evaluate Store.empty.describe (.text expression) (Context.ofBindings bindings) none).run.run evaluator
  let value ← orCrash result
  echoDiagnostics evaluator.log
  print (← orCrash (printed value))

def paths (files : Files) (arguments : Arguments) (file : String) : Command Unit := do
  let parameters ← assignments pathsForm "-p" (arguments.values "-p")
  let (_, session) ← executeFile files file parameters (newSession WarningPolicy.none)
  echoDiagnostics session.log
  session.paths.forM print

def regenerate (files : Files) (arguments : Arguments) (file path : String) : Command Unit := do
  let parameters ← assignments regenerateForm "-p" (arguments.values "-p")
  let (root, session) ← executeFile files file parameters (newSession WarningPolicy.none)
  let changes ← assignments regenerateForm "-s" (arguments.values "-s")
  let place := if arguments.has "--global" then none else some path
  let session := changes.foldl (fun (session : Session) change =>
    session.setParameter change.1 change.2 place) session
  let (result, session) := onSession (SessionAction.regenerate path) session
  let node ← match result with
    | .ok node => pure node
    | .error (.unresolved reason) => throw (.failed (.unresolved reason))
    | .error failure => throw (.crashed failure)
  echoDiagnostics session.log
  let leaves := (node.map session.scene.store.countLeaves).getD 0
  let report := "Regenerated: " ++ path ++ " (" ++ toString leaves ++ " leaves)"
  let output := outputOf arguments
  if output.isNone then complain report else print report
  finish session root output

/-- The positional arguments of a command, whose file has to exist. -/
def positional (files : Files) (form : CommandForm) (arguments : Arguments) : Command (List String) := do
  let given := arguments.positional
  form.arguments.zipIdx.forM fun (name, i) =>
    match given[i]? with
    | none => throw (.usage (some form) (.argumentMissing name))
    | some value =>
      if name == "SCHEMA_FILE" && (files value).isNone then
        throw (.usage (some form) (.badValue "'SCHEMA_FILE'" ("Path '" ++ value ++ "' does not exist.")))
      else pure ()
  if form.arguments.length < given.length then
    throw (.usage (some form) (.argumentsLeft (given.drop form.arguments.length)))
  return given

/-- Runs one command on its arguments. -/
def perform (files : Files) (form : CommandForm) (items : List String) : Command Unit := do
  let arguments ← match form.read items with
    | .ok arguments => pure arguments
    | .error fault => throw (.usage (some form) fault)
  if arguments.has "--help" then
    modify fun outcome => { outcome with out := outcome.out ++ helpOf form }
    throw .done
  match form.name, ← positional files form arguments with
  | "run", [file] => runSchema files arguments file
  | "eval", [expression] => evalExpression arguments expression
  | "paths", [file] => paths files arguments file
  | "regenerate", [file, path] => regenerate files arguments file path
  | _, _ => pure ()

/-- The options in front of the command, and the command with its arguments. -/
def splitGroup : List String → List String × List String
  | [] => ([], [])
  | item :: rest =>
    if item == "--" then ([], rest)
    else if item.toList.head? == some '-' && item.length > 1 then
      let (options, command) := splitGroup rest
      (item :: options, command)
    else ([], item :: rest)

def dispatch (files : Files) (items : List String) : Command Unit := do
  if items.isEmpty then throw (.usage none .empty)
  let (options, command) := splitGroup items
  let found ← match groupForm.read options with
    | .ok found => pure found
    | .error fault => throw (.usage none fault)
  match found.options with
  | (spelling, _) :: _ =>
    if spelling == "--version" then
      print (Manifest.toolName ++ ", version " ++ Manifest.toolVersion)
    else
      modify fun outcome => { outcome with out := outcome.out ++ groupHelp }
    throw .done
  | [] =>
    match command with
    | [] => throw (.usage none .empty)
    | name :: items =>
      match commandForms.find? fun form => form.name == name with
      | some form => perform files form items
      | none => throw (.usage none (.noSuchCommand name))

end Command

/-- What is printed about a wrong command line. -/
def usageText (form : Option CommandForm) (fault : UsageFault) : String :=
  if fault == .empty then groupHelp
  else
    let usage := (form.map usageOf).getD groupUsage
    let command := (form.map fun form => " " ++ form.name).getD ""
    lines [usage, "Try 'shapeweave" ++ command ++ " --help' for help.", "", "Error: " ++ fault.message]

/-- Runs a command line. -/
def execute (files : Files) (items : List String) : Outcome :=
  let (result, outcome) := (Command.dispatch files items).run.run ⟨0, "", "", [], none⟩
  match result with
  | .ok () | .error .done => outcome
  | .error (.usage form fault) => { outcome with exit := 2, err := outcome.err ++ usageText form fault }
  | .error (.failed failure) =>
    { outcome with exit := 1, err := outcome.err ++ "Error: " ++ failure.message ++ "\n" }
  | .error (.crashed failure) => { outcome with exit := 1, crash := some failure }

end ProceduralScene.CommandLine
