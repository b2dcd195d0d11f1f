import ProceduralScene.CommandLine.Suggestion

/-!
The arguments of a command line. Options may stand among positional arguments; a value may be joined to its option,
and `--` ends the options.
-/

set_option autoImplicit false

namespace ProceduralScene.CommandLine

structure OptionForm where
  /-- The spellings, short and long. -/
  spellings : List String
  takesValue : Bool

structure CommandForm where
  name : String
  /-- The names of the positional arguments. -/
  arguments : List String
  options : List OptionForm

/-- What is wrong with a command line. -/
inductive UsageFault where
  | noSuchOption (spelling : String) (similar : List String)
  | valueMissing (spelling : String)
  | valueUnexpected (spelling : String)
  | noSuchCommand (name : String)
  | argumentMissing (name : String)
  | argumentsLeft (values : List String)
  | badValue (name reason : String)
  /-- Nothing was asked for. -/
  | empty
  deriving DecidableEq, Repr

def UsageFault.message : UsageFault → String
  | .noSuchOption spelling similar => "No such option: " ++ spelling ++ Suggestion.describe similar
  | .valueMissing spelling => "Option '" ++ spelling ++ "' requires an argument."
  | .valueUnexpected spelling => "Option '" ++ spelling ++ "' does not take a value."
  | .noSuchCommand name => "No such command '" ++ name ++ "'."
  | .argumentMissing name => "Missing argument '" ++ name ++ "'."
  | .argumentsLeft [value] => "Got unexpected extra argument (" ++ value ++ ")"
  | .argumentsLeft values => "Got unexpected extra arguments (" ++ " ".intercalate values ++ ")"
  | .badValue name reason => "Invalid value for " ++ name ++ ": " ++ reason
  | .empty => ""

/-- The arguments that were found: positional ones, and options by their first spelling. -/
structure Arguments where
  positional : List String
  options : List (String × String)

namespace Arguments

def values (spelling : String) (arguments : Arguments) : List String :=
  arguments.options.filterMap fun option => if option.1 == spelling then some option.2 else none

/-- The last value of an option. -/
def last? (spelling : String) (arguments : Arguments) : Option String :=
  (arguments.values spelling).getLast?

def has (spelling : String) (arguments : Arguments) : Bool :=
  arguments.options.any (·.1 == spelling)

def addOption (form : OptionForm) (value : String) (arguments : Arguments) : Arguments :=
  { arguments with options := arguments.options ++ [(form.spellings.headD "", value)] }

end Arguments

namespace CommandForm

def find? (form : CommandForm) (spelling : String) : Option OptionForm :=
  form.options.find? (·.spellings.contains spelling)

def isLong (spelling : String) : Bool := "--".toList.isPrefixOf spelling.toList

def longSpellings (form : CommandForm) : List String :=
  form.options.flatMap fun option => option.spellings.filter isLong

/-- The options that a group of letters behind a single dash stands for. A value that is left over is in the next
argument. -/
def letters (form : CommandForm) :
    List Char → Arguments → Except UsageFault (Arguments × Option (String × OptionForm))
  | [], found => .ok (found, none)
  | c :: rest, found =>
    let spelling := String.ofList ['-', c]
    match form.find? spelling with
    | none => .error (.noSuchOption spelling [])
    | some option =>
      if !option.takesValue then letters form rest (found.addOption option "")
      else if rest.isEmpty then .ok (found, some (spelling, option))
      else .ok (found.addOption option (String.ofList rest), none)

/-- The option of an argument that starts with a dash. -/
def option (form : CommandForm) (argument : String) (found : Arguments) :
    Except UsageFault (Arguments × Option (String × OptionForm)) :=
  let cs := argument.toList
  let spelling := String.ofList (cs.takeWhile (· != '='))
  match cs with
  | '-' :: '-' :: _ =>
    match form.find? spelling with
    | none => .error (.noSuchOption spelling (Suggestion.closeWords spelling form.longSpellings))
    | some option =>
      if cs.contains '=' then
        if option.takesValue then
          .ok (found.addOption option (String.ofList ((cs.dropWhile (· != '=')).drop 1)), none)
        else .error (.valueUnexpected spelling)
      else if option.takesValue then .ok (found, some (spelling, option))
      else .ok (found.addOption option "", none)
  | _ => form.letters (cs.drop 1) found

/-- Sorts arguments into options and positional ones. `pending` is an option whose value comes next. -/
def sort (form : CommandForm) (pending : Option (String × OptionForm)) (found : Arguments) :
    List String → Except UsageFault Arguments
  | [] =>
    match pending with
    | some (spelling, _) => .error (.valueMissing spelling)
    | none => .ok found
  | argument :: rest =>
    match pending with
    | some (_, option) => form.sort none (found.addOption option argument) rest
    | none =>
      if argument == "--" then .ok { found with positional := found.positional ++ rest }
      else if argument.toList.head? == some '-' && argument.length > 1 then
        match form.option argument found with
        | .ok (found, pending) => form.sort pending found rest
        | .error fault => .error fault
      else form.sort none { found with positional := found.positional ++ [argument] } rest

def read (form : CommandForm) (arguments : List String) : Except UsageFault Arguments :=
  form.sort none ⟨[], []⟩ arguments

end CommandForm

end ProceduralScene.CommandLine
