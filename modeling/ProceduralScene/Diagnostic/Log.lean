import ProceduralScene.Text.Quoted
import ProceduralScene.Failure

/-!
The record of every recovery made during a run. A log keeps the latest messages up to a cap, and for each code
its count and its first record, which stay when the message itself is evicted. A policy escalates codes after the
run and silences the warnings of others.
-/

set_option autoImplicit false

namespace ProceduralScene

structure Diagnostic where
  level : String
  code : String
  text : String
  path : Option String
  deriving DecidableEq, Repr

structure WarningPolicy where
  escalated : List String
  silenced : List String

def WarningPolicy.none : WarningPolicy := ⟨[], []⟩

/-- The documented codes, in ascending order. -/
def knownCodes : List String :=
  ["A01", "H01", "H02", "H03", "L01", "N01", "R01", "S01", "X01", "X02"]

structure DiagnosticLog where
  policy : WarningPolicy
  cap : Nat
  /-- The latest records, oldest first. -/
  messages : List Diagnostic
  /-- How many records each code has, in the order of their first records. -/
  counts : List (String × Nat)
  /-- The first record of each code, in order. -/
  first : List (String × Diagnostic)
  /-- Every record sent on to the log stream, newest first. -/
  stream : List Diagnostic

namespace DiagnosticLog

def new (policy : WarningPolicy) (cap : Nat) : DiagnosticLog := ⟨policy, cap, [], [], [], []⟩

def increment (code : String) : List (String × Nat) → List (String × Nat)
  | [] => [(code, 1)]
  | (found, n) :: rest => if found == code then (found, n + 1) :: rest else (found, n) :: increment code rest

/-- Adds a message and evicts the oldest ones past the cap. -/
def retain (cap : Nat) (messages : List Diagnostic) (entry : Diagnostic) : List Diagnostic :=
  let all := messages ++ [entry]
  all.drop (all.length - cap)

def add (entry : Diagnostic) (log : DiagnosticLog) : DiagnosticLog :=
  { log with
    messages := retain log.cap log.messages entry
    counts := increment entry.code log.counts
    first := if log.first.any (·.1 == entry.code) then log.first else log.first ++ [(entry.code, entry)]
    stream := entry :: log.stream }

def record (code text : String) (path : Option String) (log : DiagnosticLog) : DiagnosticLog :=
  log.add ⟨"warning", code, text, path⟩

def info (text : String) (path : Option String) (log : DiagnosticLog) : DiagnosticLog :=
  log.add ⟨"info", "I00", text, path⟩

def count (code : String) (log : DiagnosticLog) : Nat :=
  (log.counts.lookup code).getD 0

def codes (log : DiagnosticLog) : List String :=
  log.counts.map (·.1)

def clear (log : DiagnosticLog) : DiagnosticLog :=
  { log with messages := [], counts := [], first := [] }

/-- Whether a record is issued as a warning. -/
def warns (policy : WarningPolicy) (entry : Diagnostic) : Bool :=
  (entry.level == "warning" || entry.level == "error") && !policy.silenced.contains entry.code

def warningText (entry : Diagnostic) : String :=
  "[" ++ entry.code ++ "] " ++ entry.text

/-- The first record with an escalated code. -/
def escalation? (log : DiagnosticLog) : Option Diagnostic :=
  (log.first.find? fun found => log.policy.escalated.contains found.1).map (·.2)

def raiseForPolicy (log : DiagnosticLog) : Except Failure Unit :=
  match log.escalation? with
  | none => .ok ()
  | some entry => .error (.escalated (warningText entry))

end DiagnosticLog

/-- Reads codes separated by commas; blanks around a code and empty parts are ignored. -/
def parseCodes (text : String) : Except Failure (List String) :=
  (text.splitOn ",").foldlM (fun codes part =>
    let code := Text.trimText part
    if code == "" || codes.contains code then .ok codes
    else if knownCodes.contains code then .ok (codes ++ [code])
    else
      let known := ", ".intercalate (knownCodes.map Text.quoted)
      .error (.rejected ("Unknown diagnostic code: " ++ Text.quoted code ++ " (known: [" ++ known ++ "])"))) []

end ProceduralScene
