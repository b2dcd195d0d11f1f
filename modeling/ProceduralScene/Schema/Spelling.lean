import ProceduralScene.Expression.Scan
import ProceduralScene.Value.Basic

/-!
Older spellings in expressions. A variable may be written `ctx.name`, constants and functions may be qualified by
`Math.`, and comparisons may have one equals sign too many; all are brought to the current form.
-/

set_option autoImplicit false

namespace ProceduralScene.Spelling

open Expression

/-- A rule sees the character before a place and the text from there on. It gives what stands for the first
characters and how many they are. -/
abbrev Rule := Option Char → List Char → Option (List Char × Nat)

/-- Applies a rule from left to right. `skip` counts the characters of a match already made. -/
def apply (rule : Rule) : Option Char → Nat → List Char → List Char
  | _, _, [] => []
  | _, skip + 1, c :: rest => apply rule (some c) skip rest
  | before, 0, c :: rest =>
    match rule before (c :: rest) with
    | some (found, size + 1) => found ++ apply rule (some c) size rest
    | _ => c :: apply rule (some c) 0 rest

/-- The rest behind a word that starts at a word boundary. -/
def qualified? (word : List Char) (before : Option Char) (text : List Char) : Option (List Char) :=
  if before.any Text.isWord then none else dropWord? word text

/-- The form `ctx.name` is the variable `$name`. -/
def contextVariable : Rule := fun before text => do
  let rest ← qualified? "ctx.".toList before text
  let (name, behind) ← cutName? rest
  return ('$' :: name, text.length - behind.length)

def endsWord (rest : List Char) : Bool := !rest.head?.any Text.isWord

/-- The forms `Math.PI` and `Math.E` are named constants. -/
def constant : Rule := fun before text => do
  let rest ← qualified? "Math.".toList before text
  match rest with
  | 'P' :: 'I' :: behind => if endsWord behind then some ("pi".toList, 7) else none
  | 'E' :: behind => if endsWord behind then some (['e'], 6) else none
  | _ => none

/-- The form `Math.name(` is a call of the function. -/
def call : Rule := fun before text => do
  let rest ← qualified? "Math.".toList before text
  let (name, behind) ← cutName? rest
  match behind.dropWhile Text.isSpace with
  | '(' :: inner => some (name ++ ['('], text.length - inner.length)
  | _ => none

/-- Replaces a text by another one. -/
def literal (old new : List Char) : Rule := fun _ text =>
  (dropWord? old text).map fun _ => (new, old.length)

def rules : List Rule :=
  [contextVariable, constant, call, literal "===".toList "==".toList, literal "!==".toList "!=".toList]

/-- The text with every older spelling replaced, one rule after the other. -/
def modernText (text : String) : String :=
  String.ofList (rules.foldl (fun cs rule => apply rule none 0 cs) text.toList)

mutual
/-- Replaces older spellings in all texts of a value. -/
def modern : Value → Value
  | .text s => .text (modernText s)
  | .list items => .list (modernItems items)
  | .map entries => .map (modernEntries entries)
  | value => value

def modernItems : List Value → List Value
  | [] => []
  | x :: rest => modern x :: modernItems rest

def modernEntries : List (Key × Value) → List (Key × Value)
  | [] => []
  | (key, x) :: rest => (key, modern x) :: modernEntries rest
end

end ProceduralScene.Spelling
