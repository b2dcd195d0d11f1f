import ProceduralScene.Expression.Scan
import ProceduralScene.Value.Display

/-!
Tokens of the reduced expression language: number literals, quoted texts, names, operators and `#` words, which
stand for themselves as texts. Blanks separate tokens and are dropped.
-/

set_option autoImplicit false

namespace ProceduralScene.Expression

inductive Token where
  | number (value : Value)
  | text (s : String)
  | name (s : String)
  | symbol (s : String)

/-- How a token is shown in a message; the end of the text is shown as null. -/
def Token.shown : Option Token → Except Failure String
  | none => .ok "None"
  | some (.number value) => value.display fun _ => .error .wrongKind
  | some (.text s) | some (.name s) | some (.symbol s) => .ok (Text.quoted s)

def longSymbols : List String := ["===", "!==", "==", "!=", "<=", ">=", "&&", "||", "**"]

def shortSymbols : List Char := "-+*/%<>!?:,()[]".toList

def isHexDigit (c : Char) : Bool :=
  c.isDigit || ('a' ≤ c && c ≤ 'f') || ('A' ≤ c && c ≤ 'F')

/-- Cuts digits with an optional point in or before them. -/
def cutMantissa? (text : List Char) : Option (List Char × List Char) :=
  let whole := text.takeWhile Text.isDecimal
  let rest := text.dropWhile Text.isDecimal
  match whole, rest with
  | [], '.' :: rest =>
    let fraction := rest.takeWhile Text.isDecimal
    if fraction.isEmpty then none else some ('.' :: fraction, rest.dropWhile Text.isDecimal)
  | [], _ => none
  | _ :: _, '.' :: rest =>
    some (whole ++ '.' :: rest.takeWhile Text.isDecimal, rest.dropWhile Text.isDecimal)
  | _ :: _, _ => some (whole, rest)

/-- Cuts an exponent, or nothing when none is complete. -/
def cutExponent (text : List Char) : List Char × List Char :=
  match text with
  | mark :: rest =>
    if mark == 'e' || mark == 'E' then
      let sign := rest.takeWhile fun c => c == '+' || c == '-'
      let digits := (rest.drop (sign.length)).takeWhile Text.isDecimal
      if sign.length ≤ 1 && !digits.isEmpty then
        (mark :: sign ++ digits, rest.drop (sign.length + digits.length))
      else ([], text)
    else ([], text)
  | [] => ([], [])

def cutNumber? (text : List Char) : Option (List Char × List Char) :=
  (cutMantissa? text).map fun (mantissa, rest) =>
    let (exponent, rest) := cutExponent rest
    (mantissa ++ exponent, rest)

def digitsValue (cs : List Char) : Nat :=
  cs.foldl (fun n c => 10 * n + (Text.digitValue? c).getD 0) 0

/-- The value of digits, a point and an exponent. -/
def decimalFloat (negative : Bool) (text : List Char) : Float :=
  let isMark (c : Char) : Bool := c == 'e' || c == 'E'
  let mantissa := text.takeWhile fun c => !isMark c
  let exponent := (text.dropWhile fun c => !isMark c).drop 1
  let fraction := (mantissa.dropWhile (· != '.')).drop 1
  let size : Int := digitsValue (exponent.filter Text.isDecimal)
  let power := if exponent.head? == some '-' then -size else size
  Number.ofDecimal negative (digitsValue (mantissa.filter Text.isDecimal)) (power - fraction.length)

/-- The integer or floating number that a literal denotes; an integer past the digit limit is refused. -/
def numberValue (text : List Char) : Except Failure Value :=
  if text.any fun c => c == '.' || c == 'e' || c == 'E' then .ok (.float (decimalFloat false text))
  else if text.length > Number.digitLimit then .error .badContent
  else .ok (.int (digitsValue text))

/-- Cuts a quoted literal that is closed. -/
def cutLiteral? : List Char → Option (List Char × List Char)
  | [] => none
  | quote :: rest =>
    if isQuote quote then
      match rest.dropWhile (· != quote) with
      | _ :: after => some (rest.takeWhile (· != quote), after)
      | [] => none
    else none

/-- Cuts the first token; the outer result is nothing where no token starts. Blanks give no token. -/
def cutToken? (text : List Char) : Option (Except Failure (Option Token) × List Char) :=
  match cutNumber? text with
  | some (digits, rest) => some ((numberValue digits).map fun value => some (.number value), rest)
  | none =>
  match cutLiteral? text with
  | some (content, rest) => some (.ok (some (.text (String.ofList content))), rest)
  | none =>
  match cutName? text with
  | some (name, rest) => some (.ok (some (.name (String.ofList name))), rest)
  | none =>
  match longSymbols.find? fun s => s.toList.isPrefixOf text with
  | some s => some (.ok (some (.symbol s)), text.drop s.length)
  | none =>
  match text with
  | [] => none
  | c :: rest =>
    if shortSymbols.contains c then some (.ok (some (.symbol (String.ofList [c]))), rest)
    else if c == '#' && rest.head?.any isHexDigit then
      some (.ok (some (.text (String.ofList (c :: rest.takeWhile isHexDigit)))), rest.dropWhile isHexDigit)
    else if Text.isSpace c then some (.ok none, rest.dropWhile Text.isSpace)
    else none

/-- The tokens of the text from `position` on; `whole` is the text that messages show. -/
def tokensFrom (whole : String) (position : Nat) : Nat → List Char → Except Failure (List Token)
  | 0, _ => .ok []
  | _ + 1, [] => .ok []
  | fuel + 1, text =>
    match cutToken? text with
    | none => .error (.expression (.unexpectedCharacter position (Text.quoted whole)))
    | some (found, rest) => do
      let found ← found
      let further ← tokensFrom whole (position + (text.length - rest.length)) fuel rest
      return found.toList ++ further

def tokenize (text : List Char) : Except Failure (List Token) :=
  tokensFrom (String.ofList text) 0 text.length text

end ProceduralScene.Expression
