import ProceduralScene.Text.CharClass

/-!
Scanning of expression text. A quoted literal runs from a quote to the next quote of the same kind, or to the end
of the text; what stands in a literal is never code. Calls are cut at the parenthesis that closes them, and their
arguments at the commas outside quotes, parentheses and brackets.
-/

set_option autoImplicit false

namespace ProceduralScene.Expression

def isQuote (c : Char) : Bool := c == '\'' || c == '"'

/-- The quote that is open after a character. -/
def stepQuote (quote : Option Char) (c : Char) : Option Char :=
  match quote with
  | some q => if c == q then none else some q
  | none => if isQuote c then some c else none

def quoteAfter (quote : Option Char) (cs : List Char) : Option Char :=
  cs.foldl stepQuote quote

/-- For each character whether it belongs to a quoted literal, its quotes included. -/
def literalMarks (quote : Option Char) : List Char → List Bool
  | [] => []
  | c :: rest => (quote.isSome || isQuote c) :: literalMarks (stepQuote quote c) rest

/-- The places of the quoted literals of a text that starts at `position`: of each its first one and the one behind it. -/
def literalSpans (position : Nat) (text : List Char) : List (Nat × Nat) :=
  match text with
  | [] => []
  | c :: rest =>
    if isQuote c then
      match rest.idxOf? c with
      | some n => (position, position + n + 2) :: literalSpans (position + n + 2) (rest.drop (n + 1))
      | none => [(position, position + rest.length + 1)]
    else literalSpans (position + 1) rest
  termination_by text.length
  decreasing_by all_goals (simp only [List.length_drop, List.length_cons]; omega)

def inSpans (spans : List (Nat × Nat)) (position : Nat) : Bool :=
  spans.any fun span => span.1 ≤ position && position < span.2

/-- How many characters stand before the parenthesis that brings the depth from one to zero. -/
def closingOffset (quote : Option Char) (depth : Int) : List Char → Option Nat
  | [] => none
  | c :: rest =>
    if quote.isSome then (closingOffset (stepQuote quote c) depth rest).map (· + 1)
    else if c == '(' then (closingOffset none (depth + 1) rest).map (· + 1)
    else if c == ')' then if depth == 1 then some 0 else (closingOffset none (depth - 1) rest).map (· + 1)
    else (closingOffset (stepQuote none c) depth rest).map (· + 1)

/-- The position of the parenthesis that closes the one at `start`. -/
def matchingParen (text : List Char) (start : Nat) : Option Nat :=
  (closingOffset none 0 (text.drop start)).map (· + start)

/-- Cuts the text behind an opening parenthesis at the one that closes it. -/
def cutAtClosing (text : List Char) : Option (List Char × List Char) :=
  (closingOffset none 1 text).map fun n => (text.take n, text.drop (n + 1))

def bracketStep (depth : Int) (c : Char) : Int :=
  if c == '(' || c == '[' then depth + 1
  else if c == ')' || c == ']' then depth - 1
  else depth

/-- Argument texts cut at top-level commas, from the state reached so far; `current` is reversed. -/
def splitArgsFrom (quote : Option Char) (depth : Int) (current : List Char) : List Char → List (List Char)
  | [] =>
    let tail := Text.trim current.reverse
    if tail.isEmpty then [] else [tail]
  | c :: rest =>
    if quote.isSome then splitArgsFrom (stepQuote quote c) depth (c :: current) rest
    else if c == ',' && depth == 0 then Text.trim current.reverse :: splitArgsFrom none depth [] rest
    else splitArgsFrom (stepQuote quote c) (bracketStep depth c) (c :: current) rest

/-- The trimmed arguments of a call; an empty last one is dropped. -/
def splitArgs (text : List Char) : List (List Char) :=
  splitArgsFrom none 0 [] text

/-- A text that starts and ends with the same quote. -/
def isQuoted (text : List Char) : Bool :=
  match text, text.getLast? with
  | first :: _ :: _, some last => first == last && isQuote first
  | _, _ => false

def isNameStart (c : Char) : Bool := c.isAlpha || c == '_'

def isNameChar (c : Char) : Bool := c.isAlphanum || c == '_'

/-- Cuts a name from the start of the text. -/
def cutName? : List Char → Option (List Char × List Char)
  | [] => none
  | c :: rest =>
    if isNameStart c then some (c :: rest.takeWhile isNameChar, rest.dropWhile isNameChar) else none

/-- Whether a word may start or end between two neighbours. -/
def isBoundary (before after : Option Char) : Bool :=
  before.any Text.isWord != after.any Text.isWord

/-- The rest of the text behind an initial `word`. -/
def dropWord? : List Char → List Char → Option (List Char)
  | [], text => some text
  | c :: word, d :: text => if c == d then dropWord? word text else none
  | _ :: _, [] => none

/-- Matches `word` and an opening parenthesis at the start of the text; the rest stands behind the parenthesis. -/
def matchCall? (word : List Char) (before : Option Char) (text : List Char) : Option (List Char) :=
  if isBoundary before text.head? then
    match (dropWord? word text).map (·.dropWhile Text.isSpace) with
    | some ('(' :: rest) => some rest
    | _ => none
  else none

/-- A call found in a text. -/
structure CallSite where
  /-- The text before the call. -/
  before : List Char
  /-- The name, blanks and the opening parenthesis. -/
  head : List Char
  /-- The text behind the opening parenthesis. -/
  rest : List Char

/-- The first call of `word` in a text that follows the character `previous`. -/
def findCall? (word : List Char) (previous : Option Char) : List Char → Option CallSite
  | [] => none
  | c :: text =>
    match matchCall? word previous (c :: text) with
    | some rest => some ⟨[], (c :: text).take (text.length + 1 - rest.length), rest⟩
    | none => (findCall? word (some c) text).map fun site => { site with before := c :: site.before }

/-- A character before a name that keeps it from being a call. -/
def blocksCall (previous : Option Char) : Bool :=
  previous.any fun c => c == '.' || c == '_' || c == '$'

/-- Whether `word` stands at the start of the text as a whole word. -/
def matchWord? (word : List Char) (before : Option Char) (text : List Char) : Option (List Char) :=
  match dropWord? word text with
  | some rest =>
    let last := (word.getLast?).or before
    if isBoundary before text.head? && isBoundary last rest.head? then some rest else none
  | none => none

/-- Whether `word` stands anywhere in a text that follows `previous`. -/
def hasWord (word : List Char) (previous : Option Char) : List Char → Bool
  | [] => (matchWord? word previous []).isSome
  | c :: rest => (matchWord? word previous (c :: rest)).isSome || hasWord word (some c) rest

/-- A character before a name that makes it part of a longer one. -/
def continuesName (previous : Option Char) : Bool :=
  previous.any fun c => Text.isWord c || c == '.' || c == '$'

/-- Whether `word` stands at the start of the text as an operand of its own and not as a call. -/
def matchOperand? (word : List Char) (before : Option Char) (text : List Char) : Option (List Char) :=
  if continuesName before then none
  else
    match matchWord? word before text with
    | some rest => if (rest.dropWhile Text.isSpace).head? == some '(' then none else some rest
    | none => none

/-- Replaces every operand `word` outside literals. `skip` counts the characters that belong to a match already
made, and `quote` is the one open at the start of the text. -/
def replaceOperand (word replacement : List Char) :
    Option Char → Option Char → Nat → List Char → List Char
  | _, _, _ + 1, [] => []
  | quote, before, 0, [] => if (matchOperand? word before []).isSome && quote.isNone then replacement else []
  | quote, _, skip + 1, c :: rest => replaceOperand word replacement (stepQuote quote c) (some c) skip rest
  | quote, before, 0, c :: rest =>
    let further (skip : Nat) := replaceOperand word replacement (stepQuote quote c) (some c) skip rest
    match matchOperand? word before (c :: rest) with
    | none => c :: further 0
    | some _ =>
      let found := if quote.isSome || isQuote c then word else replacement
      match word.length with
      | 0 => found ++ c :: further 0
      | n + 1 => found ++ further n

end ProceduralScene.Expression
