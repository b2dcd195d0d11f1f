import ProceduralScene.Yaml.Cursor

/-!
The texts of scalars. In quoted and plain scalars the lines are folded: one line break is a blank, more of them
are one line break less. Block scalars keep or fold the lines of an indented block.
-/

set_option autoImplicit false

namespace ProceduralScene.Yaml

/-- The gap between two parts of a scalar: blanks of a line, or line breaks once there is one. -/
structure Gap where
  blanks : List Char
  /-- The first line break. -/
  first : List Char
  /-- The line breaks after the first one. -/
  further : List Char
  /-- Whether a line was left. -/
  folded : Bool

def Gap.none : Gap := ⟨[], [], [], false⟩

/-- The text that a gap stands for. -/
def Gap.text (gap : Gap) : List Char :=
  if gap.folded then
    if gap.first.head? == some '\n' then if gap.further.isEmpty then [' '] else gap.further
    else gap.first ++ gap.further
  else gap.blanks

/-- Moves over blanks and line breaks. Below the column `least` a tab must not stand at the start of a line. -/
def scanGap (least : Nat) : Nat → Gap → Cursor → Except Fault (Gap × Cursor)
  | 0, gap, cursor => .ok (gap, cursor)
  | fuel + 1, gap, cursor =>
    if isBlank cursor.current then
      if gap.folded && cursor.column < least && cursor.current == '\t' then .error .malformed
      else if gap.folded then scanGap least fuel gap cursor.skip
      else scanGap least fuel { gap with blanks := gap.blanks ++ [cursor.current] } cursor.skip
    else if isBreak cursor.current then
      if gap.folded then
        scanGap least fuel { gap with further := gap.further ++ cursor.breakText } cursor.skipBreak
      else
        scanGap least fuel { gap with blanks := [], first := cursor.breakText, folded := true } cursor.skipBreak
    else .ok (gap, cursor)

def hexValue (cs : List Char) : Option Nat :=
  cs.foldlM (fun n c =>
    if '0' ≤ c && c ≤ '9' then some (16 * n + (c.toNat - 48))
    else if 'a' ≤ c && c ≤ 'f' then some (16 * n + (c.toNat - 87))
    else if 'A' ≤ c && c ≤ 'F' then some (16 * n + (c.toNat - 55))
    else none) 0

/-- The character of an escape with a fixed count of hexadecimal digits. -/
def scanCode (count : Nat) (cursor : Cursor) : Except Fault (Char × Cursor) :=
  let digits := cursor.rest.take count
  match if digits.length == count then hexValue digits else none with
  | some n =>
    if (0xd800 ≤ n && n ≤ 0xdfff) || 0x10ffff < n then .error .malformed
    else .ok (Char.ofNat n, cursor.skipBy count)
  | none => .error .malformed

/-- The character of an escape, from behind the backslash on. -/
def scanEscape (cursor : Cursor) : Except Fault (Char × Cursor) :=
  let simple (n : Nat) : Except Fault (Char × Cursor) := .ok (Char.ofNat n, cursor.skip)
  match cursor.current with
  | '0' => simple 0
  | 'a' => simple 7
  | 'b' => simple 8
  | 't' | '\t' => simple 9
  | 'n' => simple 10
  | 'v' => simple 11
  | 'f' => simple 12
  | 'r' => simple 13
  | 'e' => simple 27
  | ' ' => simple 32
  | '"' => simple 34
  | '/' => simple 47
  | '\\' => simple 92
  | 'N' => simple 0x85
  | '_' => simple 0xa0
  | 'L' => simple 0x2028
  | 'P' => simple 0x2029
  | 'x' => scanCode 2 cursor.skip
  | 'u' => scanCode 4 cursor.skip
  | 'U' => scanCode 8 cursor.skip
  | _ => .error .malformed

/-- The characters up to a gap, the closing quote or an escaped line break, reversed onto `found`. The flag says
that a line break was escaped. -/
def scanQuotedPart (quote : Char) : Nat → List Char → Cursor → Except Fault (List Char × Bool × Cursor)
  | 0, found, cursor => .ok (found, false, cursor)
  | fuel + 1, found, cursor =>
    let c := cursor.current
    if isGap c then .ok (found, false, cursor)
    else if c == quote then
      if quote == '\'' && cursor.peek 1 == '\'' then scanQuotedPart quote fuel ('\'' :: found) (cursor.skipBy 2)
      else .ok (found, false, cursor)
    else if quote == '"' && c == '\\' then
      if isBreak (cursor.peek 1) then .ok (found, true, cursor.skip.skipBreak)
      else
        match scanEscape cursor.skip with
        | .ok (c, cursor) => scanQuotedPart quote fuel (c :: found) cursor
        | .error fault => .error fault
    else scanQuotedPart quote fuel (c :: found) cursor.skip

/-- A quoted scalar from behind its opening quote on; `found` is reversed. -/
def scanQuotedFrom (quote : Char) : Nat → List Char → Cursor → Except Fault (List Char × Cursor)
  | 0, _, _ => .error .malformed
  | fuel + 1, found, cursor => do
    if cursor.atDocumentMark || cursor.atEnd then throw .malformed
    let (found, escaped, cursor) ← scanQuotedPart quote (cursor.rest.length + 1) found cursor
    if !escaped && cursor.current == quote then return (found.reverse, cursor.skip)
    else
      let (gap, cursor) ← scanGap 0 (cursor.rest.length + 1) { Gap.none with folded := escaped } cursor
      scanQuotedFrom quote fuel (gap.text.reverse ++ found) cursor

def scanQuoted (quote : Char) (cursor : Cursor) : Except Fault (List Char × Cursor) :=
  scanQuotedFrom quote (cursor.rest.length + 1) [] cursor.skip

def isFlowMark (c : Char) : Bool := c == ',' || c == '[' || c == ']' || c == '\x7b' || c == '\x7d'

/-- How many characters stand before the end of a part of a plain scalar. -/
def plainPartLength (inFlow : Bool) : List Char → Except Fault Nat
  | [] => .ok 0
  | c :: rest =>
    let next := rest.headD endMark
    if isGap c then .ok 0
    else if inFlow && c == ':' && (isFlowMark next || next == '?') then .error .malformed
    else if (c == ':' && isGap next) || (inFlow && isFlowMark c) then .ok 0
    else return (← plainPartLength inFlow rest) + 1

/-- A plain scalar from a gap on. Gives its text, whether its last gap left a line, and the place behind that gap.
`least` is the column below which no further line belongs to the scalar. -/
def scanPlainFrom (inFlow : Bool) (least : Nat) :
    Nat → List Char → Gap → Cursor → Except Fault (List Char × Bool × Cursor)
  | 0, found, gap, cursor => .ok (found, gap.folded, cursor)
  | fuel + 1, found, gap, cursor => do
    if cursor.atDocumentMark || cursor.current == '#' then return (found, gap.folded, cursor)
    let size ← plainPartLength inFlow cursor.rest
    let part := cursor.rest.take size
    let found := if size == 0 then found else found ++ gap.text ++ part
    let left := if size == 0 then gap.folded else false
    let cursor := cursor.skipBy size
    if !isBlank cursor.current && !isBreak cursor.current then return (found, left, cursor)
    else
      let (gap, cursor) ← scanGap least (cursor.rest.length + 1) Gap.none cursor
      if !inFlow && cursor.column < least then return (found, gap.folded, cursor)
      else scanPlainFrom inFlow least fuel found gap cursor

def scanPlain (inFlow : Bool) (least : Nat) (cursor : Cursor) : Except Fault (List Char × Bool × Cursor) :=
  scanPlainFrom inFlow least (cursor.rest.length + 1) [] Gap.none cursor

/-- What becomes of the line breaks at the end of a block scalar. -/
inductive Chomping where
  | strip
  | clip
  | keep
  deriving DecidableEq

def chomping? (c : Char) : Option Chomping :=
  if c == '-' then some .strip else if c == '+' then some .keep else none

def isWidth (c : Char) : Bool := '1' ≤ c && c ≤ '9'

/-- The header of a block scalar: how it ends and by how much it is indented, in either order. -/
def scanHeader (cursor : Cursor) : Except Fault (Chomping × Option Nat × Cursor) :=
  let width (c : Char) : Nat := c.toNat - 48
  let (chomping, increment, cursor) :=
    match chomping? cursor.current with
    | some chomping =>
      if isWidth (cursor.peek 1) then (chomping, some (width (cursor.peek 1)), cursor.skipBy 2)
      else (chomping, none, cursor.skip)
    | none =>
      if isWidth cursor.current then
        match chomping? (cursor.peek 1) with
        | some chomping => (chomping, some (width cursor.current), cursor.skipBy 2)
        | none => (.clip, some (width cursor.current), cursor.skip)
      else (.clip, none, cursor)
  let behind := cursor.dropWhile isBlank
  let behind := if behind.current == '#' then behind.dropWhile fun c => !isBreak c else behind
  if isBreakOrEnd behind.current then .ok (chomping, increment, if behind.atEnd then behind else behind.skipBreak)
  else .error .malformed

/-- Moves over empty lines and indentation. Without a known indent it gives the largest column that was met. -/
def scanBlockGap (indent : Option Nat) :
    Nat → Nat → List Char → Cursor → Except Fault (List Char × Nat × Cursor)
  | 0, deepest, breaks, cursor => .ok (breaks, deepest, cursor)
  | fuel + 1, deepest, breaks, cursor =>
    let outside (cursor : Cursor) : Bool := indent.all fun n => cursor.column < n
    let spaces := (cursor.rest.takeWhile (· == ' ')).length
    let cursor := cursor.skipBy (match indent with
      | some n => min spaces (n - cursor.column)
      | none => spaces)
    let deepest := max deepest cursor.column
    if outside cursor && cursor.current == '\t' then .error .malformed
    else if isBreak cursor.current then
      scanBlockGap indent fuel deepest (breaks ++ cursor.breakText) cursor.skipBreak
    else .ok (breaks, deepest, cursor)

/-- What was read of a block scalar up to a line. -/
structure BlockState where
  text : List Char
  /-- The line break of the line before. -/
  pending : List Char
  /-- The breaks of the empty lines after it. -/
  empty : List Char
  /-- Whether the line before starts with a blank. -/
  indented : Bool

/-- The line breaks before a line. A folded block joins two lines that start with no blank. -/
def BlockState.join (literal : Bool) (state : BlockState) (indented : Bool) : List Char :=
  if !literal && state.pending.head? == some '\n' && !state.indented && !indented then
    if state.empty.isEmpty then [' '] else state.empty
  else state.pending ++ state.empty

/-- The lines of a block with a known indent. -/
def scanBlockLines (literal : Bool) (indent : Nat) :
    Nat → BlockState → Cursor → Except Fault (BlockState × Cursor)
  | 0, state, cursor => .ok (state, cursor)
  | fuel + 1, state, cursor =>
    if cursor.column == indent && !cursor.atEnd then do
      let indented := isBlank cursor.current
      let (line, cursor) := cursor.takeWhile fun c => !isBreak c
      let text := state.text ++ state.join literal indented ++ line
      let pending := if cursor.atEnd then [] else cursor.breakText
      let cursor := if cursor.atEnd then cursor else cursor.skipBreak
      let (empty, _, cursor) ← scanBlockGap (some indent) (cursor.rest.length + 1) 0 [] cursor
      scanBlockLines literal indent fuel ⟨text, pending, empty, indented⟩ cursor
    else .ok (state, cursor)

/-- A block scalar from behind its indicator on; `parent` is the indent of the block around it. -/
def scanBlock (literal : Bool) (parent : Int) (cursor : Cursor) : Except Fault (List Char × Cursor) := do
  let (chomping, increment, cursor) ← scanHeader cursor
  let known := increment.map fun n => (max parent 0).toNat + n
  let (empty, deepest, cursor) ← scanBlockGap known (cursor.rest.length + 1) 0 [] cursor
  let indent := known.getD (max deepest (max 1 (parent + 1).toNat))
  let (state, cursor) ← scanBlockLines literal indent (cursor.rest.length + 1) ⟨[], [], empty, false⟩ cursor
  let tail := match chomping with
    | .strip => []
    | .clip => state.pending
    | .keep => state.pending ++ state.empty
  return (state.text ++ tail, cursor)

end ProceduralScene.Yaml
