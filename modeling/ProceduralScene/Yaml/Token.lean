import ProceduralScene.Yaml.Scalar

/-!
The tokens of a YAML document. Indentation opens and closes blocks, and what turns out to be a key gets its key
token in front of it once the colon behind it is met.
-/

set_option autoImplicit false

namespace ProceduralScene.Yaml

inductive ScalarStyle where
  | plain
  | other
  deriving DecidableEq, Repr

inductive Token where
  | directive
  | documentStart
  | documentEnd
  | blockSequence
  | blockMapping
  | blockEnd
  | flowSequence
  | flowSequenceEnd
  | flowMapping
  | flowMappingEnd
  | blockEntry
  | flowEntry
  | key
  | value
  | alias (name : String)
  | anchor (name : String)
  | tag (name : String)
  | scalar (style : ScalarStyle) (text : String)
  deriving DecidableEq, Repr

/-- A place at which a key may have started. -/
structure PossibleKey where
  /-- How many tokens stand before it. -/
  tokenCount : Nat
  /-- Whether something that is no key would be an error there. -/
  required : Bool
  index : Nat
  line : Nat
  column : Nat

/-- What was read of a document. -/
structure Scan where
  cursor : Cursor
  tokens : Array Token
  /-- The columns of the open blocks, innermost first. -/
  indents : List Int
  /-- The possible key of each open flow collection and of the block around them, innermost first. -/
  keys : List (Option PossibleKey)
  /-- Whether a key may start here. -/
  keyAllowed : Bool

namespace Scan

def ofText (cs : List Char) : Scan := ⟨Cursor.ofText cs, #[], [], [none], true⟩

def indent (scan : Scan) : Int := scan.indents.headD (-1)

def column (scan : Scan) : Int := scan.cursor.column

def inFlow (scan : Scan) : Bool := scan.keys.length > 1

def push (token : Token) (scan : Scan) : Scan := { scan with tokens := scan.tokens.push token }

def moveTo (cursor : Cursor) (scan : Scan) : Scan := { scan with cursor := cursor }

def allowKey (allowed : Bool) (scan : Scan) : Scan := { scan with keyAllowed := allowed }

def setKey (key : Option PossibleKey) (scan : Scan) : Scan :=
  { scan with keys := key :: scan.keys.drop 1 }

def currentKey (scan : Scan) : Option PossibleKey := (scan.keys.head?).join

/-- Gives up the possible key of the innermost level. -/
def forgetKey (scan : Scan) : Except Fault Scan :=
  match scan.currentKey with
  | some key => if key.required then .error .malformed else .ok (scan.setKey none)
  | none => .ok scan

/-- Notes that a key may start here. -/
def noteKey (scan : Scan) : Except Fault Scan :=
  if scan.keyAllowed then do
    let scan ← scan.forgetKey
    let required := !scan.inFlow && scan.indent == scan.column
    return scan.setKey
      (some ⟨scan.tokens.size, required, scan.cursor.index, scan.cursor.line, scan.cursor.column⟩)
  else .ok scan

/-- The longest text that a key may have. -/
def longestKey : Nat := 1024

/-- Possible keys on other lines, and those too far away, are none any more. -/
def dropStaleKeys (scan : Scan) : Except Fault Scan := do
  let keys ← scan.keys.mapM fun key =>
    match key with
    | some found =>
      if found.line != scan.cursor.line || longestKey < scan.cursor.index - found.index then
        if found.required then .error .malformed else .ok none
      else .ok key
    | none => .ok none
  return { scan with keys := keys }

/-- Moves over blanks, comments and line breaks. -/
def skipGap : Nat → Scan → Scan
  | 0, scan => scan
  | fuel + 1, scan =>
    let tabs := scan.inFlow || !scan.keyAllowed
    let cursor := scan.cursor.dropWhile fun c => c == ' ' || (tabs && c == '\t')
    let cursor := if cursor.current == '#' then cursor.dropWhile fun c => !isBreak c else cursor
    if isBreak cursor.current then
      skipGap fuel { scan with cursor := cursor.skipBreak, keyAllowed := scan.keyAllowed || !scan.inFlow }
    else { scan with cursor := cursor }

/-- Closes the blocks that are indented deeper than a column. -/
def closeBlocks (column : Int) (scan : Scan) : Scan :=
  if scan.inFlow then scan
  else
    let closed := scan.indents.takeWhile fun indent => column < indent
    { scan with
      indents := scan.indents.drop closed.length
      tokens := scan.tokens ++ (closed.map fun _ => Token.blockEnd) }

/-- Opens a block at a column that is deeper than the innermost block; its token goes before the tokens from
`place` on. -/
def openBlock (token : Token) (column : Int) (place : Nat) (scan : Scan) : Scan :=
  if !scan.inFlow && scan.indent < column then
    { scan with indents := column :: scan.indents, tokens := scan.tokens.insertIdxIfInBounds place token }
  else scan

def openBlockHere (token : Token) (scan : Scan) : Scan :=
  scan.openBlock token scan.column scan.tokens.size

/-- A mark of the document that closes all blocks. -/
def documentMark (token : Token) (scan : Scan) : Except Fault Scan := do
  let scan ← (scan.closeBlocks (-1)).forgetKey
  return ((scan.push token).allowKey false).moveTo (scan.cursor.skipBy 3)

/-- A directive up to the end of its line. -/
def directive (scan : Scan) : Except Fault Scan := do
  let scan ← (scan.closeBlocks (-1)).forgetKey
  let (line, cursor) := scan.cursor.takeWhile fun c => !isBreak c
  let name := (line.drop 1).takeWhile fun c => !isBlank c
  if name == "YAML".toList || name == "TAG".toList then
    return ((scan.push .directive).allowKey false).moveTo cursor
  else throw .malformed

def openFlow (token : Token) (scan : Scan) : Except Fault Scan := do
  let scan ← scan.noteKey
  return { (scan.push token).allowKey true with
    keys := none :: scan.keys, cursor := scan.cursor.skip }

def closeFlow (token : Token) (scan : Scan) : Except Fault Scan := do
  let scan ← scan.forgetKey
  let keys := if scan.inFlow then scan.keys.drop 1 else scan.keys
  return { (scan.push token).allowKey false with keys := keys, cursor := scan.cursor.skip }

def flowEntry (scan : Scan) : Except Fault Scan := do
  let scan ← scan.forgetKey
  return ((scan.push .flowEntry).allowKey true).moveTo scan.cursor.skip

def blockEntry (scan : Scan) : Except Fault Scan := do
  if !scan.inFlow && !scan.keyAllowed then throw .malformed
  let scan ← (scan.openBlockHere .blockSequence).forgetKey
  return ((scan.push .blockEntry).allowKey true).moveTo scan.cursor.skip

def explicitKey (scan : Scan) : Except Fault Scan := do
  if !scan.inFlow && !scan.keyAllowed then throw .malformed
  let scan ← (scan.openBlockHere .blockMapping).forgetKey
  return ((scan.push .key).allowKey !scan.inFlow).moveTo scan.cursor.skip

/-- A colon. The possible key before it becomes a key. -/
def value (scan : Scan) : Except Fault Scan := do
  let scan ← match scan.currentKey with
    | some key =>
      let scan := { scan.setKey none with tokens := scan.tokens.insertIdxIfInBounds key.tokenCount .key }
      pure ((scan.openBlock .blockMapping key.column key.tokenCount).allowKey false)
    | none =>
      if !scan.inFlow && !scan.keyAllowed then throw .malformed
      else (scan.openBlockHere .blockMapping |>.allowKey !scan.inFlow).forgetKey
  return (scan.push .value).moveTo scan.cursor.skip

def isNameChar (c : Char) : Bool := c.isAlphanum || c == '-' || c == '_'

/-- What may follow a name. -/
def endsName (c : Char) : Bool := isGap c || "?:,]\x7d%@`".toList.contains c

/-- The name behind the mark of an anchor or an alias. -/
def name (make : String → Token) (scan : Scan) : Except Fault Scan := do
  let scan ← scan.noteKey
  let (found, cursor) := scan.cursor.skip.takeWhile isNameChar
  if found.isEmpty || !endsName cursor.current then throw .malformed
  else return ((scan.push (make (String.ofList found))).allowKey false).moveTo cursor

def coreTag : String := "tag:yaml.org,2002:"

/-- The full name of a tag that is written in short. -/
def fullTag (cs : List Char) : Except Fault String :=
  match cs with
  | '!' :: '!' :: suffix =>
    if suffix.isEmpty then .error .malformed else .ok (coreTag ++ String.ofList suffix)
  | '!' :: '<' :: rest =>
    if rest.getLast? == some '>' && rest.length > 1 then .ok (String.ofList rest.dropLast) else .error .malformed
  | '!' :: rest => if rest.contains '!' then .error .malformed else .ok (String.ofList ('!' :: rest))
  | _ => .error .malformed

def tag (scan : Scan) : Except Fault Scan := do
  let scan ← scan.noteKey
  let inFlow := scan.inFlow
  let (found, cursor) := scan.cursor.takeWhile fun c => !isGap c && !(inFlow && isFlowMark c)
  return ((scan.push (.tag (← fullTag found))).allowKey false).moveTo cursor

def blockScalar (literal : Bool) (scan : Scan) : Except Fault Scan := do
  let scan ← (scan.allowKey true).forgetKey
  let (text, cursor) ← scanBlock literal scan.indent scan.cursor.skip
  return (scan.push (.scalar .other (String.ofList text))).moveTo cursor

def quotedScalar (quote : Char) (scan : Scan) : Except Fault Scan := do
  let scan ← scan.noteKey
  let (text, cursor) ← scanQuoted quote scan.cursor
  return ((scan.push (.scalar .other (String.ofList text))).allowKey false).moveTo cursor

def plainScalar (scan : Scan) : Except Fault Scan := do
  let scan ← scan.noteKey
  let (text, left, cursor) ← scanPlain scan.inFlow (scan.indent + 1).toNat scan.cursor
  return ((scan.push (.scalar .plain (String.ofList text))).allowKey left).moveTo cursor

/-- Whether a plain scalar may start here. -/
def startsPlain (scan : Scan) : Bool :=
  let c := scan.cursor.current
  let next := scan.cursor.peek 1
  !(isGap c || "-?:,[]\x7b\x7d#&*!|>'\"%@`".toList.contains c) ||
    (c == '-' && !isBlank next) ||
    (!scan.inFlow && (c == '?' || c == ':') && !isGap next)

/-- Reads the next token. -/
def next (scan : Scan) : Except Fault Scan :=
  let c := scan.cursor.current
  let gapBehind := isGap (scan.cursor.peek 1)
  if scan.cursor.column == 0 && c == '%' then scan.directive
  else if scan.cursor.isIndicator '-' then scan.documentMark .documentStart
  else if scan.cursor.isIndicator '.' then scan.documentMark .documentEnd
  else if c == '[' then scan.openFlow .flowSequence
  else if c == '\x7b' then scan.openFlow .flowMapping
  else if c == ']' then scan.closeFlow .flowSequenceEnd
  else if c == '\x7d' then scan.closeFlow .flowMappingEnd
  else if c == ',' then scan.flowEntry
  else if c == '-' && gapBehind then scan.blockEntry
  else if c == '?' && (scan.inFlow || gapBehind) then scan.explicitKey
  else if c == ':' && (scan.inFlow || gapBehind) then scan.value
  else if c == '*' then scan.name .alias
  else if c == '&' then scan.name .anchor
  else if c == '!' then scan.tag
  else if c == '|' && !scan.inFlow then scan.blockScalar true
  else if c == '>' && !scan.inFlow then scan.blockScalar false
  else if c == '\'' || c == '"' then scan.quotedScalar c
  else if scan.startsPlain then scan.plainScalar
  else .error .malformed

/-- Reads tokens to the end of the text. -/
def toEnd : Nat → Scan → Except Fault (Array Token)
  | 0, _ => .error .malformed
  | fuel + 1, scan => do
    let scan ← (scan.skipGap (scan.cursor.rest.length + 1)).dropStaleKeys
    let scan := scan.closeBlocks scan.column
    if scan.cursor.atEnd then return (← (scan.closeBlocks (-1)).forgetKey).tokens
    else toEnd fuel (← scan.next)

end Scan

/-- The text without a byte order mark at its start. -/
def dropMark : List Char → List Char
  | c :: rest => if c.toNat == 0xfeff then rest else c :: rest
  | [] => []

/-- The tokens of a document. -/
def Token.ofText (text : String) : Except Fault (List Token) :=
  let cs := dropMark text.toList
  if cs.all isPrintable then return (← Scan.toEnd (cs.length + 1) (Scan.ofText cs)).toList
  else .error .malformed

end ProceduralScene.Yaml
