import ProceduralScene.Yaml.Token

/-!
The nodes of a YAML document, before tags and plain scalars are given a meaning.
-/

set_option autoImplicit false

namespace ProceduralScene.Yaml

/-- The anchor and the tag in front of a node. -/
structure Properties where
  anchor : Option String
  tag : Option String

def Properties.none : Properties := ⟨.none, .none⟩

inductive Node where
  | scalar (properties : Properties) (style : ScalarStyle) (text : String)
  | sequence (properties : Properties) (items : List Node)
  | mapping (properties : Properties) (entries : List (Node × Node))
  | alias (name : String)

namespace Node

/-- A node that is not written. -/
def absent (properties : Properties) : Node := .scalar properties .plain ""

/-- A step that consumes tokens from the front. -/
abbrev Reader := StateT (List Token) (Except Fault)

def peek : Reader (Option Token) := return (← get).head?

def skip : Reader Unit := modify (·.drop 1)

def malformed {α : Type} : Reader α := throw .malformed

/-- Whether the next token is one of some tokens, or there is none. -/
def atMark (marks : List Token) : Reader Bool :=
  return (← peek).all fun token => marks.contains token

/-- Consumes a token, which has to come next. -/
def expect (token : Token) : Reader Unit := do
  if (← peek) == some token then skip else malformed

/-- The anchor and the tag at the start of the tokens, in either order. -/
def properties : List Token → Properties × List Token
  | .anchor anchor :: .tag tag :: rest => (⟨some anchor, some tag⟩, rest)
  | .tag tag :: .anchor anchor :: rest => (⟨some anchor, some tag⟩, rest)
  | .anchor anchor :: rest => (⟨some anchor, none⟩, rest)
  | .tag tag :: rest => (⟨none, some tag⟩, rest)
  | rest => (Properties.none, rest)

/-- Where a node may stand. -/
inductive Position where
  /-- In a flow collection. -/
  | flow
  | block
  /-- In a block where a sequence need not be indented. -/
  | entry
  deriving DecidableEq

/-- A node without content, which only its properties show. -/
def undecorated (found : Properties) : Reader Node :=
  if found.anchor.isSome || found.tag.isSome then pure (absent found) else malformed

mutual
def read (position : Position) : Nat → Reader Node
  | 0 => malformed
  | fuel + 1 => do
    let found ← modifyGet properties
    match ← peek with
    | some (.alias name) =>
      skip
      if found.anchor.isSome || found.tag.isSome then malformed else return .alias name
    | some (.scalar style text) =>
      skip
      return .scalar found style text
    | some .flowSequence =>
      skip
      return .sequence found (← flowItems true fuel)
    | some .flowMapping =>
      skip
      return .mapping found (← flowEntries true fuel)
    | some .blockEntry =>
      if position == .entry then return .sequence found (← looseItems fuel) else undecorated found
    | some .blockSequence =>
      if position == .flow then undecorated found
      else
        skip
        return .sequence found (← blockItems fuel)
    | some .blockMapping =>
      if position == .flow then undecorated found
      else
        skip
        return .mapping found (← blockEntries fuel)
    | _ => undecorated found

/-- A node, or an absent one before some tokens. -/
def readUnless (position : Position) (marks : List Token) : Nat → Reader Node
  | 0 => malformed
  | fuel + 1 => do
    if ← atMark marks then return absent Properties.none else read position fuel

def blockItems : Nat → Reader (List Node)
  | 0 => malformed
  | fuel + 1 => do
    match ← peek with
    | some .blockEnd =>
      skip
      return []
    | some .blockEntry =>
      skip
      let item ← readUnless .block [.blockEntry, .blockEnd] fuel
      return item :: (← blockItems fuel)
    | _ => malformed

/-- The items of a sequence that is not indented in its mapping. -/
def looseItems : Nat → Reader (List Node)
  | 0 => malformed
  | fuel + 1 => do
    match ← peek with
    | some .blockEntry =>
      skip
      let item ← readUnless .block [.blockEntry, .key, .value, .blockEnd] fuel
      return item :: (← looseItems fuel)
    | _ => return []

def blockEntries : Nat → Reader (List (Node × Node))
  | 0 => malformed
  | fuel + 1 => do
    match ← peek with
    | some .blockEnd =>
      skip
      return []
    | some .key =>
      skip
      let marks : List Token := [.key, .value, .blockEnd]
      let key ← readUnless .entry marks fuel
      let value ← if (← peek) == some .value then do
          skip
          readUnless .entry marks fuel
        else pure (absent Properties.none)
      return (key, value) :: (← blockEntries fuel)
    | _ => malformed

/-- The value behind a key of a flow collection. -/
def flowValue (closing : Token) : Nat → Reader Node
  | 0 => malformed
  | fuel + 1 => do
    if (← peek) == some .value then
      skip
      readUnless .flow [.flowEntry, closing] fuel
    else return absent Properties.none

/-- The key and the value behind the mark of a key. -/
def flowPair (closing : Token) : Nat → Reader (Node × Node)
  | 0 => malformed
  | fuel + 1 => do
    let key ← readUnless .flow [.value, .flowEntry, closing] fuel
    return (key, ← flowValue closing fuel)

/-- The items up to the end of a flow sequence; a key makes an item a mapping of its own. -/
def flowItems (first : Bool) : Nat → Reader (List Node)
  | 0 => malformed
  | fuel + 1 => do
    if !first && (← peek) != some .flowSequenceEnd then expect .flowEntry
    match ← peek with
    | some .flowSequenceEnd =>
      skip
      return []
    | some .key =>
      skip
      let pair ← flowPair .flowSequenceEnd fuel
      return .mapping Properties.none [pair] :: (← flowItems false fuel)
    | _ =>
      let item ← read .flow fuel
      return item :: (← flowItems false fuel)

def flowEntries (first : Bool) : Nat → Reader (List (Node × Node))
  | 0 => malformed
  | fuel + 1 => do
    if !first && (← peek) != some .flowMappingEnd then expect .flowEntry
    match ← peek with
    | some .flowMappingEnd =>
      skip
      return []
    | some .key =>
      skip
      let pair ← flowPair .flowMappingEnd fuel
      return pair :: (← flowEntries false fuel)
    | _ =>
      let key ← read .flow fuel
      return (key, absent Properties.none) :: (← flowEntries false fuel)
end

/-- The only node of a document; an empty one has none. -/
def readDocument (fuel : Nat) : Reader (Option Node) := do
  modify (·.dropWhile (· == .documentEnd))
  match ← peek with
  | none => return none
  | some token =>
    if token == .directive || token == .documentStart then
      modify (·.dropWhile (· == .directive))
      expect .documentStart
      return some (← readUnless .block [.directive, .documentStart, .documentEnd] fuel)
    else return some (← read .block fuel)

def ofTokens (tokens : List Token) : Except Fault (Option Node) := do
  let (node, rest) ← (readDocument (4 * tokens.length + 4)).run tokens
  if rest.all (· == .documentEnd) then return node else throw .malformed

end Node

end ProceduralScene.Yaml
