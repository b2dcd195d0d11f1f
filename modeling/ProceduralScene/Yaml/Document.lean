import ProceduralScene.Yaml.Node
import ProceduralScene.Yaml.Plain

/-!
The value of a YAML document. Tags choose how a scalar is read, anchors let a node stand in several places, `<<`
merges mappings, and a key must not occur twice.
-/

set_option autoImplicit false

namespace ProceduralScene.Yaml

/-- The values of the anchors met so far, the latest first. A mapping also keeps its entries for merging. -/
abbrev Anchors := List (String × Value)

/-- A step that may set anchors. -/
abbrev Building := StateT Anchors (Except Fault)

namespace Building

def malformed {α : Type} : Building α := throw .malformed

def setAnchor (properties : Properties) (value : Value) : Building Unit :=
  match properties.anchor with
  | some name => modify ((name, value) :: ·)
  | none => pure ()

def booleanOf (s : String) : Except Fault Value :=
  let word := String.ofList (s.toList.map Char.toLower)
  if ["yes", "y", "true", "on"].contains word then .ok (.bool true)
  else if ["no", "n", "false", "off"].contains word then .ok (.bool false)
  else .error .unusable

def plainValue (s : String) : Except Fault Value :=
  match plainKind s with
  | .null => .ok .null
  | .bool b => .ok (.bool b)
  | .int => intOf s
  | .float => floatOf s
  | .text => .ok (.text s)
  | .merge | .default => .error .malformed

def coreName? (tag : String) : Option String :=
  let lead := Scan.coreTag.toList
  if lead.isPrefixOf tag.toList then some (String.ofList (tag.toList.drop lead.length)) else none

def taggedScalar (tag s : String) : Except Fault Value :=
  if tag == "!" then .ok (.text s)
  else
    match coreName? tag with
    | some "str" => .ok (.text s)
    | some "int" => intOf s
    | some "float" => floatOf s
    | some "bool" => booleanOf s
    | some "null" => .ok .null
    | _ => .error .malformed

def scalarValue (properties : Properties) (style : ScalarStyle) (s : String) : Except Fault Value :=
  match properties.tag, style with
  | some tag, _ => taggedScalar tag s
  | none, .plain => plainValue s
  | none, .other => .ok (.text s)

/-- A tag on a collection has to name its kind. -/
def checkTag (expected : String) (properties : Properties) : Building Unit :=
  match properties.tag with
  | none => pure ()
  | some tag => if tag == "!" || coreName? tag == some expected then pure () else malformed

def sameKey (a b : Key) : Bool := (Value.ofKey a).same (Value.ofKey b)

/-- Adds an entry; a key that is there already is refused. -/
def addEntry (entries : List (Key × Value)) (key : Key) (value : Value) : Except Fault (List (Key × Value)) :=
  if entries.any fun entry => sameKey entry.1 key then .error .malformed else .ok (entries ++ [(key, value)])

/-- Writes an entry over one with the same key. -/
def writeEntry (entries : List (Key × Value)) (entry : Key × Value) : List (Key × Value) :=
  match entries.find? fun found => sameKey found.1 entry.1 with
  | some found => Value.putEntry found.1 entry.2 entries
  | none => entries ++ [entry]

/-- The entries that a merged value contributes, the strongest last. -/
def mergedEntries : Value → Except Fault (List (Key × Value))
  | .map entries => .ok entries
  | .list items => do
    let maps ← items.mapM fun item =>
      match item with
      | .map entries => .ok entries
      | _ => .error .malformed
    return maps.reverse.flatten
  | _ => .error .malformed

def isMerge : Node → Bool
  | .scalar properties .plain s => properties.tag.isNone && plainKind s == .merge
  | _ => false

/-- A key; a plain `=` is a text there. -/
def keyOf (value : Value) : Except Fault Key :=
  match value.keyOf? with
  | some key => .ok key
  | none => .error .malformed

def isDefault : Node → Bool
  | .scalar properties .plain s => properties.tag.isNone && plainKind s == .default
  | _ => false

mutual
def ofNode : Node → Building Value
  | .alias name => do
    match (← get).lookup name with
    | some value => return value
    | none => malformed
  | .scalar properties style s => do
    let value ← (scalarValue properties style s : Except Fault Value)
    setAnchor properties value
    return value
  | .sequence properties items => do
    checkTag "seq" properties
    let value := Value.list (← ofNodes items)
    setAnchor properties value
    return value
  | .mapping properties entries => do
    checkTag "map" properties
    let (merges, own) ← ofEntries entries
    let value ← match merges with
      | [] => do
        let found ← own.foldlM (fun found entry => addEntry found entry.1 entry.2) ([] : List (Key × Value))
        pure (Value.map found)
      | [merged] => do
        let lower ← (mergedEntries merged : Except Fault (List (Key × Value)))
        pure (Value.map ((lower ++ own).foldl writeEntry []))
      | _ => malformed
    setAnchor properties value
    return value

def ofNodes : List Node → Building (List Value)
  | [] => pure []
  | node :: rest => return (← ofNode node) :: (← ofNodes rest)

/-- The merged values of a mapping and its own entries. -/
def ofEntries : List (Node × Node) → Building (List Value × List (Key × Value))
  | [] => pure ([], [])
  | (key, node) :: rest => do
    if isMerge key then
      let merged ← ofNode node
      let (merges, own) ← ofEntries rest
      return (merged :: merges, own)
    else
      let found ← if isDefault key then pure (Value.text "=") else ofNode key
      let name ← (keyOf found : Except Fault Key)
      let value ← ofNode node
      let (merges, own) ← ofEntries rest
      return (merges, (name, value) :: own)
end

end Building

/-- The value of a document; an empty one is null. -/
def load (text : String) : Except Fault Value := do
  match ← Node.ofTokens (← Token.ofText text) with
  | some node => return (← (Building.ofNode node).run []).1
  | none => return .null

end ProceduralScene.Yaml
