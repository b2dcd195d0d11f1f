import ProceduralScene.Scene.Node

/-!
The store of scene nodes. Nodes refer to each other by identity: a container lists its children and every node
knows its parent, and adding or removing a child keeps the two sides in agreement.
-/

set_option autoImplicit false

namespace ProceduralScene

structure Store where
  nodes : Array Node
  materials : Array Material

namespace Store

/-- A store without nodes, whose first material is the fallback. -/
def empty : Store := ⟨#[], #[Material.fallback]⟩

def fallbackMaterial : MaterialId := 0

def get? (store : Store) (id : NodeId) : Option Node := store.nodes[id]?

def size (store : Store) : Nat := store.nodes.size

def create (node : Node) (store : Store) : NodeId × Store :=
  (store.nodes.size, { store with nodes := store.nodes.push node })

def modify (id : NodeId) (change : Node → Node) (store : Store) : Store :=
  { store with nodes := store.nodes.modify id change }

def createMaterial (material : Material) (store : Store) : MaterialId × Store :=
  (store.materials.size, { store with materials := store.materials.push material })

def material (store : Store) (id : MaterialId) : Material :=
  store.materials.getD id Material.fallback

def childrenOf (store : Store) (id : NodeId) : List NodeId :=
  ((store.get? id).map fun node => node.payload.children).getD []

def parentOf (store : Store) (id : NodeId) : Option NodeId :=
  (store.get? id).bind (·.parent)

def nameOf (store : Store) (id : NodeId) : String :=
  ((store.get? id).map (·.name)).getD ""

/-- Whether a node exists and its payload satisfies a test. -/
def holds (store : Store) (test : Payload → Bool) (id : NodeId) : Bool :=
  (store.get? id).any fun node => test node.payload

def titleOf (store : Store) (id : NodeId) : String :=
  ((store.get? id).map fun node => node.payload.title).getD "Node"

def isDisposed (store : Store) (id : NodeId) : Bool :=
  (store.get? id).any (·.disposed)

def hasLiveGeometry (store : Store) (id : NodeId) : Bool :=
  (store.get? id).any Node.liveGeometry

def setParent (parent : Option NodeId) (node : Node) : Node := { node with parent := parent }

/-- A container with its children changed; other nodes stay as they are. -/
def changeChildren (change : List NodeId → List NodeId) (node : Node) : Node :=
  match node.payload with
  | .container children => { node with payload := .container (change children) }
  | _ => node

/-- Takes a child out of a container. The child has no parent afterwards. -/
def remove (container child : NodeId) (store : Store) : Store :=
  (store.modify container (changeChildren fun children => children.erase child)).modify child (setParent none)

/-- Takes a node out of the container that it is in. -/
def detach (child : NodeId) (store : Store) : Store :=
  match store.parentOf child with
  | some container => store.remove container child
  | none => store

/-- Puts a node at the end of a container, taking it out of the one that it was in. -/
def add (container child : NodeId) (store : Store) : Store :=
  ((store.detach child).modify child (setParent (some container))).modify container
    (changeChildren fun children => children ++ [child])

/-- A node and everything below it down to a depth, every node before its children. -/
def walkWithin (store : Store) : Nat → NodeId → List NodeId
  | 0, id => [id]
  | depth + 1, id => id :: (store.childrenOf id).flatMap (store.walkWithin depth)

/-- A node and everything below it, every node before its children. A tree is never deeper than the store has
nodes. -/
def walk (store : Store) (id : NodeId) : List NodeId :=
  store.walkWithin store.size id

/-- The first node of a walk with a name. -/
def find? (store : Store) (id : NodeId) (name : String) : Option NodeId :=
  (store.walk id).find? fun found => store.nameOf found == name

def drawables (store : Store) (id : NodeId) : List NodeId :=
  (store.walk id).filter (store.holds Payload.isDrawable)

/-- How many nodes under a node, itself included, are no containers. -/
def countLeaves (store : Store) (id : NodeId) : Nat :=
  (store.walk id).countP fun found => !store.holds Payload.isContainer found

/-- Copies a node and everything below it down to a depth. -/
def cloneWithin : Nat → NodeId → Store → NodeId × Store
  | depth, id, store =>
    match store.get? id with
    | none => (id, store)
    | some node =>
      let (copy, fresh) := store.create node.copyWithoutChildren
      match depth with
      | 0 => (copy, fresh)
      | depth + 1 =>
        (copy, node.payload.children.foldl (fun grown child =>
          let (childCopy, grown) := cloneWithin depth child grown
          grown.add copy childCopy) fresh)

/-- A deep copy of a node, without a parent. -/
def clone (id : NodeId) (store : Store) : NodeId × Store :=
  cloneWithin store.size id store

/-- The first curve or field that a walk meets. -/
def firstBelow (store : Store) (test : Payload → Bool) (id : NodeId) : Option NodeId :=
  (store.walk id).find? (store.holds test)

/-- The curve that a value stands for: itself, the one it carries, or the first one below it. -/
def findCurve (store : Store) : Value → Option NodeId
  | .node id =>
    if store.holds Payload.isCurve id then some id
    else
      match (store.get? id).bind (·.carried) with
      | some (.node found) =>
        if store.holds Payload.isCurve found then some found else store.firstBelow Payload.isCurve id
      | _ => store.firstBelow Payload.isCurve id
  | _ => none

/-- The field that a value stands for: itself or the first one below it. -/
def findField (store : Store) : Value → Option NodeId
  | .node id => store.firstBelow Payload.isField id
  | _ => none

def polyline? (store : Store) (id : NodeId) : Option Polyline :=
  (store.get? id).bind fun node => node.payload.polyline?

/-- The polyline of the curve that a value stands for. -/
def findPolyline (store : Store) (value : Value) : Option Polyline :=
  (store.findCurve value).bind store.polyline?

end Store

end ProceduralScene
