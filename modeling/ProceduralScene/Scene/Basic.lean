import ProceduralScene.Scene.Store
import ProceduralScene.Scene.Polyline

/-!
The scene that a run builds: the store of its nodes and the account of its geometries. A geometry is live from the
moment it is attached until it is disposed, and disposing counts each geometry once.
-/

set_option autoImplicit false

namespace ProceduralScene

structure Scene where
  store : Store
  /-- The drawables whose geometry is live, in the order in which they were attached. -/
  live : List NodeId
  disposedCount : Nat

/-- Operations on a scene that may fail and keep what was done before. -/
abbrev SceneAction := ExceptT Failure (StateM Scene)

namespace Scene

def empty : Scene := ⟨Store.empty, [], 0⟩

def liveCount (scene : Scene) : Nat := scene.live.length

def onStore (change : Store → Store) (scene : Scene) : Scene :=
  { scene with store := change scene.store }

/-- Counts the geometry of a node as live, unless it is disposed or counted already. -/
def enliven (scene : Scene) (id : NodeId) : Scene :=
  if scene.store.hasLiveGeometry id && !scene.live.contains id then { scene with live := scene.live ++ [id] }
  else scene

/-- Puts a node into a container and counts the geometries that come with it as live. -/
def attach (container child : NodeId) (scene : Scene) : Scene :=
  let placed := scene.onStore (·.add container child)
  (placed.store.walk child).foldl enliven placed

def detach (child : NodeId) (scene : Scene) : Scene :=
  scene.onStore (·.detach child)

/-- Marks one node as disposed and releases its geometry if that was not done before. -/
def disposeNode (scene : Scene) (id : NodeId) : Scene :=
  let marked := scene.onStore (·.modify id Node.dispose)
  if scene.store.hasLiveGeometry id then
    { marked with live := scene.live.erase id, disposedCount := scene.disposedCount + 1 }
  else marked

/-- Disposes a node and everything below it. -/
def dispose (id : NodeId) (scene : Scene) : Scene :=
  (scene.store.walk id).foldl disposeNode scene

def clone (id : NodeId) (scene : Scene) : NodeId × Scene :=
  let (copy, store) := scene.store.clone id
  (copy, { scene with store := store })

def create (node : Node) (scene : Scene) : NodeId × Scene :=
  let (id, store) := scene.store.create node
  (id, { scene with store := store })

def rename (id : NodeId) (name : String) (scene : Scene) : Scene :=
  scene.onStore (·.modify id fun node => { node with name := name })

def hide (id : NodeId) (scene : Scene) : Scene :=
  scene.onStore (·.modify id fun node => { node with visible := false })

def setMaterial (material : MaterialId) (node : Node) : Node :=
  match node.payload with
  | .drawable geometry _ => { node with payload := .drawable geometry (some material) }
  | _ => node

/-- Gives the material to the drawables under a node; those that have one keep it unless `always`. -/
def paint (always : Bool) (material : MaterialId) (id : NodeId) (scene : Scene) : Scene :=
  (scene.store.drawables id).foldl (fun scene drawable =>
    if always || !(scene.store.get? drawable).any (·.payload.material?.isSome) then
      scene.onStore (·.modify drawable (setMaterial material))
    else scene) scene

/-- Lets a node carry a curve beside its own content. -/
def carry (id : NodeId) (curve : Value) (scene : Scene) : Scene :=
  scene.onStore (·.modify id fun node => { node with carried := some curve })

end Scene

namespace SceneAction

def lift {α : Type} (result : Except Failure α) : SceneAction α :=
  match result with
  | .ok value => pure value
  | .error failure => throw failure

def store : SceneAction Store := return (← get).store

def create (node : Node) : SceneAction NodeId :=
  modifyGet fun scene => scene.create node

def createMaterial (material : Material) : SceneAction MaterialId :=
  modifyGet fun scene =>
    let (id, store) := scene.store.createMaterial material
    (id, { scene with store := store })

def createContainer (name : String) : SceneAction NodeId :=
  create (Node.ofPayload name (.container []))

def clone (id : NodeId) : SceneAction NodeId :=
  modifyGet fun scene => scene.clone id

/-- Sets one part of a transform; null leaves it as it is. -/
def setPart (missing : Float) (change : Vec3 → Node → Node) (id : NodeId) (value : Value) : SceneAction Unit :=
  if value.isNull then pure ()
  else do
    let part ← lift (Vec3.ofTransform missing value)
    modify (·.onStore (·.modify id (change part)))

/-- Sets the parts of a transform that are not null, one after the other. -/
def setTransform (id : NodeId) (position rotation scale : Value) : SceneAction Unit := do
  setPart 0.0 (fun part node => { node with position := part }) id position
  setPart 0.0 (fun part node => { node with rotation := part }) id rotation
  setPart 1.0 (fun part node => { node with scale := part }) id scale

end SceneAction

end ProceduralScene
