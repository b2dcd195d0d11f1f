import ProceduralScene.Build.Session

/-!
Placing blueprints into the scene. Whatever stands at the path of a blueprint is released first; then its node is
made, named, transformed, attached to its parent and registered. What yields no node is recorded and left out.
-/

set_option autoImplicit false

namespace ProceduralScene.Place

open SessionAction

/-- The material that a value names. -/
def takeMaterial (value : Value) : SessionAction MaterialId :=
  modifyGet fun session =>
    let (id, materials, store) := session.materials.get value session.scene.store
    (id, { session with materials := materials, scene := { session.scene with store := store } })

/-- The material that a blueprint asks for. -/
def materialOf (blueprint : Blueprint) : SessionAction MaterialId := do
  let value ← match blueprint.material with
    | .text s => render (.text s) blueprint.context (some blueprint.path)
    | value => pure value
  takeMaterial value

/-- Puts a node into its parent and registers it. -/
def enter (blueprint : Blueprint) (node parent : NodeId) (parentPath : String) : SessionAction NodeId := do
  onScene (modify fun scene => scene.attach parent node)
  modify fun session =>
    let (registry, scene) := session.registry.register ⟨blueprint.path, node, parentPath, blueprint⟩ session.scene
    { session with registry := registry, scene := scene }
  return node

/-- Names and transforms a node before it enters the tree. -/
def settle (blueprint : Blueprint) (node parent : NodeId) (parentPath : String) : SessionAction NodeId := do
  onScene (modify fun scene => scene.rename node blueprint.name)
  onScene (SceneAction.setTransform node blueprint.position blueprint.rotation blueprint.scale)
  if !blueprint.visible then onScene (modify fun scene => scene.hide node)
  enter blueprint node parent parentPath

/-- The node that a target means, as seen from a path; a target that is not found is recorded. -/
def resolveTarget (target scope path : String) : SessionAction (Option NodeId) := do
  match (← get).registry.resolve target scope with
  | some entry => return some entry.node
  | none =>
    record "R01" ("reference target " ++ Text.quoted target ++ " not found") (some path)
    return none

mutual
/-- A value with every reference replaced by a copy of what it means, or by nothing. -/
def resolveMarkers (scope path : String) : Value → SessionAction Value
  | .marker target => do
    match ← resolveTarget target scope path with
    | some id => return .node (← onScene (SceneAction.clone id))
    | none => return .null
  | .list items => return .list (← resolveItems scope path items)
  | .map entries => return .map (← resolveEntries scope path entries)
  | value => pure value

def resolveItems (scope path : String) : List Value → SessionAction (List Value)
  | [] => pure []
  | x :: rest => return (← resolveMarkers scope path x) :: (← resolveItems scope path rest)

def resolveEntries (scope path : String) : List (Key × Value) → SessionAction (List (Key × Value))
  | [] => pure []
  | (key, x) :: rest =>
    return (key, ← resolveMarkers scope path x) :: (← resolveEntries scope path rest)
end

/-- Runs a helper whose parameters held references. -/
def runDeferred (blueprint : Blueprint) (helper : String) (params : Value) (parentPath : String) :
    SessionAction Value := do
  let params ← resolveMarkers parentPath blueprint.path params
  match ← attempt (findFactory (.text helper)) with
  | .error failure =>
    record "H01" failure.message (some blueprint.path)
    return .null
  | .ok (name, factory) =>
    match ← attempt (onScene (FactoryTable.invoke name factory params)) with
    | .ok value => return value
    | .error failure =>
      record "H02" failure.message (some blueprint.path)
      return .null

/-- A node that can be placed: one that stands elsewhere already, or was disposed, is copied. -/
def fresh (id : NodeId) : SceneAction NodeId := do
  let store ← SceneAction.store
  if store.isDisposed id || (store.parentOf id).isSome then SceneAction.clone id else return id

def nodesOf (values : List Value) : List NodeId :=
  values.filterMap fun value =>
    match value with
    | .node id => some id
    | _ => none

/-- A container of several results. -/
def gather (name : String) (nodes : List NodeId) : SceneAction NodeId := do
  let container ← SceneAction.createContainer name
  nodes.forM fun node => do
    let node ← fresh node
    modify fun scene => scene.attach container node
  return container

/-- The node that the result of a helper stands for; several nodes are put into a container. -/
def nodeOfResult (blueprint : Blueprint) (helper : String) (result : Value) : SessionAction (Option NodeId) := do
  match result with
  | .null => return none
  | .list items =>
    match nodesOf items with
    | [] =>
      record "H02" (helper ++ " returned no nodes") (some blueprint.path)
      return none
    | nodes => return some (← onScene (gather blueprint.name nodes))
  | .node id => return some (← onScene (fresh id))
  | value =>
    let title := value.kindName (← store).titleOf
    record "H02" (helper ++ " returned " ++ title ++ ", not a node") (some blueprint.path)
    return none

/-- Places what a helper made. Drawables without a material get that of the blueprint, and all of them do when the
blueprint names one. -/
def leaf (blueprint : Blueprint) (helper : String) (result : Value) (parent : NodeId) (parentPath : String) :
    SessionAction (Option NodeId) := do
  match ← nodeOfResult blueprint helper result with
  | none => return none
  | some node =>
    let material ← materialOf blueprint
    onScene (modify fun scene => scene.paint (!blueprint.material.isNull) material node)
    return some (← settle blueprint node parent parentPath)

/-- Places a copy of the node that a target means. -/
def reference (blueprint : Blueprint) (target : String) (parent : NodeId) (parentPath : String) :
    SessionAction (Option NodeId) := do
  match ← resolveTarget target parentPath blueprint.path with
  | none => return none
  | some found =>
    let copy ← onScene (SceneAction.clone found)
    if !blueprint.material.isNull then
      let material ← materialOf blueprint
      onScene (modify fun scene => scene.paint true material copy)
    return some (← settle blueprint copy parent parentPath)

mutual
/-- Places a blueprint under a parent. Gives the node, unless the blueprint was left out. -/
def place (parent : NodeId) (parentPath : String) : Blueprint → SessionAction (Option NodeId)
  | ⟨path, name, content, position, rotation, scale, visible, material, children, context, scope, source, index,
      anchor⟩ => do
    let blueprint : Blueprint := ⟨path, name, content, position, rotation, scale, visible, material, children,
      context, scope, source, index, anchor⟩
    let _ ← releasePath path
    match content with
    | .group => do
      let container ← onScene (SceneAction.createContainer name)
      placeAll container path children
      return some (← settle blueprint container parent parentPath)
    | .reference target => reference blueprint target parent parentPath
    | .call helper params none => do
      leaf blueprint helper (← runDeferred blueprint helper params parentPath) parent parentPath
    | .call helper _ (some result) => leaf blueprint helper result parent parentPath
    | .shape helper _ result => leaf blueprint helper result parent parentPath

def placeAll (parent : NodeId) (parentPath : String) : List Blueprint → SessionAction Unit
  | [] => pure ()
  | first :: rest => do
    let _ ← place parent parentPath first
    placeAll parent parentPath rest
end

end ProceduralScene.Place
