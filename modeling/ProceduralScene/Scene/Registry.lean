import ProceduralScene.Scene.Basic

/-!
The registry of placed nodes: one entry for each path, in the order of registration. Releasing a path disposes its
node and drops every entry inside it, so a path never stands for two live nodes. A reference is resolved from the
innermost scope outwards, then as a path of its own, then as the end of a path.
-/

set_option autoImplicit false

namespace ProceduralScene

/-- A placed node with what it was built from. -/
structure Entry (β : Type) where
  path : String
  node : NodeId
  parentPath : String
  build : β

structure Registry (β : Type) where
  entries : List (Entry β)

namespace Registry

variable {β : Type}

def empty : Registry β := ⟨[]⟩

def get? (path : String) (registry : Registry β) : Option (Entry β) :=
  registry.entries.find? (·.path == path)

def has (path : String) (registry : Registry β) : Bool :=
  registry.entries.any (·.path == path)

def size (registry : Registry β) : Nat := registry.entries.length

def paths (registry : Registry β) : List String := registry.entries.map (·.path)

/-- An entry takes the place of one with its path, or else goes to the end. -/
def putEntry (entry : Entry β) : List (Entry β) → List (Entry β)
  | [] => [entry]
  | found :: rest => if found.path == entry.path then entry :: rest else found :: putEntry entry rest

/-- Detaches and disposes the node at a path and drops the entries of all nodes inside it. Gives how many entries
were dropped. -/
def release (path : String) (registry : Registry β) (scene : Scene) : Nat × Registry β × Scene :=
  match registry.get? path with
  | none => (0, registry, scene)
  | some entry =>
    let inside := scene.store.walk entry.node
    let kept := registry.entries.filter fun found => !inside.contains found.node
    (registry.size - kept.length, ⟨kept⟩, (scene.detach entry.node).dispose entry.node)

/-- Registers an entry; another node at its path is released first. -/
def register (entry : Entry β) (registry : Registry β) (scene : Scene) : Registry β × Scene :=
  match registry.get? entry.path with
  | some previous =>
    if previous.node == entry.node then (⟨putEntry entry registry.entries⟩, scene)
    else
      let (_, freed, scene) := registry.release entry.path scene
      (⟨putEntry entry freed.entries⟩, scene)
  | none => (⟨putEntry entry registry.entries⟩, scene)

/-- Releases every entry at the top level, then drops the rest. -/
def clear (registry : Registry β) (scene : Scene) : Registry β × Scene :=
  let top := (registry.entries.filter (·.parentPath == "")).map (·.path)
  let (_, scene) := top.foldl (fun (state : Registry β × Scene) path =>
    (state.1.release path state.2).2) (registry, scene)
  (empty, scene)

/-- What stands before each dot of a path, the longest first. -/
def beforeDots : List Char → List (List Char)
  | [] => []
  | c :: rest =>
    let longer := (beforeDots rest).map (c :: ·)
    if c == '.' then longer ++ [[]] else longer

/-- A scope and the scopes around it, innermost first. -/
def scopesFrom (scope : String) : List String :=
  if scope == "" then []
  else scope :: ((beforeDots scope.toList).filter (!·.isEmpty)).map String.ofList

/-- The paths that a target can mean, before any path that only ends in it. -/
def candidates (target scope : String) : List String :=
  (scopesFrom scope).map (· ++ "." ++ target) ++ [target]

/-- Shorter paths come first, paths of one length in ascending order. -/
def precedes (a b : String) : Bool :=
  a.length < b.length || (a.length == b.length && a.toList < b.toList)

def endsWithTarget (target path : String) : Bool :=
  ('.' :: target.toList).isSuffixOf path.toList

/-- The first of some paths in the order of `precedes`. -/
def leastPath : List String → Option String
  | [] => none
  | path :: rest =>
    match leastPath rest with
    | none => some path
    | some found => if precedes found path then some found else some path

/-- The path that a target means in a scope. -/
def resolvePath (paths : List String) (target scope : String) : Option String :=
  match (candidates target scope).find? paths.contains with
  | some path => some path
  | none => leastPath (paths.filter (endsWithTarget target))

/-- The entry that a reference means in a scope. -/
def resolve (target scope : String) (registry : Registry β) : Option (Entry β) :=
  (resolvePath registry.paths target scope).bind fun path => registry.get? path

end Registry

end ProceduralScene
