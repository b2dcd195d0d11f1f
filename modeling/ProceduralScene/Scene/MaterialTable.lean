import ProceduralScene.Scene.Basic
import ProceduralScene.Schema.Basic

/-!
The materials of a run by name. A name that stands for a color makes a material of its own on first use; any other
unknown name falls back to the material called `default`, or else to the fallback of the scene.
-/

set_option autoImplicit false

namespace ProceduralScene

abbrev MaterialTable := List (String × MaterialId)

namespace MaterialTable

def has (name : String) (table : MaterialTable) : Bool := table.any (·.1 == name)

def put (name : String) (id : MaterialId) : MaterialTable → MaterialTable
  | [] => [(name, id)]
  | (found, old) :: rest => if found == name then (found, id) :: rest else (found, old) :: put name id rest

def materialOf (name : String) (spec : MaterialSpec) : Material :=
  ⟨name, spec.color, spec.roughness, spec.metalness, spec.transparent, spec.opacity⟩

/-- Creates the materials that a schema declares. -/
def ofSpecs (specs : List (String × MaterialSpec)) (store : Store) : MaterialTable × Store :=
  specs.foldl (fun (state : MaterialTable × Store) spec =>
    let (id, store) := state.2.createMaterial (materialOf spec.1 spec.2)
    (state.1.put spec.1 id, store)) ([], store)

def default (table : MaterialTable) : MaterialId :=
  (table.lookup "default").getD Store.fallbackMaterial

def isColor (name : String) : Bool := name.toList.head? == some '#'

/-- The material that a value names. -/
def get (value : Value) (table : MaterialTable) (store : Store) : MaterialId × MaterialTable × Store :=
  match value with
  | .text name =>
    match table.lookup name with
    | some id => (id, table, store)
    | none =>
      if isColor name then
        let (id, store) := store.createMaterial { Material.named name with color := name }
        (id, table.put name id, store)
      else (table.default, table, store)
  | _ => (table.default, table, store)

end MaterialTable

end ProceduralScene
