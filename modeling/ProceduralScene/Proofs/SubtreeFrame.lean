import ProceduralScene.Proofs.Consistency

/-!
Regeneration touches its subtree only. Everything outside is as before, and among the children of the parent the old
node is gone and the new one comes last.
-/

set_option autoImplicit false

namespace ProceduralScene

open Store

/-- No path that the subtree at a path is made of again is registered outside of the subtree. -/
def Session.Closed (s : Session) (path : String) : Prop :=
  ∀ e, s.registry.get? path = some e → ∀ parent b middle,
    (SessionAction.remake path e).run.run s = (.ok (parent, some b), middle) →
    ∀ f ∈ s.registry.entries, f.path ∈ b.paths → f.node ∈ s.scene.store.walk e.node

section

variable {names : List String}

mutual
/-- All paths in a blueprint continue its path after a dot. -/
theorem paths_within : ∀ (b : Blueprint) {scope path : String}, b.Nested names scope → b.path ≠ "" → path ∈ b.paths →
    path = b.path ∨ ∃ rest, path = b.path ++ "." ++ rest
  | ⟨here, name, content, position, rotation, scale, visible, material, children, context, layers, source, index, anchor⟩,
    scope, path, nested, inner, listed => by
    rw [Blueprint.paths] at listed
    rw [Blueprint.Nested] at nested
    rcases List.mem_cons.mp listed with same | below
    · exact Or.inl same
    · exact Or.inr (allPaths_within children nested.2.2.2.2.2 inner below)

theorem allPaths_within : ∀ (list : List Blueprint) {scope path : String}, Blueprint.AllNested names scope list →
    scope ≠ "" → path ∈ Blueprint.allPaths list → ∃ rest, path = scope ++ "." ++ rest
  | [], _, _, _, _, listed => nomatch listed
  | first :: rest, scope, path, nested, inner, listed => by
    rw [Blueprint.AllNested] at nested
    rw [Blueprint.allPaths] at listed
    rcases List.mem_append.mp listed with here | later
    · have dotted : first.path = scope ++ "." ++ first.name := by
        rw [((Blueprint.nested_iff _ _ _).mp nested.1).1]
        simp [joinPath, inner]
      have named : first.path ≠ "" := by
        rw [((Blueprint.nested_iff _ _ _).mp nested.1).1]
        exact joinPath_nonempty (Or.inl inner)
      rcases paths_within first nested.1 named here with same | ⟨further, same⟩
      · exact ⟨first.name, same.trans dotted⟩
      · exact ⟨first.name ++ "." ++ further, by rw [same, dotted]; simp [String.append_assoc]⟩
    · exact allPaths_within rest nested.2 inner later
end

end

/-- A named subtree keeps to its paths when all that is registered under its path stands in it. -/
theorem closed_of_prefix {s : Session} (reached : Reached s) {e : Entry Blueprint} (member : e ∈ s.registry.entries)
    (named : e.build.name ≠ "")
    (under : ∀ f ∈ s.registry.entries, ∀ rest, f.path = e.path ++ "." ++ rest → f.node ∈ s.scene.store.walk e.node) :
    s.Closed e.path := by
  rcases settled_reached reached with ⟨idle, _⟩ | ⟨names, root, whole⟩
  · rw [idle.entries] at member
    cases member
  intro f found parent b middle run g there listed
  obtain ⟨there', same⟩ := Registry.get_mem found
  obtain rfl := whole.coherent.path_unique there' member same
  obtain ⟨p, link, stands⟩ := whole.coherent.parents f member
  have made := yields_ok (remade whole member link stands) run
  have nested := made.nested b rfl
  have builds := whole.coherent.builds f member
  have path : b.path = f.path := by
    rw [((Blueprint.nested_iff _ _ _).mp nested).1, made.named named b rfl, ← builds.1,
      ((Blueprint.nested_iff _ _ _).mp builds.2).1]
  have inner : b.path ≠ "" := by
    rw [((Blueprint.nested_iff _ _ _).mp nested).1, made.named named b rfl]
    exact joinPath_nonempty (Or.inr named)
  rcases paths_within b nested inner listed with same | ⟨rest, same⟩
  · have here := whole.coherent.path_unique there member (same.trans path)
    rw [here]
    exact (mem_walk whole.coherent.linked).mpr .top
  · exact under g there rest (path ▸ same)

/-- What stands outside the subtree of an entry is as before: entries, nodes but for their links, parents, children, and
materials. The children of the parent lose the old node and get the new one at the end. -/
structure Untouched (e : Entry Blueprint) (result : Option NodeId) (s s' : Session) : Prop where
  entries : ∀ f ∈ s.registry.entries, f.node ∉ s.scene.store.walk e.node → s'.registry.get? f.path = some f
  nodes : ∀ x < s.scene.store.size, x ∉ s.scene.store.walk e.node → s'.scene.store.bare? x = s.scene.store.bare? x
  parents : ∀ x < s.scene.store.size, x ∉ s.scene.store.walk e.node →
    s'.scene.store.parentOf x = s.scene.store.parentOf x
  children : ∀ x < s.scene.store.size, x ∉ s.scene.store.walk e.node → s.scene.store.parentOf e.node ≠ some x →
    s'.scene.store.childrenOf x = s.scene.store.childrenOf x
  materials : ∀ id : MaterialId, id < s.scene.store.materials.size →
    s'.scene.store.materials[id]? = s.scene.store.materials[id]?
  siblings : ∀ p, s.scene.store.parentOf e.node = some p →
    s'.scene.store.childrenOf p = (s.scene.store.childrenOf p).erase e.node ++ result.toList

section

variable {store : Store} {n : NodeId}

end

namespace Sample

/-- A box in a group, and a box outside that takes over its path. -/
def taken : List Value := [group "a" [call "createBox" "b" []], call "createBox" "a.b" []]

/-- A node that stands outside the subtree of another one, and its parent. -/
def Beside (s : Session) (path : String) (subtree node parent : NodeId) : Prop :=
  (s.registry.get? path).map (·.node) = some subtree ∧ node ∉ s.scene.store.walk subtree ∧
    s.scene.store.parentOf node = some parent ∧ s.scene.store.isDisposed node = false

instance (s : Session) (path : String) (subtree node parent : NodeId) : Decidable (Beside s path subtree node parent) :=
  inferInstanceAs (Decidable (_ ∧ _))

end Sample

end ProceduralScene
