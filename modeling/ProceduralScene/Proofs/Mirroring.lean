import Mathlib.Data.List.ReduceOption
import ProceduralScene.Proofs.Depiction

/-!
When the tree mirrors blueprints: every one that was not left out has a node with its name that is registered at its
path, and the node of a group is a container of the nodes of its children.
-/

set_option autoImplicit false

namespace ProceduralScene

/-- The node has the name of the blueprint and is registered at its path. -/
structure Session.Stands (s : Session) (b : Blueprint) (n : NodeId) : Prop where
  named : s.scene.store.nameOf n = b.name
  registered : ∃ e, s.registry.get? b.path = some e ∧ e.node = n

mutual
/-- A blueprint was left out, or its node mirrors it. -/
inductive Mirrors (s : Session) : Blueprint → Option NodeId → Prop where
  | left {b : Blueprint} (single : b.content ≠ .group) (absent : s.registry.get? b.path = none) : Mirrors s b none
  | single {b : Blueprint} {n : NodeId} (single : b.content ≠ .group) (stands : s.Stands b n) : Mirrors s b (some n)
  | group {b : Blueprint} {n : NodeId} {nodes : List (Option NodeId)} (group : b.content = .group)
      (stands : s.Stands b n) (container : s.scene.store.holds Payload.isContainer n = true)
      (children : MirrorsAll s b.children nodes) (listed : s.scene.store.childrenOf n = nodes.reduceOption) :
      Mirrors s b (some n)

inductive MirrorsAll (s : Session) : List Blueprint → List (Option NodeId) → Prop where
  | nil : MirrorsAll s [] []
  | cons {b : Blueprint} {rest : List Blueprint} {node : Option NodeId} {nodes : List (Option NodeId)}
      (first : Mirrors s b node) (others : MirrorsAll s rest nodes) : MirrorsAll s (b :: rest) (node :: nodes)
end

/-- The same node stands at a path, with the same name and the same children. -/
structure Session.AlikeAt (s s' : Session) (path : String) : Prop where
  entry : s'.registry.get? path = s.registry.get? path
  node : ∀ e, s.registry.get? path = some e → s'.scene.store.nameOf e.node = s.scene.store.nameOf e.node ∧
    s'.scene.store.holds Payload.isContainer e.node = s.scene.store.holds Payload.isContainer e.node ∧
    s'.scene.store.childrenOf e.node = s.scene.store.childrenOf e.node

section

variable {s s' : Session}

theorem mirrorsAll_append {list rest : List Blueprint} {nodes others : List (Option NodeId)}
    (first : MirrorsAll s list nodes) (second : MirrorsAll s rest others) :
    MirrorsAll s (list ++ rest) (nodes ++ others) := by
  induction list generalizing nodes with
  | nil =>
    cases first
    exact second
  | cons b list ih =>
    cases first with
    | cons here later => exact .cons here (ih later)

theorem mirrorsAll_later {list : List Blueprint}
    (each : ∀ b ∈ list, ∀ {node : Option NodeId}, (∀ c ∈ b.placed, s.AlikeAt s' c.path) → Mirrors s b node →
      Mirrors s' b node) : ∀ {nodes : List (Option NodeId)}, (∀ c ∈ Blueprint.placedAll list, s.AlikeAt s' c.path) →
    MirrorsAll s list nodes → MirrorsAll s' list nodes := by
  induction list with
  | nil =>
    intro nodes _ mirrors
    cases mirrors
    exact .nil
  | cons b rest ih =>
    intro nodes alike mirrors
    rw [Blueprint.placedAll] at alike
    cases mirrors with
    | cons first others =>
      refine .cons (each b (by simp) (fun c member => alike c (List.mem_append_left _ member)) first) ?_
      exact ih (fun c member => each c (by simp [member])) (fun c member => alike c (List.mem_append_right _ member)) others

theorem placed_self (b : Blueprint) : b ∈ b.placed := by
  by_cases group : b.content = .group
  · rw [Blueprint.placed_group group]
    simp
  · rw [Blueprint.placed_single group]
    simp

theorem stands_later {b : Blueprint} {n : NodeId} (alike : s.AlikeAt s' b.path) (stands : s.Stands b n) :
    s'.Stands b n := by
  obtain ⟨named, e, found, rfl⟩ := stands
  exact ⟨(alike.node e found).1.trans named, e, alike.entry.trans found, rfl⟩

/-- The tree mirrors a blueprint as long as nothing happens where it was placed. -/
theorem mirrors_later (b : Blueprint) : ∀ {node : Option NodeId}, (∀ c ∈ b.placed, s.AlikeAt s' c.path) →
    Mirrors s b node → Mirrors s' b node := by
  induction b using Blueprint.along_children with | step b ih =>
  intro node alike mirrors
  have here := alike b (placed_self b)
  cases mirrors with
  | left single absent => exact .left single (here.entry.trans absent)
  | single single stands => exact .single single (stands_later here stands)
  | group group stands container children listed =>
    rw [Blueprint.placed_group group] at alike
    have inner := mirrorsAll_later ih (fun c member => alike c (List.mem_cons_of_mem b member)) children
    have standing := stands_later here stands
    obtain ⟨_, e, found, rfl⟩ := stands
    exact .group group standing ((here.node e found).2.1.trans container) inner ((here.node e found).2.2.trans listed)

end

end ProceduralScene
