import ProceduralScene.Proofs.SceneSteps

/-!
A walk meets every node below its top exactly once, so that the nodes of a subtree can be counted along it.
-/

set_option autoImplicit false

namespace ProceduralScene

namespace Store

variable {store : Store}

theorem children_apart (linked : Linked store) {a b parent x : NodeId} (first : store.parentOf a = some parent)
    (second : store.parentOf b = some parent) (inA : Below store a x) (inB : Below store b x) : a = b := by
  -- one of two ancestors of a node stands above the other, and none of them above their common parent
  have sameOf : ∀ {a b : NodeId}, store.parentOf a = some parent → store.parentOf b = some parent → Below store a b →
      a = b := by
    intro a b first second below
    rcases below_cases below with same | ⟨p, link, above⟩
    · exact same.symm
    · rw [second] at link
      cases link
      exact absurd above (not_below_own_child linked first)
  rcases below_linear inA inB with below | below
  · exact sameOf first second below
  · exact (sameOf second first below).symm

theorem walkWithin_nodup (linked : Linked store) (depth : Nat) : ∀ a, (store.walkWithin depth a).Nodup := by
  induction depth with
  | zero => exact fun a => List.nodup_singleton a
  | succ depth ih =>
    intro a
    have hangs : ∀ c ∈ store.childrenOf a, store.parentOf c = some a := fun c listed => (linked.agree c a).mp listed
    rw [walkWithin, List.nodup_cons]
    constructor
    · intro again
      obtain ⟨c, listed, inside⟩ := List.mem_flatMap.mp again
      exact not_below_own_child linked (hangs c listed) (walkWithin_below linked depth c a inside)
    · rw [List.nodup_flatMap]
      refine ⟨fun c _ => ih c, ?_⟩
      apply (linked.distinct a).imp_of_mem
      intro c d here there other x inC inD
      apply other
      exact children_apart linked (hangs c here) (hangs d there) (walkWithin_below linked depth c x inC)
        (walkWithin_below linked depth d x inD)

theorem walk_nodup (linked : Linked store) (a : NodeId) : (store.walk a).Nodup := walkWithin_nodup linked store.size a

/-- How many nodes at and below a node are as a test says. -/
theorem length_of_walk (linked : Linked store) {a : NodeId} {test : NodeId → Bool} {ids : List NodeId}
    (distinct : ids.Nodup) (members : ∀ x, x ∈ ids ↔ Below store a x ∧ test x = true) :
    ids.length = (store.walk a).countP test := by
  have same : ids.Perm ((store.walk a).filter test) := by
    apply (List.perm_ext_iff_of_nodup distinct ((walk_nodup linked a).filter test)).mpr
    intro x
    rw [members, List.mem_filter, mem_walk linked]
  rw [same.length_eq, List.countP_eq_length_filter]

end Store

end ProceduralScene
