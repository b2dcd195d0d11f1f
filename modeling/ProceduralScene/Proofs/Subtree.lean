import ProceduralScene.Proofs.Links

/-!
The walk of a subtree meets exactly the nodes below its top, and a copy of a subtree is made of new nodes that stand
apart from all old ones.
-/

set_option autoImplicit false

namespace ProceduralScene

/-- Undisposed, and so is its geometry. -/
def Node.Pristine (node : Node) : Prop :=
  node.disposed = false ∧ ∀ geometry, node.payload.geometry? = some geometry → geometry.disposed = false

namespace Store

section

variable {store : Store}

theorem walkWithin_below (linked : Linked store) (depth : Nat) :
    ∀ (a x : NodeId), x ∈ store.walkWithin depth a → Below store a x := by
  induction depth with
  | zero =>
    intro a x member
    rw [List.mem_singleton.mp member]
    exact .top
  | succ depth ih =>
    intro a x member
    rcases List.mem_cons.mp member with same | deeper
    · rw [same]
      exact .top
    · obtain ⟨child, listed, inside⟩ := List.mem_flatMap.mp deeper
      exact below_trans (.child ((linked.agree child a).mp listed) .top) (ih child x inside)

theorem walkWithin_top (depth : Nat) (a : NodeId) : a ∈ store.walkWithin depth a := by
  cases depth <;> simp [walkWithin]

theorem walkWithin_child {x parent : NodeId} (listed : x ∈ store.childrenOf parent) (depth : Nat) :
    ∀ a, parent ∈ store.walkWithin depth a → x ∈ store.walkWithin (depth + 1) a := by
  induction depth with
  | zero =>
    intro a member
    rw [List.mem_singleton.mp member] at listed
    exact List.mem_cons_of_mem _ (List.mem_flatMap.mpr ⟨x, listed, walkWithin_top 0 x⟩)
  | succ depth ih =>
    intro a member
    rcases List.mem_cons.mp member with same | deeper
    · rw [same] at listed
      exact List.mem_cons_of_mem _ (List.mem_flatMap.mpr ⟨x, listed, walkWithin_top (depth + 1) x⟩)
    · obtain ⟨child, member', inside⟩ := List.mem_flatMap.mp deeper
      exact List.mem_cons_of_mem _ (List.mem_flatMap.mpr ⟨child, member', ih child inside⟩)

theorem walkWithin_mono {x : NodeId} {depth depth' : Nat} (bound : depth ≤ depth') :
    ∀ a, x ∈ store.walkWithin depth a → x ∈ store.walkWithin depth' a := by
  induction depth generalizing depth' with
  | zero =>
    intro a member
    rw [List.mem_singleton.mp member]
    exact walkWithin_top depth' a
  | succ depth ih =>
    intro a member
    obtain ⟨deeper, rfl⟩ : ∃ deeper, depth' = deeper + 1 := ⟨depth' - 1, by omega⟩
    rcases List.mem_cons.mp member with same | inside
    · rw [same]
      exact walkWithin_top _ a
    · obtain ⟨child, listed, found⟩ := List.mem_flatMap.mp inside
      exact List.mem_cons_of_mem _ (List.mem_flatMap.mpr ⟨child, listed, ih (by omega) child found⟩)

/-- The nodes from one below `a` up to `a`, which all exist and differ, are as many as the steps that a walk takes. -/
theorem below_chain (linked : Linked store) {rank : NodeId → Nat}
    (grounded : ∀ child parent, store.parentOf child = some parent → rank parent < rank child) {a x : NodeId}
    (below : Below store a x) :
    ∃ chain : List NodeId, chain.Nodup ∧ (∀ y ∈ chain, y < store.size ∧ rank y ≤ rank x) ∧
      x ∈ store.walkWithin chain.length a := by
  induction below with
  | top => exact ⟨[], List.nodup_nil, by simp, walkWithin_top 0 a⟩
  | @child x parent link above ih =>
    obtain ⟨chain, distinct, bounded, member⟩ := ih
    have step := grounded x parent link
    refine ⟨x :: chain, List.nodup_cons.mpr ⟨fun again => ?_, distinct⟩, ?_, ?_⟩
    · exact Nat.not_le_of_gt step (bounded x again).2
    · intro y listed
      rcases List.mem_cons.mp listed with same | later
      · rw [same]
        exact ⟨parent_lt link, Nat.le_refl _⟩
      · exact ⟨(bounded y later).1, Nat.le_of_lt ((bounded y later).2.trans_lt step)⟩
    · exact walkWithin_child ((linked.agree x parent).mpr link) chain.length a member

theorem length_le_of_nodup_lt {chain : List NodeId} (distinct : chain.Nodup) {bound : Nat}
    (below : ∀ y ∈ chain, y < bound) : chain.length ≤ bound := by
  have inside : chain.toFinset ⊆ Finset.range bound := fun y member =>
    Finset.mem_range.mpr (below y (List.mem_toFinset.mp member))
  simpa [List.toFinset_card_of_nodup distinct] using Finset.card_le_card inside

theorem mem_walk (linked : Linked store) {a x : NodeId} : x ∈ store.walk a ↔ Below store a x := by
  refine ⟨walkWithin_below linked store.size a x, fun below => ?_⟩
  obtain ⟨rank, grounded⟩ := linked.grounded
  obtain ⟨chain, distinct, bounded, member⟩ := below_chain linked grounded below
  exact walkWithin_mono (length_le_of_nodup_lt distinct fun y listed => (bounded y listed).1) a member

end

/-! ### New nodes beside old ones -/

/-- Whether the node at an identity, if there is one, was not disposed. -/
def PristineAt (store : Store) (id : NodeId) : Prop := ∀ node, store.get? id = some node → node.Pristine

theorem pristine_undisposed {store : Store} {x : NodeId} (pristine : store.PristineAt x) : store.isDisposed x = false := by
  unfold isDisposed
  cases found : store.get? x with
  | none => rfl
  | some node => simp [(pristine node found).1]

/-- Only `free` nodes changed. Whatever changed keeps the links and brings no disposed node in. -/
structure Confined (free : NodeId → Prop) (store store' : Store) : Prop where
  size : store.size ≤ store'.size
  old : ∀ id, ¬ free id → store'.get? id = store.get? id
  materials : ∀ id : MaterialId, id < store.materials.size → store'.materials[id]? = store.materials[id]?
  linked : Linked store → Linked store'
  pristine : (∀ id, free id → store.PristineAt id) → ∀ id, free id → store'.PristineAt id

/-- The nodes that the store does not have yet. -/
def New (store : Store) (id : NodeId) : Prop := store.size ≤ id

/-- No link leads from a node of the set to one outside, or back. -/
def Enclosed (store : Store) (free : NodeId → Prop) : Prop :=
  ∀ child parent, store.parentOf child = some parent → (free child ↔ free parent)

section

variable {free : NodeId → Prop} {store store' store'' : Store}

theorem confined_refl (free : NodeId → Prop) (store : Store) : Confined free store store :=
  ⟨Nat.le_refl _, fun _ _ => rfl, fun _ _ => rfl, id, id⟩

theorem materials_le_of_kept {xs ys : Array Material} (kept : ∀ id, id < xs.size → ys[id]? = xs[id]?) :
    xs.size ≤ ys.size := by
  by_contra shorter
  have last := kept ys.size (Nat.lt_of_not_le shorter)
  rw [Array.getElem?_eq_none (Nat.le_refl _), Array.getElem?_eq_getElem (Nat.lt_of_not_le shorter)] at last
  cases last

theorem confined_trans (first : Confined free store store') (second : Confined free store' store'') :
    Confined free store store'' where
  size := first.size.trans second.size
  old id outside := (second.old id outside).trans (first.old id outside)
  materials id bound :=
    (second.materials id (bound.trans_le (materials_le_of_kept first.materials))).trans (first.materials id bound)
  linked linked := second.linked (first.linked linked)
  pristine given := second.pristine (first.pristine given)

/-- What changes few nodes only changes no more than many. -/
theorem confined_mono {more : NodeId → Prop} (wider : ∀ id, free id → more id) (confined : Confined free store store') :
    Confined more store store' where
  size := confined.size
  old id outside := confined.old id fun inside => outside (wider id inside)
  materials := confined.materials
  linked := confined.linked
  pristine given id inside := by
    by_cases already : free id
    · exact confined.pristine (fun other member => given other (wider other member)) id already
    · intro node found
      exact given id inside node ((confined.old id already).symm.trans found)

/-- Where only new nodes may differ, all new nodes are pristine. -/
theorem confined_fresh (confined : Confined store.New store store') (id : NodeId) (fresh : store.New id) :
    store'.PristineAt id :=
  confined.pristine (fun _ above _ found => absurd (get_some_lt found) (Nat.not_lt_of_ge above)) id fresh

theorem enclosed_new (linked : Linked store) : Enclosed store store.New := by
  intro child parent link
  exact ⟨fun fresh => absurd (parent_lt link) (Nat.not_lt_of_ge fresh),
    fun fresh => absurd (parent_exists linked link) (Nat.not_lt_of_ge fresh)⟩

theorem enclosed_or {others : NodeId → Prop} (first : Enclosed store free) (second : Enclosed store others) :
    Enclosed store fun id => free id ∨ others id := by
  intro child parent link
  exact or_congr (first child parent link) (second child parent link)

/-- A change inside an enclosed set leaves it enclosed. -/
theorem enclosed_confined (linked : Linked store) (enclosed : Enclosed store free)
    (confined : Confined free store store') : Enclosed store' free := by
  intro child parent link
  by_cases inside : free child
  · refine ⟨fun _ => ?_, fun _ => inside⟩
    by_contra outside
    -- the parent did not change, so it listed the child before
    have listed := ((confined.linked linked).agree child parent).mpr link
    rw [children_of_get (confined.old parent outside)] at listed
    exact outside ((enclosed child parent ((linked.agree child parent).mp listed)).mp inside)
  · rw [parent_of_get (confined.old child inside)] at link
    exact enclosed child parent link

theorem enclosed_below (enclosed : Enclosed store free) {a x : NodeId} (below : Below store a x) :
    free a ↔ free x := by
  induction below with
  | top => rfl
  | child link _ ih => exact ih.trans (enclosed _ _ link).symm

theorem bare_pristine (node : Node) : node.bare.Pristine ↔ node.Pristine := by
  simp only [Node.Pristine, Node.bare]
  split <;> simp_all [Payload.geometry?]

theorem pristine_of_bare {id : NodeId} (same : store'.bare? id = store.bare? id) (pristine : store.PristineAt id) :
    store'.PristineAt id := by
  intro node found
  simp only [bare?, found, Option.map_some] at same
  obtain ⟨before, read, bare⟩ := Option.map_eq_some_iff.mp same.symm
  exact (bare_pristine node).mp (bare ▸ (bare_pristine before).mpr (pristine before read))

theorem get_add_elsewhere {container child x : NodeId} (notChild : x ≠ child) (notContainer : x ≠ container)
    (notOld : store.parentOf child ≠ some x) : (store.add container child).get? x = store.get? x := by
  have detached : (store.detach child).get? x = store.get? x := by
    rcases link : store.parentOf child with _ | old
    · rw [detach_of_root link]
    · rw [detach_of_child link, get_modify_elsewhere _ _ notChild, get_modify_elsewhere]
      exact fun same => notOld (same ▸ link)
  rw [add, get_modify_elsewhere _ _ notContainer, get_modify_elsewhere _ _ notChild, detached]

theorem confined_create {node : Node} (root : node.parent = none) (barren : node.payload.children = [])
    (pristine : node.Pristine) : Confined store.New store (store.create node).2 where
  size := by simp
  old id outside := get_create_elsewhere store node (Nat.ne_of_lt (Nat.lt_of_not_le outside))
  materials _ _ := rfl
  linked linked := linked_create linked root barren
  pristine _ id fresh found read := by
    rw [get_create] at read
    split at read
    · exact Option.some.inj read ▸ pristine
    · exact absurd (get_some_lt read) (Nat.not_lt_of_ge fresh)

/-- A free node goes into a free container. -/
theorem confined_add {container child : NodeId} (enclosed : Enclosed store free) (freeContainer : free container)
    (freeChild : free child) (exists' : child < store.size) (isContainer : store.holds Payload.isContainer container = true)
    (apart : ¬ Below store child container) : Confined free store (store.add container child) where
  size := by simp
  old id outside := get_add_elsewhere (fun same => outside (same ▸ freeChild)) (fun same => outside (same ▸ freeContainer))
    fun link => outside ((enclosed child id link).mp freeChild)
  materials _ _ := by simp
  linked linked := linked_add linked exists' isContainer apart
  pristine given id inside := pristine_of_bare (bare_add container child id) (given id inside)

end

/-! ### Copies -/

theorem copy_root (node : Node) : node.copyWithoutChildren.parent = none := rfl

theorem copy_barren (node : Node) : node.copyWithoutChildren.payload.children = [] := by
  unfold Node.copyWithoutChildren Payload.copyWithoutChildren
  cases node.payload <;> rfl

theorem copy_pristine (node : Node) : node.copyWithoutChildren.Pristine := by
  refine ⟨rfl, fun geometry found => ?_⟩
  unfold Node.copyWithoutChildren Payload.copyWithoutChildren at found
  cases payload : node.payload with
  | drawable shape material =>
    rw [payload] at found
    obtain ⟨original, _, copied⟩ := Option.map_eq_some_iff.mp found
    rw [← copied]
    rfl
  | _ => simp [payload, Payload.geometry?] at found

theorem copy_isContainer (node : Node) :
    node.copyWithoutChildren.payload.isContainer = node.payload.isContainer := by
  unfold Node.copyWithoutChildren Payload.copyWithoutChildren
  cases node.payload <;> rfl

/-- What a copy brings: one new parentless node, and old nodes as they were. -/
structure Copied (store : Store) (result : NodeId × Store) : Prop where
  id : result.1 = store.size
  made : store.size < result.2.size
  confined : Confined store.New store result.2
  root : result.2.parentOf result.1 = none

/-- A copy that gets its children one after the other. -/
structure Copying (store : Store) (copy : NodeId) (grown : Store) : Prop where
  sofar : Confined store.New store grown
  inside : copy < grown.size
  root : grown.parentOf copy = none

/-- A copy of one child was made, and it can go into the copy. -/
structure NextCopy (store : Store) (copy child : NodeId) (more : Store) : Prop extends Copying store copy more where
  container : more.holds Payload.isContainer copy = true
  made : child < more.size
  apart : ¬ Below more child copy
  parentless : more.parentOf child = none

section

variable {store grown more : Store} {copy child : NodeId}

theorem nextCopy (copying : Copying store copy grown) (container : grown.holds Payload.isContainer copy = true)
    (copied : Copied grown (child, more)) : NextCopy store copy child more := by
  have same : more.get? copy = grown.get? copy := copied.confined.old copy (Nat.not_le_of_lt copying.inside)
  have root : more.parentOf copy = none := (parent_of_get same).trans copying.root
  have id : child = grown.size := copied.id
  exact
    { sofar := confined_trans copying.sofar
        (confined_mono (fun id above => copying.sofar.size.trans above) copied.confined)
      inside := copying.inside.trans_le copied.confined.size
      root := root
      container := (holds_of_bare (bare_of_get same) bare_isContainer).trans container
      made := id ▸ copied.made
      apart := fun below => Nat.ne_of_lt copying.inside ((below_root below root).trans id)
      parentless := copied.root }

theorem copying_add (linked : Linked store) (fresh : store.New copy) (new : store.New child)
    (next : NextCopy store copy child more) :
    Copying store copy (more.add copy child) ∧ (more.add copy child).holds Payload.isContainer copy = true := by
  have enclosed := enclosed_confined linked (enclosed_new linked) next.sofar
  have added : Confined store.New more (more.add copy child) :=
    confined_add enclosed fresh new next.made next.container next.apart
  have other : copy ≠ child := fun same => next.apart (same ▸ .top)
  refine ⟨⟨confined_trans next.sofar added, by simpa using next.inside, ?_⟩, ?_⟩
  · rw [parent_add next.made, if_neg other, next.root]
  · exact (holds_of_bare (bare_add _ _ _) bare_isContainer).trans next.container

end

theorem copied_children {store : Store} {copy : NodeId} {cloneChild : NodeId → Store → NodeId × Store}
    (clones : ∀ child grown, Linked grown → child < grown.size → Copied grown (cloneChild child grown))
    (linked : Linked store) (children : List NodeId) (here : ∀ child ∈ children, child < store.size)
    (fresh : store.New copy) :
    ∀ grown, Copying store copy grown → (children ≠ [] → grown.holds Payload.isContainer copy = true) →
      Copying store copy (children.foldl (fun grown child =>
        let (childCopy, grown) := cloneChild child grown
        grown.add copy childCopy) grown) := by
  induction children with
  | nil => exact fun grown copying _ => copying
  | cons child rest ih =>
    intro grown copying container
    have copied := clones child grown (copying.sofar.linked linked) ((here child (by simp)).trans_le copying.sofar.size)
    rcases made : cloneChild child grown with ⟨childCopy, more⟩
    rw [made] at copied
    obtain rfl : childCopy = grown.size := copied.id
    obtain ⟨added, still⟩ := copying_add linked fresh copying.sofar.size (nextCopy copying (container (by simp)) copied)
    simp only [List.foldl_cons, made]
    exact ih (fun other member => here other (by simp [member])) _ added fun _ => still

theorem cloneWithin_zero {store : Store} {id : NodeId} {node : Node} (found : store.get? id = some node) :
    cloneWithin 0 id store = store.create node.copyWithoutChildren := by
  unfold cloneWithin
  rw [found]

theorem cloneWithin_succ {store : Store} {id : NodeId} {node : Node} (found : store.get? id = some node) (depth : Nat) :
    cloneWithin (depth + 1) id store =
      (store.size, node.payload.children.foldl (fun grown child =>
        let (childCopy, grown) := cloneWithin depth child grown
        grown.add store.size childCopy) (store.create node.copyWithoutChildren).2) := by
  rw [cloneWithin, found]
  rfl

theorem cloneWithin_copied (depth : Nat) : ∀ (id : NodeId) (store : Store), Linked store → id < store.size →
    Copied store (cloneWithin depth id store) := by
  induction depth with
  | zero =>
    intro id store linked inside
    obtain ⟨node, found⟩ := get_of_lt inside
    rw [cloneWithin_zero found]
    exact ⟨rfl, by simp, confined_create (copy_root node) (copy_barren node) (copy_pristine node),
      by simp [parentOf, get_create, copy_root]⟩
  | succ depth ih =>
    intro id store linked inside
    obtain ⟨node, found⟩ := get_of_lt inside
    rw [cloneWithin_succ found]
    have created : Confined store.New store (store.create node.copyWithoutChildren).2 :=
      confined_create (copy_root node) (copy_barren node) (copy_pristine node)
    have read : (store.create node.copyWithoutChildren).2.get? store.size = some node.copyWithoutChildren := by
      rw [get_create, if_pos rfl]
    have here : ∀ child ∈ node.payload.children, child < store.size := by
      intro child member
      exact parent_lt ((linked.agree child id).mp (by simpa [childrenOf, found] using member))
    have started : Copying store store.size (store.create node.copyWithoutChildren).2 :=
      ⟨created, by simp, by simp [parentOf, read, copy_root]⟩
    have whole := copied_children ih linked node.payload.children here (Nat.le_refl _) _ started (fun some => by
        rw [holds, read, Option.any_some, copy_isContainer]
        cases payload : node.payload with
        | container children => rfl
        | _ => simp [payload, Payload.children] at some)
    exact ⟨rfl, whole.inside, whole.sofar, whole.root⟩

theorem clone_copied {store : Store} (linked : Linked store) {id : NodeId} (inside : id < store.size) :
    Copied store (clone id store) :=
  cloneWithin_copied store.size id store linked inside

end Store

end ProceduralScene
