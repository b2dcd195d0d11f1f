import Mathlib.Data.Finset.Card
import Mathlib.Data.List.Dedup
import ProceduralScene.Scene.Basic

/-!
The links of the scene store: a container lists exactly the nodes whose parent it is, each of them once, and no node
is its own ancestor. Every operation on the store keeps this, and each moves no node but the one that it names.
-/

set_option autoImplicit false

namespace ProceduralScene

/-- The node without its place in the tree. -/
def Node.bare (node : Node) : Node :=
  { node with parent := none, payload := match node.payload with
    | .container _ => .container []
    | payload => payload }

namespace Store

/-- The node at an identity without its place in the tree. -/
def bare? (store : Store) (id : NodeId) : Option Node := (store.get? id).map Node.bare

/-- The node `id` is `top` or stands somewhere below it. -/
inductive Below (store : Store) (top : NodeId) : NodeId → Prop where
  | top : Below store top top
  | child {id parent : NodeId} (link : store.parentOf id = some parent) (above : Below store top parent) :
      Below store top id

structure Linked (store : Store) : Prop where
  agree : ∀ child parent, child ∈ store.childrenOf parent ↔ store.parentOf child = some parent
  distinct : ∀ parent, (store.childrenOf parent).Nodup
  grounded : ∃ rank : NodeId → Nat, ∀ child parent, store.parentOf child = some parent → rank parent < rank child

section

variable {store : Store}

theorem get_some_lt {id : NodeId} {node : Node} (found : store.get? id = some node) : id < store.size :=
  (Array.getElem?_eq_some_iff.mp found).1

theorem get_of_lt {id : NodeId} (bound : id < store.size) : ∃ node, store.get? id = some node :=
  ⟨store.nodes[id], Array.getElem?_eq_getElem bound⟩

theorem get_none_of_le {id : NodeId} (bound : store.size ≤ id) : store.get? id = none :=
  Array.getElem?_eq_none bound

theorem parent_lt {id parent : NodeId} (link : store.parentOf id = some parent) : id < store.size := by
  obtain ⟨node, found, _⟩ := Option.bind_eq_some_iff.mp link
  exact get_some_lt found

theorem children_lt {id child : NodeId} (member : child ∈ store.childrenOf id) : id < store.size := by
  by_contra outside
  simp [childrenOf, get_none_of_le (Nat.le_of_not_lt outside)] at member

theorem parent_of_get {store' : Store} {id : NodeId} (same : store'.get? id = store.get? id) :
    store'.parentOf id = store.parentOf id := by
  simp only [parentOf, same]

theorem children_of_get {store' : Store} {id : NodeId} (same : store'.get? id = store.get? id) :
    store'.childrenOf id = store.childrenOf id := by
  simp only [childrenOf, same]

theorem bare_of_get {store' : Store} {id : NodeId} (same : store'.get? id = store.get? id) :
    store'.bare? id = store.bare? id := by
  simp only [bare?, same]

end

/-! ### Single writes -/

section

variable (store : Store)

theorem get_modify (id : NodeId) (change : Node → Node) (x : NodeId) :
    (store.modify id change).get? x = if x = id then (store.get? x).map change else store.get? x := by
  simp only [get?, modify, Array.getElem?_modify, eq_comm]

theorem get_modify_elsewhere {id x : NodeId} (change : Node → Node) (elsewhere : x ≠ id) :
    (store.modify id change).get? x = store.get? x := by
  rw [get_modify, if_neg elsewhere]

@[simp] theorem size_modify (id : NodeId) (change : Node → Node) : (store.modify id change).size = store.size := by
  simp [size, modify]

@[simp] theorem materials_modify (id : NodeId) (change : Node → Node) :
    (store.modify id change).materials = store.materials := rfl

theorem get_create (node : Node) (x : NodeId) :
    (store.create node).2.get? x = if x = store.size then some node else store.get? x := by
  rw [show store.size = store.nodes.size from rfl]
  simp only [get?, create, Array.getElem?_push]

theorem get_create_elsewhere (node : Node) {x : NodeId} (elsewhere : x ≠ store.size) :
    (store.create node).2.get? x = store.get? x := by
  rw [get_create, if_neg elsewhere]

@[simp] theorem size_create (node : Node) : (store.create node).2.size = store.size + 1 := by
  simp [size, create]

@[simp] theorem materials_create (node : Node) : (store.create node).2.materials = store.materials := rfl

@[simp] theorem create_id (node : Node) : (store.create node).1 = store.size := rfl

/-- A change of a node that leaves its place in the tree alone. -/
def KeepsLinks (change : Node → Node) : Prop :=
  ∀ node, (change node).parent = node.parent ∧ (change node).payload.children = node.payload.children

theorem parent_modify_keep (id : NodeId) {change : Node → Node} (keeps : KeepsLinks change) (x : NodeId) :
    (store.modify id change).parentOf x = store.parentOf x := by
  by_cases same : x = id
  · simp only [parentOf, get_modify, if_pos same]
    cases store.get? x with
    | none => rfl
    | some node => exact (keeps node).1
  · exact parent_of_get (get_modify_elsewhere store change same)

theorem children_modify_keep (id : NodeId) {change : Node → Node} (keeps : KeepsLinks change) (x : NodeId) :
    (store.modify id change).childrenOf x = store.childrenOf x := by
  by_cases same : x = id
  · simp only [childrenOf, get_modify, if_pos same]
    cases store.get? x with
    | none => rfl
    | some node => exact (keeps node).2
  · exact children_of_get (get_modify_elsewhere store change same)

theorem changeChildren_parent (change : List NodeId → List NodeId) (node : Node) :
    (changeChildren change node).parent = node.parent := by
  unfold changeChildren
  split <;> rfl

theorem changeChildren_bare (change : List NodeId → List NodeId) (node : Node) :
    (changeChildren change node).bare = node.bare := by
  unfold changeChildren
  split
  · rename_i children found
    simp only [Node.bare, found]
  · rfl

theorem setParent_bare {parent : Option NodeId} (node : Node) : (setParent parent node).bare = node.bare := rfl

theorem changeChildren_children (change : List NodeId → List NodeId) (node : Node)
    (container : node.payload.isContainer = true) :
    (changeChildren change node).payload.children = change node.payload.children := by
  unfold changeChildren
  split
  · rename_i children found
    simp only [Payload.children, found]
  · rename_i other
    cases payload : node.payload with
    | container children => exact absurd payload (other children)
    | _ => simp [Payload.isContainer, payload] at container

theorem parent_modify_children (id : NodeId) (change : List NodeId → List NodeId) (x : NodeId) :
    (store.modify id (changeChildren change)).parentOf x = store.parentOf x := by
  by_cases same : x = id
  · simp only [parentOf, get_modify, if_pos same]
    cases store.get? x with
    | none => rfl
    | some node => exact changeChildren_parent change node
  · exact parent_of_get (get_modify_elsewhere store _ same)

theorem children_modify_children (id : NodeId) (change : List NodeId → List NodeId) (x : NodeId)
    (container : store.holds Payload.isContainer id = true) :
    (store.modify id (changeChildren change)).childrenOf x =
      if x = id then change (store.childrenOf x) else store.childrenOf x := by
  by_cases same : x = id
  · subst same
    rw [if_pos rfl]
    obtain ⟨node, found, isContainer⟩ := (Option.any_eq_true _ _).mp container
    simp only [childrenOf, get_modify, if_pos, found, Option.map_some, Option.getD_some]
    exact changeChildren_children change node isContainer
  · rw [if_neg same]
    exact children_of_get (get_modify_elsewhere store _ same)

theorem parent_modify_parent (id : NodeId) (parent : Option NodeId) (x : NodeId) (exists' : id < store.size) :
    (store.modify id (setParent parent)).parentOf x = if x = id then parent else store.parentOf x := by
  by_cases same : x = id
  · subst same
    obtain ⟨node, found⟩ := get_of_lt exists'
    simp [parentOf, get_modify, found, setParent]
  · rw [if_neg same]
    exact parent_of_get (get_modify_elsewhere store _ same)

theorem children_modify_parent (id : NodeId) (parent : Option NodeId) (x : NodeId) :
    (store.modify id (setParent parent)).childrenOf x = store.childrenOf x := by
  by_cases same : x = id
  · simp only [childrenOf, get_modify, if_pos same]
    cases store.get? x <;> rfl
  · exact children_of_get (get_modify_elsewhere store _ same)

theorem bare_modify {id : NodeId} {change : Node → Node} (keeps : ∀ node, (change node).bare = node.bare) (x : NodeId) :
    (store.modify id change).bare? x = store.bare? x := by
  by_cases same : x = id
  · simp only [bare?, get_modify, if_pos same, Option.map_map]
    congr 1
    exact funext fun node => keeps node
  · exact bare_of_get (get_modify_elsewhere store _ same)

theorem holds_of_bare {store store' : Store} {x : NodeId} (same : store'.bare? x = store.bare? x) {test : Payload → Bool}
    (blind : ∀ node : Node, test node.bare.payload = test node.payload) :
    store'.holds test x = store.holds test x := by
  have read : ∀ s : Store, s.holds test x = (s.bare? x).any fun node => test node.payload := by
    intro s
    simp only [holds, bare?, Option.any_map, blind]
  rw [read, read, same]

theorem disposed_of_bare {store store' : Store} {x : NodeId} (same : store'.bare? x = store.bare? x) :
    store'.isDisposed x = store.isDisposed x := by
  have read : ∀ s : Store, s.isDisposed x = (s.bare? x).any (·.disposed) := by
    intro s
    simp only [isDisposed, bare?, Option.any_map]
    rfl
  rw [read, read, same]

theorem name_of_bare {store store' : Store} {x : NodeId} (same : store'.bare? x = store.bare? x) :
    store'.nameOf x = store.nameOf x := by
  have read : ∀ s : Store, s.nameOf x = ((s.bare? x).map (·.name)).getD "" := by
    intro s
    simp only [nameOf, bare?, Option.map_map, Function.comp_def, Node.bare]
  rw [read, read, same]

theorem bare_isContainer (node : Node) : node.bare.payload.isContainer = node.payload.isContainer := by
  simp only [Node.bare]
  split <;> simp_all [Payload.isContainer]

theorem holds_lt {store : Store} {test : Payload → Bool} {id : NodeId} (holds : store.holds test id = true) : id < store.size := by
  obtain ⟨node, found, _⟩ := (Option.any_eq_true _ _).mp holds
  exact get_some_lt found

end

/-! ### Taking a node out of its container and putting it into one -/

section

variable {store : Store}

theorem container_of_child (linked : Linked store) {child parent : NodeId} (link : store.parentOf child = some parent) :
    store.holds Payload.isContainer parent = true := by
  have member := (linked.agree child parent).mpr link
  obtain ⟨node, found⟩ := get_of_lt (children_lt member)
  simp only [childrenOf, found, Option.map_some, Option.getD_some] at member
  rw [holds, found, Option.any_some]
  cases payload : node.payload with
  | container children => rfl
  | _ => simp [payload, Payload.children] at member

theorem parent_exists (linked : Linked store) {child parent : NodeId} (link : store.parentOf child = some parent) :
    parent < store.size :=
  children_lt ((linked.agree child parent).mpr link)

theorem detach_of_root {child : NodeId} (root : store.parentOf child = none) : store.detach child = store := by
  simp only [detach, root]

theorem detach_of_child {child container : NodeId} (link : store.parentOf child = some container) :
    store.detach child =
      (store.modify container (changeChildren fun children => children.erase child)).modify child (setParent none) := by
  simp only [detach, link, remove]

theorem parent_detach (child x : NodeId) :
    (store.detach child).parentOf x = if x = child then none else store.parentOf x := by
  rcases link : store.parentOf child with _ | container
  · rw [detach_of_root link]
    by_cases same : x = child
    · rw [if_pos same, same, link]
    · rw [if_neg same]
  · rw [detach_of_child link, parent_modify_parent _ _ _ _ (by simpa using parent_lt link)]
    by_cases same : x = child
    · rw [if_pos same, if_pos same]
    · rw [if_neg same, if_neg same]
      exact parent_modify_children store container _ x

theorem children_detach (linked : Linked store) (child x : NodeId) :
    (store.detach child).childrenOf x = (store.childrenOf x).erase child := by
  have absent : store.parentOf child ≠ some x → (store.childrenOf x).erase child = store.childrenOf x :=
    fun elsewhere => List.erase_of_not_mem fun member => elsewhere ((linked.agree child x).mp member)
  rcases link : store.parentOf child with _ | container
  · rw [detach_of_root link]
    exact (absent (by simp [link])).symm
  · rw [detach_of_child link, children_modify_parent, children_modify_children _ _ _ _ (container_of_child linked link)]
    by_cases same : x = container
    · rw [if_pos same]
    · rw [if_neg same]
      exact (absent fun other => same (Option.some.inj (other.symm.trans link))).symm

theorem bare_detach (child x : NodeId) : (store.detach child).bare? x = store.bare? x := by
  rcases link : store.parentOf child with _ | container
  · rw [detach_of_root link]
  · rw [detach_of_child link, bare_modify _ setParent_bare, bare_modify _ (changeChildren_bare _)]

@[simp] theorem size_detach (child : NodeId) : (store.detach child).size = store.size := by
  rcases link : store.parentOf child with _ | container
  · rw [detach_of_root link]
  · simp [detach_of_child link]

@[simp] theorem materials_detach (child : NodeId) : (store.detach child).materials = store.materials := by
  rcases link : store.parentOf child with _ | container
  · rw [detach_of_root link]
  · simp [detach_of_child link]

theorem parent_add {container child : NodeId} (exists' : child < store.size) (x : NodeId) :
    (store.add container child).parentOf x = if x = child then some container else store.parentOf x := by
  rw [add, parent_modify_children, parent_modify_parent _ _ _ _ (by simpa using exists'), parent_detach]
  split <;> simp_all

theorem children_add (linked : Linked store) {container child : NodeId}
    (isContainer : store.holds Payload.isContainer container = true) (x : NodeId) :
    (store.add container child).childrenOf x =
      if x = container then (store.childrenOf x).erase child ++ [child] else (store.childrenOf x).erase child := by
  have still : ((store.detach child).modify child (setParent (some container))).holds Payload.isContainer container =
      true := by
    refine (holds_of_bare ?_ bare_isContainer).trans isContainer
    rw [bare_modify _ setParent_bare, bare_detach]
  rw [add, children_modify_children _ _ _ _ still, children_modify_parent, children_detach linked]

theorem bare_add (container child x : NodeId) : (store.add container child).bare? x = store.bare? x := by
  rw [add, bare_modify _ (changeChildren_bare _), bare_modify _ setParent_bare, bare_detach]

@[simp] theorem size_add (container child : NodeId) : (store.add container child).size = store.size := by
  simp [add]

@[simp] theorem materials_add (container child : NodeId) : (store.add container child).materials = store.materials := by
  simp [add]

end

/-! ### Ancestors -/

section

variable {store : Store}

theorem below_trans {a b c : NodeId} (upper : Below store a b) (lower : Below store b c) : Below store a c := by
  induction lower with
  | top => exact upper
  | child link _ ih => exact .child link ih

theorem below_cases {a x : NodeId} (below : Below store a x) :
    x = a ∨ ∃ parent, store.parentOf x = some parent ∧ Below store a parent := by
  cases below with
  | top => exact Or.inl rfl
  | child link above => exact Or.inr ⟨_, link, above⟩

theorem below_parent {a x parent : NodeId} (below : Below store a x) (link : store.parentOf x = some parent)
    (other : x ≠ a) : Below store a parent := by
  rcases below_cases below with same | ⟨found, link', above⟩
  · exact absurd same other
  · rw [link] at link'
    exact Option.some.inj link' ▸ above

theorem below_exists (linked : Linked store) {a x : NodeId} (below : Below store a x) (exists' : x < store.size) :
    a < store.size := by
  induction below with
  | top => exact exists'
  | child link _ ih => exact ih (parent_exists linked link)

/-- A node without a parent is below itself only. -/
theorem below_root {a x : NodeId} (below : Below store a x) (root : store.parentOf x = none) : x = a := by
  rcases below_cases below with same | ⟨parent, link, _⟩
  · exact same
  · rw [root] at link
    cases link

/-- Two ancestors of one node are one above the other. -/
theorem below_linear {a b x : NodeId} (first : Below store a x) (second : Below store b x) :
    Below store a b ∨ Below store b a := by
  induction first with
  | top => exact Or.inr second
  | child link above ih =>
    rcases below_cases second with same | ⟨parent, link', above'⟩
    · exact Or.inl (same ▸ .child link above)
    · rw [link] at link'
      exact ih (Option.some.inj link' ▸ above')

theorem below_rank {rank : NodeId → Nat}
    (grounded : ∀ child parent, store.parentOf child = some parent → rank parent < rank child) {a x : NodeId}
    (below : Below store a x) : x = a ∨ rank a < rank x := by
  induction below with
  | top => exact Or.inl rfl
  | child link _ ih =>
    have step := grounded _ _ link
    rcases ih with same | higher
    · exact Or.inr (same ▸ step)
    · exact Or.inr (higher.trans step)

theorem not_below_own_child (linked : Linked store) {child parent : NodeId}
    (link : store.parentOf child = some parent) : ¬ Below store child parent := by
  obtain ⟨rank, grounded⟩ := linked.grounded
  intro cycle
  have step := grounded _ _ link
  rcases below_rank grounded cycle with same | higher
  · rw [same] at step
    exact Nat.lt_irrefl _ step
  · exact Nat.lt_asymm step higher

theorem below_antisymm (linked : Linked store) {a b : NodeId} (first : Below store a b) (second : Below store b a) :
    a = b := by
  rcases below_cases first with same | ⟨parent, link, above⟩
  · exact same.symm
  · exact absurd (below_trans second above) (not_below_own_child linked link)

/-- A set of nodes that contains the parent of each of its members. -/
def UpwardClosed (store : Store) (K : NodeId → Prop) : Prop :=
  ∀ child parent, store.parentOf child = some parent → K child → K parent

theorem upward_below {K : NodeId → Prop} (closed : UpwardClosed store K) {a x : NodeId} (below : Below store a x)
    (member : K x) : K a := by
  induction below with
  | top => exact member
  | child link _ ih => exact ih (closed _ _ link member)

/-- Where the parents of an upward closed set stay, so do the ancestors of its members. -/
theorem below_of_same_parents {store' : Store} {K : NodeId → Prop} (closed : UpwardClosed store K)
    (same : ∀ x, K x → store'.parentOf x = store.parentOf x) {a x : NodeId} (below : Below store a x) (member : K x) :
    Below store' a x := by
  induction below with
  | top => exact .top
  | child link _ ih => exact .child ((same _ member).trans link) (ih (closed _ _ link member))

/-- The set of all ancestors of a node, itself included. -/
theorem ancestors_upward (x : NodeId) : UpwardClosed store fun a => Below store a x := by
  intro child parent link below
  exact below_trans (.child link .top) below

end

/-! ### The operations keep the links -/

section

variable {store : Store}

theorem linked_of_same {store' : Store} (linked : Linked store)
    (parents : ∀ x, store'.parentOf x = store.parentOf x) (children : ∀ x, store'.childrenOf x = store.childrenOf x) :
    Linked store' where
  agree child parent := by rw [parents, children]; exact linked.agree child parent
  distinct parent := by rw [children]; exact linked.distinct parent
  grounded := by
    obtain ⟨rank, grounded⟩ := linked.grounded
    exact ⟨rank, fun child parent link => grounded child parent (by rwa [parents] at link)⟩

theorem linked_modify (linked : Linked store) (id : NodeId) {change : Node → Node} (keeps : KeepsLinks change) :
    Linked (store.modify id change) :=
  linked_of_same linked (parent_modify_keep store id keeps) (children_modify_keep store id keeps)

theorem parent_create {node : Node} (root : node.parent = none) (x : NodeId) :
    (store.create node).2.parentOf x = store.parentOf x := by
  by_cases same : x = store.size
  · subst same
    simp [parentOf, get_create, root, get_none_of_le (Nat.le_refl store.size)]
  · exact parent_of_get (get_create_elsewhere store node same)

theorem children_create {node : Node} (barren : node.payload.children = []) (x : NodeId) :
    (store.create node).2.childrenOf x = store.childrenOf x := by
  by_cases same : x = store.size
  · subst same
    simp [childrenOf, get_create, barren, get_none_of_le (Nat.le_refl store.size)]
  · exact children_of_get (get_create_elsewhere store node same)

theorem linked_create (linked : Linked store) {node : Node} (root : node.parent = none)
    (barren : node.payload.children = []) : Linked (store.create node).2 :=
  linked_of_same linked (parent_create root) (children_create barren)

theorem linked_detach (linked : Linked store) (child : NodeId) : Linked (store.detach child) where
  agree x parent := by
    rw [parent_detach, children_detach linked, (linked.distinct parent).mem_erase_iff, linked.agree]
    split <;> simp_all
  distinct parent := by
    rw [children_detach linked]
    exact (linked.distinct parent).erase child
  grounded := by
    obtain ⟨rank, grounded⟩ := linked.grounded
    refine ⟨rank, fun x parent link => grounded x parent ?_⟩
    rw [parent_detach] at link
    split at link
    · cases link
    · exact link

/-- A node goes to the end of a container that is not below it. -/
theorem linked_add (linked : Linked store) {container child : NodeId} (exists' : child < store.size)
    (isContainer : store.holds Payload.isContainer container = true) (apart : ¬ Below store child container) :
    Linked (store.add container child) where
  agree x parent := by
    rw [parent_add exists', children_add linked isContainer]
    by_cases same : x = child
    · subst same
      rw [if_pos rfl]
      split
      · simp_all
      · rename_i elsewhere
        simp [(linked.distinct parent).mem_erase_iff, Ne.symm elsewhere]
    · rw [if_neg same, ← linked.agree]
      split <;> simp [(linked.distinct parent).mem_erase_iff, same]
  distinct parent := by
    rw [children_add linked isContainer]
    have erased := (linked.distinct parent).erase child
    split
    · refine List.nodup_append.mpr ⟨erased, List.nodup_singleton child, ?_⟩
      rintro x member _ last same
      rw [List.mem_singleton.mp last] at same
      rw [same, (linked.distinct parent).mem_erase_iff] at member
      exact member.1 rfl
    · exact erased
  grounded := by
    obtain ⟨rank, grounded⟩ := linked.grounded
    classical
    -- everything below the moved node is ranked after its new container
    refine ⟨fun x => if Below store child x then rank x + rank container + 1 else rank x, fun x parent link => ?_⟩
    rw [parent_add exists'] at link
    beta_reduce
    by_cases same : x = child
    · subst same
      rw [if_pos rfl] at link
      obtain rfl := Option.some.inj link
      rw [if_neg apart, if_pos .top]
      omega
    · rw [if_neg same] at link
      have step := grounded x parent link
      by_cases inside : Below store child x
      · rw [if_pos inside, if_pos (below_parent inside link same)]
        omega
      · rw [if_neg inside, if_neg fun above => inside (.child link above)]
        exact step

end

end Store

end ProceduralScene
