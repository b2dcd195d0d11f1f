import ProceduralScene.Proofs.Outcome
import ProceduralScene.Proofs.Subtree

/-!
What the operations on a scene do: to the links, to the nodes, and to the account of live geometries.
-/

set_option autoImplicit false

namespace ProceduralScene

/-- A change of a node that leaves its place, its geometry and its disposal alone. -/
structure Cosmetic (change : Node → Node) : Prop where
  parent : ∀ node, (change node).parent = node.parent
  children : ∀ node, (change node).payload.children = node.payload.children
  geometry : ∀ node, (change node).payload.geometry? = node.payload.geometry?
  disposed : ∀ node, (change node).disposed = node.disposed
  container : ∀ node, (change node).payload.isContainer = node.payload.isContainer

theorem cosmetic_of_payload {change : Node → Node} (parent : ∀ node, (change node).parent = node.parent)
    (disposed : ∀ node, (change node).disposed = node.disposed)
    (payload : ∀ node, (change node).payload = node.payload) : Cosmetic change :=
  ⟨parent, fun node => by rw [payload], fun node => by rw [payload], disposed, fun node => by rw [payload]⟩

theorem cosmetic_setMaterial (material : MaterialId) : Cosmetic (Scene.setMaterial material) := by
  constructor <;> intro node <;> unfold Scene.setMaterial <;> split <;>
    simp_all [Payload.children, Payload.geometry?, Payload.isContainer]

namespace Store

variable {store : Store} {change : Node → Node}

theorem cosmetic_links (cosmetic : Cosmetic change) : KeepsLinks change :=
  fun node => ⟨cosmetic.parent node, cosmetic.children node⟩

theorem cosmetic_pristine (cosmetic : Cosmetic change) {id x : NodeId} (pristine : store.PristineAt x) :
    (store.modify id change).PristineAt x := by
  intro node found
  rw [get_modify] at found
  split at found
  · obtain ⟨before, read, same⟩ := Option.map_eq_some_iff.mp found
    refine same ▸ ⟨(cosmetic.disposed before).trans (pristine before read).1, fun geometry shape => ?_⟩
    exact (pristine before read).2 geometry (cosmetic.geometry before ▸ shape)
  · exact pristine node found

theorem confined_cosmetic {free : NodeId → Prop} (cosmetic : Cosmetic change) {id : NodeId} (inside : free id) :
    Confined free store (store.modify id change) where
  size := by simp
  old x outside := get_modify_elsewhere store change fun same => outside (same ▸ inside)
  materials _ _ := rfl
  linked linked := linked_modify linked id (cosmetic_links cosmetic)
  pristine given x member := cosmetic_pristine cosmetic (given x member)

theorem live_cosmetic (cosmetic : Cosmetic change) (id x : NodeId) :
    (store.modify id change).hasLiveGeometry x = store.hasLiveGeometry x := by
  simp only [hasLiveGeometry, get_modify]
  split
  · cases store.get? x with
    | none => rfl
    | some node => simp [Node.liveGeometry, cosmetic.geometry]
  · rfl

theorem live_of_bare {store' : Store} {x : NodeId} (same : store'.bare? x = store.bare? x) :
    store'.hasLiveGeometry x = store.hasLiveGeometry x := by
  have read : ∀ s : Store, s.hasLiveGeometry x = (s.bare? x).any Node.liveGeometry := by
    intro s
    have blind : ∀ node : Node, node.bare.liveGeometry = node.liveGeometry := by
      intro node
      simp only [Node.bare, Node.liveGeometry]
      split <;> simp_all [Payload.geometry?]
    simp only [hasLiveGeometry, bare?, Option.any_map, blind]
  rw [read, read, same]

theorem live_lt {x : NodeId} (live : store.hasLiveGeometry x = true) : x < store.size := by
  obtain ⟨node, found, _⟩ := (Option.any_eq_true _ _).mp live
  exact get_some_lt found

end Store

namespace Scene

open Store

/-! ### Disposal -/

theorem dispose_twice (node : Node) : node.dispose.dispose = node.dispose := by
  unfold Node.dispose
  split <;> simp_all

theorem keeps_dispose : KeepsLinks Node.dispose := by
  intro node
  unfold Node.dispose
  refine ⟨rfl, ?_⟩
  split <;> simp_all [Payload.children]

theorem disposeNode_store (scene : Scene) (id : NodeId) :
    (scene.disposeNode id).store = scene.store.modify id Node.dispose := by
  unfold disposeNode
  split <;> rfl

/-- The store after some nodes are disposed. -/
theorem disposeAll_get (ids : List NodeId) : ∀ (scene : Scene) (x : NodeId),
    (ids.foldl disposeNode scene).store.get? x =
      if x ∈ ids then (scene.store.get? x).map Node.dispose else scene.store.get? x := by
  induction ids with
  | nil => exact fun scene x => by simp
  | cons id rest ih =>
    intro scene x
    rw [List.foldl_cons, ih, disposeNode_store, get_modify]
    by_cases here : x = id
    · by_cases later : x ∈ rest <;> simp [here, Option.map_map, Function.comp_def, dispose_twice]
    · simp [here]

theorem disposeAll_size (ids : List NodeId) : ∀ scene : Scene,
    (ids.foldl disposeNode scene).store.size = scene.store.size := by
  induction ids with
  | nil => exact fun scene => rfl
  | cons id rest ih =>
    intro scene
    rw [List.foldl_cons, ih, disposeNode_store, size_modify]

theorem disposeAll_materials (ids : List NodeId) : ∀ scene : Scene,
    (ids.foldl disposeNode scene).store.materials = scene.store.materials := by
  induction ids with
  | nil => exact fun scene => rfl
  | cons id rest ih =>
    intro scene
    rw [List.foldl_cons, ih, disposeNode_store, materials_modify]

theorem disposeAll_links (ids : List NodeId) : ∀ (scene : Scene) (x : NodeId),
    (ids.foldl disposeNode scene).store.parentOf x = scene.store.parentOf x ∧
      (ids.foldl disposeNode scene).store.childrenOf x = scene.store.childrenOf x := by
  induction ids with
  | nil => exact fun scene x => ⟨rfl, rfl⟩
  | cons id rest ih =>
    intro scene x
    obtain ⟨parents, children⟩ := ih (scene.disposeNode id) x
    rw [disposeNode_store] at parents children
    exact ⟨parents.trans (parent_modify_keep _ id keeps_dispose x),
      children.trans (children_modify_keep _ id keeps_dispose x)⟩

/-- An account without repetitions of geometries that are live. -/
structure Counted (scene : Scene) : Prop where
  distinct : scene.live.Nodup
  sound : ∀ x ∈ scene.live, scene.store.hasLiveGeometry x = true

theorem disposeNode_live {scene : Scene} (counted : Counted scene) (id : NodeId) :
    Counted (scene.disposeNode id) ∧ ∀ x, x ∈ (scene.disposeNode id).live ↔ x ∈ scene.live ∧ x ≠ id := by
  have members : ∀ x, x ∈ (scene.disposeNode id).live ↔ x ∈ scene.live ∧ x ≠ id := by
    intro x
    unfold disposeNode
    split
    · rw [counted.distinct.mem_erase_iff, and_comm]
    · rename_i dead
      refine ⟨fun member => ⟨member, fun same => dead (same ▸ counted.sound x member)⟩, And.left⟩
  refine ⟨⟨?_, fun x member => ?_⟩, members⟩
  · unfold disposeNode
    split
    · exact counted.distinct.erase id
    · exact counted.distinct
  · obtain ⟨before, other⟩ := (members x).mp member
    rw [disposeNode_store, hasLiveGeometry, get_modify_elsewhere _ _ other]
    exact counted.sound x before

theorem disposeAll_live (ids : List NodeId) : ∀ {scene : Scene}, Counted scene →
    Counted (ids.foldl disposeNode scene) ∧ ∀ x, x ∈ (ids.foldl disposeNode scene).live ↔ x ∈ scene.live ∧ x ∉ ids := by
  induction ids with
  | nil => exact fun counted => ⟨counted, fun x => by simp⟩
  | cons id rest ih =>
    intro scene counted
    obtain ⟨counted', members⟩ := disposeNode_live counted id
    obtain ⟨last, others⟩ := ih counted'
    refine ⟨last, fun x => ?_⟩
    rw [List.foldl_cons, others, members]
    simp [and_assoc]

/-! ### Attachment -/

theorem enliven_store (scene : Scene) (id : NodeId) : (scene.enliven id).store = scene.store := by
  unfold enliven
  split <;> rfl

theorem enlivenAll_store (ids : List NodeId) : ∀ scene : Scene, (ids.foldl enliven scene).store = scene.store := by
  induction ids with
  | nil => exact fun scene => rfl
  | cons id rest ih => exact fun scene => (ih (scene.enliven id)).trans (enliven_store scene id)

theorem enliven_live {scene : Scene} (counted : Counted scene) (id : NodeId) :
    Counted (scene.enliven id) ∧
      ∀ x, x ∈ (scene.enliven id).live ↔ x ∈ scene.live ∨ x = id ∧ scene.store.hasLiveGeometry x = true := by
  unfold enliven
  split
  · rename_i taken
    simp only [Bool.and_eq_true, Bool.not_eq_true', List.contains_eq_mem, decide_eq_false_iff_not] at taken
    refine ⟨⟨?_, fun x member => ?_⟩, fun x => ?_⟩
    · refine List.nodup_append.mpr ⟨counted.distinct, List.nodup_singleton id, ?_⟩
      rintro x member _ last same
      exact taken.2 (List.mem_singleton.mp last ▸ same ▸ member)
    · rcases List.mem_append.mp member with before | last
      · exact counted.sound x before
      · exact List.mem_singleton.mp last ▸ taken.1
    · rw [List.mem_append, List.mem_singleton]
      refine or_congr Iff.rfl ⟨fun same => ⟨same, same ▸ taken.1⟩, And.left⟩
  · rename_i taken
    refine ⟨counted, fun x => ⟨Or.inl, ?_⟩⟩
    rintro (member | ⟨rfl, live⟩)
    · exact member
    · by_contra absent
      exact taken (by simp [live, absent])

theorem enlivenAll_live (ids : List NodeId) : ∀ {scene : Scene}, Counted scene →
    Counted (ids.foldl enliven scene) ∧
      ∀ x, x ∈ (ids.foldl enliven scene).live ↔ x ∈ scene.live ∨ x ∈ ids ∧ scene.store.hasLiveGeometry x = true := by
  induction ids with
  | nil => exact fun counted => ⟨counted, fun x => by simp⟩
  | cons id rest ih =>
    intro scene counted
    obtain ⟨counted', members⟩ := enliven_live counted id
    obtain ⟨last, others⟩ := ih counted'
    refine ⟨last, fun x => ?_⟩
    rw [List.foldl_cons, others, members, enliven_store, List.mem_cons]
    tauto

/-! ### Painting -/

theorem paint_links (always : Bool) (material : MaterialId) (id : NodeId) (scene : Scene) {free : NodeId → Prop}
    (inside : ∀ x ∈ scene.store.walk id, free x) :
    let painted := scene.paint always material id
    Confined free scene.store painted.store ∧ painted.live = scene.live ∧
      (∀ x, painted.store.parentOf x = scene.store.parentOf x) ∧
      (∀ x, painted.store.childrenOf x = scene.store.childrenOf x) ∧
      ∀ x, painted.store.hasLiveGeometry x = scene.store.hasLiveGeometry x := by
  have within : ∀ x ∈ scene.store.drawables id, free x := fun x member =>
    inside x (List.mem_filter.mp member).1
  unfold paint
  clear inside
  generalize scene.store.drawables id = ids at within
  induction ids generalizing scene with
  | nil => exact ⟨confined_refl _ _, rfl, fun _ => rfl, fun _ => rfl, fun _ => rfl⟩
  | cons first rest ih =>
    rw [List.foldl_cons]
    have later := fun x member => within x (List.mem_cons_of_mem first member)
    split
    · have cosmetic := cosmetic_setMaterial material
      obtain ⟨confined, live, parents, children, geometries⟩ :=
        ih (scene.onStore (·.modify first (setMaterial material))) later
      refine ⟨confined_trans (confined_cosmetic cosmetic (within first (by simp))) confined, live, ?_, ?_, ?_⟩
      · exact fun x => (parents x).trans (parent_modify_keep _ first (cosmetic_links cosmetic) x)
      · exact fun x => (children x).trans (children_modify_keep _ first (cosmetic_links cosmetic) x)
      · exact fun x => (geometries x).trans (live_cosmetic cosmetic first x)
    · exact ih scene later

theorem paint_stays (always : Bool) (material : MaterialId) (id : NodeId) (scene : Scene) :
    (∀ x, (scene.paint always material id).store.parentOf x = scene.store.parentOf x) ∧
      ∀ x, (scene.paint always material id).store.childrenOf x = scene.store.childrenOf x := by
  have anywhere : ∀ x ∈ scene.store.walk id, (fun _ => True) x := fun _ _ => trivial
  obtain ⟨_, _, parents, children, _⟩ := paint_links always material id scene anywhere
  exact ⟨parents, children⟩

/-! ### Moves -/

theorem attach_store (container child : NodeId) (scene : Scene) :
    (scene.attach container child).store = scene.store.add container child :=
  enlivenAll_store _ _

theorem attach_live {scene : Scene} (counted : Counted scene) {container child : NodeId}
    (linked : Linked (scene.store.add container child)) :
    Counted (scene.attach container child) ∧ ∀ x, x ∈ (scene.attach container child).live ↔
      x ∈ scene.live ∨ Below (scene.store.add container child) child x ∧ scene.store.hasLiveGeometry x = true := by
  have placed : Counted (scene.onStore (·.add container child)) :=
    ⟨counted.distinct, fun x member => (live_of_bare (bare_add container child x)).trans (counted.sound x member)⟩
  obtain ⟨counted', members⟩ := enlivenAll_live ((scene.store.add container child).walk child) placed
  refine ⟨counted', fun x => (members x).trans ?_⟩
  rw [mem_walk linked]
  exact or_congr Iff.rfl (and_congr Iff.rfl (by rw [onStore, live_of_bare (bare_add container child x)]))

theorem detach_store (child : NodeId) (scene : Scene) : (scene.detach child).store = scene.store.detach child := rfl

/-- What is below a node does not depend on where the node itself hangs. -/
theorem below_detach_self {store : Store} (linked : Linked store) (n x : NodeId) :
    Below (store.detach n) n x ↔ Below store n x := by
  constructor
  · intro below
    induction below with
    | top => exact .top
    | child link _ ih =>
      rw [parent_detach] at link
      split at link
      · cases link
      · exact .child link ih
  · intro below
    induction below with
    | top => exact .top
    | @child x parent link above ih =>
      refine .child ?_ ih
      rw [parent_detach, if_neg, link]
      exact fun same => not_below_own_child linked link (same ▸ above)

/-- A node is taken out of its container and disposed with everything below it. -/
structure Freed (n : NodeId) (scene scene' : Scene) : Prop where
  size : scene'.store.size = scene.store.size
  materials : scene'.store.materials = scene.store.materials
  parent : ∀ x, scene'.store.parentOf x = if x = n then none else scene.store.parentOf x
  children : ∀ x, scene'.store.childrenOf x = (scene.store.childrenOf x).erase n
  bare : ∀ x, ¬ Below scene.store n x → scene'.store.bare? x = scene.store.bare? x
  linked : Linked scene'.store
  counted : Counted scene'
  live : ∀ x, x ∈ scene'.live ↔ x ∈ scene.live ∧ ¬ Below scene.store n x

theorem freed_dispose {scene : Scene} (linked : Linked scene.store) (counted : Counted scene) (n : NodeId) :
    Freed n scene ((scene.detach n).dispose n) := by
  have detached : Linked (scene.detach n).store := linked_detach linked n
  have counted' : Counted (scene.detach n) :=
    ⟨counted.distinct, fun x member => (live_of_bare (bare_detach n x)).trans (counted.sound x member)⟩
  have inside : ∀ x, x ∈ (scene.detach n).store.walk n ↔ Below scene.store n x := fun x =>
    (mem_walk detached).trans (below_detach_self linked n x)
  obtain ⟨last, members⟩ := disposeAll_live ((scene.detach n).store.walk n) counted'
  have links := disposeAll_links ((scene.detach n).store.walk n) (scene.detach n)
  exact
    { size := (disposeAll_size _ _).trans (size_detach n)
      materials := (disposeAll_materials _ _).trans (materials_detach n)
      parent := fun x => (links x).1.trans (parent_detach n x)
      children := fun x => (links x).2.trans (children_detach linked n x)
      bare := fun x outside => by
        refine (bare_of_get ?_).trans (bare_detach n x)
        rw [dispose, disposeAll_get, if_neg fun member => outside ((inside x).mp member)]
        rfl
      linked := linked_of_same detached (fun x => (links x).1) fun x => (links x).2
      counted := last
      live := fun x => by rw [dispose, members, inside]; rfl }

end Scene

end ProceduralScene
