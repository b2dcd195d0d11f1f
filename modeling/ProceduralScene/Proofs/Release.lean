import ProceduralScene.Proofs.WalkCount
import ProceduralScene.Scene.Registry

/-!
What a release takes away. The nodes at and below the released one are found by a walk, whatever the paths of their
entries look like; they and no others are disposed, each geometry among them once, and their entries are dropped.
-/

set_option autoImplicit false

namespace ProceduralScene

open Store

namespace Scene

theorem bare_dispose (node : Node) : node.dispose.bare = node.bare.dispose := by
  cases shape : node.payload with
  | drawable geometry material => cases geometry <;> simp [Node.dispose, Node.bare, shape]
  | _ => simp [Node.dispose, Node.bare, shape]

theorem live_dispose (node : Node) : node.dispose.liveGeometry = false := by
  cases shape : node.payload with
  | drawable geometry material =>
    cases geometry <;> simp [Node.dispose, Node.liveGeometry, Payload.geometry?, shape]
  | _ => simp [Node.dispose, Node.liveGeometry, Payload.geometry?, shape]

theorem live_disposeNode (scene : Scene) (id x : NodeId) :
    (scene.disposeNode id).store.hasLiveGeometry x = (scene.store.hasLiveGeometry x && decide (x ≠ id)) := by
  rw [disposeNode_store, hasLiveGeometry, get_modify]
  by_cases here : x = id
  · simp [here, Option.any_map, live_dispose]
  · simp [here, hasLiveGeometry]

/-- The account after nodes are disposed: each live geometry among them is counted once and taken out. -/
theorem disposeAll_account (ids : List NodeId) : ∀ {scene : Scene}, ids.Nodup → scene.live.Nodup →
    (ids.foldl disposeNode scene).disposedCount = scene.disposedCount + ids.countP scene.store.hasLiveGeometry ∧
    (ids.foldl disposeNode scene).live =
      scene.live.filter fun x => !(decide (x ∈ ids) && scene.store.hasLiveGeometry x) := by
  induction ids with
  | nil => exact fun _ _ => by simp
  | cons id rest ih =>
    intro scene apart distinct
    obtain ⟨new, apart'⟩ := List.nodup_cons.mp apart
    have distinct' : (scene.disposeNode id).live.Nodup := by
      unfold disposeNode
      split
      · exact distinct.erase id
      · exact distinct
    obtain ⟨count, live⟩ := ih apart' distinct'
    -- the first node is not met again, so the rest still has the geometries that it had
    have same : ∀ x, x ∈ rest → (scene.disposeNode id).store.hasLiveGeometry x = scene.store.hasLiveGeometry x := by
      intro x later
      have other : x ≠ id := fun here => new (here ▸ later)
      simp [live_disposeNode, other]
    rw [List.foldl_cons, count, live, List.countP_congr fun x later => by rw [same x later], List.countP_cons]
    by_cases shown : scene.store.hasLiveGeometry id = true
    · have first : (scene.disposeNode id).live = scene.live.erase id ∧
          (scene.disposeNode id).disposedCount = scene.disposedCount + 1 := by simp [disposeNode, shown]
      rw [first.1, first.2, distinct.erase_eq_filter, List.filter_filter]
      refine ⟨by simp [shown]; omega, List.filter_congr fun x _ => ?_⟩
      by_cases here : x = id <;> simp [here, shown, new, live_disposeNode]
    · have first : (scene.disposeNode id).live = scene.live ∧
          (scene.disposeNode id).disposedCount = scene.disposedCount := by simp [disposeNode, shown, onStore]
      rw [first.1, first.2]
      refine ⟨by simp [shown], List.filter_congr fun x _ => ?_⟩
      by_cases here : x = id <;> simp [here, shown, live_disposeNode]

theorem mem_walk_detached {scene : Scene} (linked : Linked scene.store) {n x : NodeId} :
    x ∈ (scene.detach n).store.walk n ↔ Below scene.store n x :=
  (mem_walk (linked_detach linked n)).trans (below_detach_self linked n x)

open Classical in
theorem get_withdrawn {scene : Scene} (linked : Linked scene.store) (n x : NodeId) :
    ((scene.detach n).dispose n).store.get? x =
      if Below scene.store n x then ((scene.detach n).store.get? x).map Node.dispose
      else (scene.detach n).store.get? x := by
  rw [dispose, disposeAll_get]
  simp only [mem_walk_detached linked]

theorem live_detached (scene : Scene) (n x : NodeId) :
    (scene.detach n).store.hasLiveGeometry x = scene.store.hasLiveGeometry x := live_of_bare (bare_detach n x)

end Scene

namespace Registry

variable {β : Type}

open Classical in
/-- What is so when the nodes at and below `n` were removed and everything else was kept. -/
structure Removes (n : NodeId) (registry : Registry β) (scene : Scene) (outcome : Nat × Registry β × Scene) : Prop where
  count : outcome.1 = registry.entries.countP fun e => Below scene.store n e.node
  entries : outcome.2.1.entries = registry.entries.filter fun e => ¬ Below scene.store n e.node
  parent : ∀ x, outcome.2.2.store.parentOf x = if x = n then none else scene.store.parentOf x
  children : ∀ x, outcome.2.2.store.childrenOf x = (scene.store.childrenOf x).erase n
  disposed : ∀ x, x < scene.store.size →
    (outcome.2.2.store.isDisposed x = true ↔ scene.store.isDisposed x = true ∨ Below scene.store n x)
  geometry : ∀ x, outcome.2.2.store.hasLiveGeometry x = true ↔
    scene.store.hasLiveGeometry x = true ∧ ¬ Below scene.store n x
  live : outcome.2.2.live =
    scene.live.filter fun x => ¬ (Below scene.store n x ∧ scene.store.hasLiveGeometry x = true)
  disposals : outcome.2.2.disposedCount = scene.disposedCount +
    (List.range scene.store.size).countP fun x => Below scene.store n x ∧ scene.store.hasLiveGeometry x = true
  look : ∀ x, outcome.2.2.store.bare? x =
    if Below scene.store n x then (scene.store.bare? x).map Node.dispose else scene.store.bare? x
  materials : outcome.2.2.store.materials = scene.store.materials

section

variable {registry : Registry β} {scene : Scene} {n : NodeId}

open Classical

theorem kept_filter (linked : Linked scene.store) :
    (registry.entries.filter fun found => !(scene.store.walk n).contains found.node) =
      registry.entries.filter fun e => ¬ Below scene.store n e.node :=
  List.filter_congr fun e _ => by simp [mem_walk linked]

theorem disposed_withdrawn (linked : Linked scene.store) {x : NodeId} (made : x < scene.store.size) :
    ((scene.detach n).dispose n).store.isDisposed x = true ↔
      scene.store.isDisposed x = true ∨ Below scene.store n x := by
  have kept : x < (scene.detach n).store.size := by rwa [Scene.detach_store, size_detach]
  obtain ⟨node, got⟩ := get_of_lt kept
  have same : (scene.detach n).store.isDisposed x = scene.store.isDisposed x := disposed_of_bare (bare_detach n x)
  rw [← same, isDisposed, isDisposed, Scene.get_withdrawn linked, got]
  by_cases below : Below scene.store n x <;> simp [below, Node.dispose]

theorem geometry_withdrawn (linked : Linked scene.store) (x : NodeId) :
    ((scene.detach n).dispose n).store.hasLiveGeometry x = true ↔
      scene.store.hasLiveGeometry x = true ∧ ¬ Below scene.store n x := by
  rw [← Scene.live_detached scene n x, hasLiveGeometry, hasLiveGeometry, Scene.get_withdrawn linked]
  by_cases below : Below scene.store n x
  · simp [below, Option.any_map, Scene.live_dispose]
  · simp [below]

theorem look_withdrawn (linked : Linked scene.store) (x : NodeId) :
    ((scene.detach n).dispose n).store.bare? x =
      if Below scene.store n x then (scene.store.bare? x).map Node.dispose else scene.store.bare? x := by
  have same : (scene.detach n).store.bare? x = scene.store.bare? x := bare_detach n x
  rw [← same, bare?, bare?, Scene.get_withdrawn linked]
  by_cases below : Below scene.store n x
  · simp [below, Option.map_map, Function.comp_def, Scene.bare_dispose]
  · simp [below]

/-- The geometries that are disposed, counted over all nodes. -/
theorem disposals_withdrawn (linked : Linked scene.store) :
    ((scene.detach n).store.walk n).countP (scene.detach n).store.hasLiveGeometry =
      (List.range scene.store.size).countP fun x => Below scene.store n x ∧ scene.store.hasLiveGeometry x = true := by
  rw [List.countP_eq_length_filter (l := List.range _)]
  refine (length_of_walk (linked_detach linked n) (List.nodup_range.filter _) fun x => ?_).symm
  rw [List.mem_filter, List.mem_range, decide_eq_true_eq, Scene.below_detach_self linked, Scene.live_detached]
  exact and_iff_right_of_imp fun both => live_lt both.2

theorem removes_release (linked : Linked scene.store) (distinct : scene.live.Nodup) {path : String} {entry : Entry β}
    (found : registry.get? path = some entry) :
    Removes entry.node registry scene (registry.release path scene) := by
  have detached : Linked (scene.detach entry.node).store := linked_detach linked entry.node
  obtain ⟨counted, live⟩ := Scene.disposeAll_account ((scene.detach entry.node).store.walk entry.node)
    (walk_nodup detached entry.node) (show (scene.detach entry.node).live.Nodup from distinct)
  have links := Scene.disposeAll_links ((scene.detach entry.node).store.walk entry.node) (scene.detach entry.node)
  rw [release, found]
  exact
    { count := by
        dsimp only
        rw [kept_filter linked, size, List.countP_eq_length_filter]
        have both := registry.entries.length_eq_length_filter_add fun e => Below scene.store entry.node e.node
        simp only [decide_not] at both ⊢
        omega
      entries := kept_filter linked
      parent := fun x => (links x).1.trans (parent_detach entry.node x)
      children := fun x => (links x).2.trans (children_detach linked entry.node x)
      disposed := fun x made => disposed_withdrawn linked made
      geometry := geometry_withdrawn linked
      live := by
        refine live.trans (List.filter_congr fun x _ => ?_)
        simp [Scene.mem_walk_detached linked, Scene.live_detached]
      disposals := counted.trans (congrArg (scene.disposedCount + ·) (disposals_withdrawn linked))
      look := look_withdrawn linked
      materials := (Scene.disposeAll_materials _ _).trans (materials_detach entry.node) }

end

/-- Releasing a path removes the subtree of the node that is registered there, and nothing where none is. -/
theorem release_exact (registry : Registry β) (scene : Scene) (linked : Linked scene.store)
    (distinct : scene.live.Nodup) (path : String) :
    (∀ entry, registry.get? path = some entry →
      Removes entry.node registry scene (registry.release path scene)) ∧
    (registry.get? path = none → registry.release path scene = (0, registry, scene)) := by
  refine ⟨fun entry found => removes_release linked distinct found, fun missing => ?_⟩
  rw [release, missing]

namespace Sample

def placed (parent : Option NodeId) (payload : Payload) : Node := { Node.ofPayload "" payload with parent := parent }

def box : Payload := .drawable (some ⟨"box", [], false⟩) none

/-- A group of a registered and an unregistered box, and beside it a box whose path looks like one of the group's. -/
def scene : Scene where
  store := ⟨#[placed none (.container [1, 4]), placed (some 0) (.container [2, 3]), placed (some 1) box,
    placed (some 1) box, placed (some 0) box], #[Material.fallback]⟩
  live := [2, 3, 4]
  disposedCount := 0

def registry : Registry Unit := ⟨[⟨"g", 1, "", ()⟩, ⟨"g.a", 2, "g", ()⟩, ⟨"g.b", 4, "", ()⟩]⟩

theorem parent_scene (x : NodeId) :
    scene.store.parentOf x = [none, some 0, some 1, some 1, some 0].getD x none := by
  rcases x with _ | _ | _ | _ | _ | x <;> rfl

theorem children_scene (x : NodeId) : scene.store.childrenOf x = [[1, 4], [2, 3]].getD x [] := by
  rcases x with _ | _ | _ | _ | _ | x <;> rfl

theorem linked_scene : Linked scene.store where
  agree child parent := by
    rw [parent_scene, children_scene]
    rcases child with _ | _ | _ | _ | _ | child <;> rcases parent with _ | _ | parent <;> simp
  distinct parent := by
    rw [children_scene]
    rcases parent with _ | _ | parent <;> simp
  grounded := by
    refine ⟨fun x => [0, 1, 2, 2, 1].getD x 0, fun child parent link => ?_⟩
    rw [parent_scene] at link
    rcases child with _ | _ | _ | _ | _ | child <;> simp at link <;> subst link <;> decide

end Sample

/-- The group goes with both of its boxes, and the box beside it stays. -/
theorem release_exact_dotted :
    let outcome := Sample.registry.release "g" Sample.scene
    Linked Sample.scene.store ∧ Sample.scene.live.Nodup ∧ Sample.registry.get? "g" = some ⟨"g", 1, "", ()⟩ ∧
      Removes 1 Sample.registry Sample.scene outcome ∧ outcome.1 = 2 ∧ outcome.2.1.paths = ["g.b"] ∧
      outcome.2.2.live = [4] ∧ outcome.2.2.disposedCount = 2 := by
  have distinct : Sample.scene.live.Nodup := by decide
  have removes := (release_exact Sample.registry Sample.scene Sample.linked_scene distinct "g").1 _ rfl
  exact ⟨Sample.linked_scene, distinct, rfl, removes, rfl, rfl, rfl, rfl⟩

end Registry

end ProceduralScene
