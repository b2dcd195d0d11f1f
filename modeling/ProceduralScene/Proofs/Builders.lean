import ProceduralScene.Factory.Table
import ProceduralScene.Proofs.PlainValue
import ProceduralScene.Proofs.SceneSteps

/-!
What factories do to a scene. A builder makes new nodes and leaves all others alone; the stock factory of groups also
moves the nodes that it is given into its new container.
-/

set_option autoImplicit false

namespace ProceduralScene

open Store

/-- Only `free` nodes change, and the account of geometries stays. -/
structure SceneConfined (free : NodeId → Prop) (scene scene' : Scene) : Prop where
  store : Confined free scene.store scene'.store
  live : scene'.live = scene.live
  disposedCount : scene'.disposedCount = scene.disposedCount

theorem steady_confined (free : NodeId → Prop) : Steady (SceneConfined free) where
  refl _ := ⟨confined_refl free _, rfl, rfl⟩
  trans first second := ⟨confined_trans first.store second.store, second.live.trans first.live,
    second.disposedCount.trans first.disposedCount⟩

theorem scene_confined_mono {free more : NodeId → Prop} (wider : ∀ id, free id → more id) {scene scene' : Scene}
    (confined : SceneConfined free scene scene') : SceneConfined more scene scene' :=
  ⟨confined_mono wider confined.store, confined.live, confined.disposedCount⟩

/-- All nodes in a value are free and exist. -/
def Value.Among (free : NodeId → Prop) (store : Store) (value : Value) : Prop :=
  ∀ id ∈ value.nodes, free id ∧ id < store.size

theorem among_of_plain {free : NodeId → Prop} {store : Store} {value : Value} (plain : value.isPlain = true) :
    value.Among free store := by
  intro id member
  rw [Value.plain_nodes value plain] at member
  cases member

theorem among_mono {free more : NodeId → Prop} (wider : ∀ id, free id → more id) {store store' : Store}
    (size : store.size ≤ store'.size) {value : Value} (among : value.Among free store) : value.Among more store' :=
  fun id member => ⟨wider id (among id member).1, (among id member).2.trans_le size⟩

namespace SceneAction

theorem reads_lift {α : Type} (result : Except Failure α) : Reads (SceneAction.lift result) := by
  unfold SceneAction.lift
  exact reads_except result

theorem reads_store : Reads SceneAction.store := reads_bind reads_get fun _ => reads_pure _

end SceneAction

namespace Factory

open SceneAction

/-- A factory that makes new nodes, hands out only these, and leaves all others alone. -/
def Builds (factory : Factory) : Prop :=
  ∀ params scene, Linked scene.store → Within (SceneConfined scene.store.New) (factory params) scene
    fun value after => value.Among scene.store.New after.store

/-! ### The stock builders -/

section

variable {scene : Scene}

theorem builds_create {node : Node} (root : node.parent = none) (barren : node.payload.children = [])
    (pristine : node.Pristine) : Within (SceneConfined scene.store.New) (SceneAction.create node) scene
      fun id after => id = scene.store.size ∧ after.store = (scene.store.create node).2 :=
  ends_modifyGet ⟨⟨confined_create root barren pristine, rfl, rfl⟩, rfl, rfl⟩

end

theorem memberNodes_nodes {values : List Value} {id : NodeId} (member : id ∈ memberNodes values) :
    ∃ value ∈ values, id ∈ value.nodes := by
  obtain ⟨value, listed, found⟩ := List.mem_flatMap.mp member
  refine ⟨value, listed, ?_⟩
  have single : ∀ v : Value, id ∈ memberNodes.asNode v → id ∈ v.nodes := by
    intro v named
    unfold memberNodes.asNode at named
    split at named
    · exact List.mem_singleton.mpr (Option.some.inj named).symm
    · cases named
  split at found
  · rename_i members
    obtain ⟨inner, held, named⟩ := List.mem_filterMap.mp found
    exact (Value.mem_nodesOfItems members).mpr ⟨inner, held, single inner named⟩
  · exact single value (Option.mem_toList.mp found)

/-- The nodes that a value hands to a group are among all its nodes. -/
theorem items_nodes {value : Value} {items : List Value} (listed : value.items = .ok items) {id : NodeId}
    (member : id ∈ memberNodes items) : id ∈ value.nodes := by
  obtain ⟨item, here, inside⟩ := memberNodes_nodes member
  unfold Value.items at listed
  split at listed
  · cases listed
    exact (Value.mem_nodesOfItems _).mpr ⟨item, here, inside⟩
  · cases listed
    obtain ⟨c, _, same⟩ := List.mem_map.mp here
    rw [← same] at inside
    cases inside
  · cases listed
    obtain ⟨entry, _, same⟩ := List.mem_map.mp here
    rw [← same] at inside
    cases key : entry.1 <;> rw [key] at inside <;> cases inside
  · cases listed

/-- All nodes that the parameter `children` holds are free and exist. -/
def ChildrenAmong (free : NodeId → Prop) (store : Store) (params : Value) : Prop :=
  ∀ entries, params = .map entries → (param entries "children" .null).Among free store

section

variable {free : NodeId → Prop}

theorem confined_members {container : NodeId} (freeContainer : free container) (members : List NodeId) :
    ∀ store : Store, Linked store → Enclosed store free → (∀ id ∈ members, free id ∧ id < store.size ∧ id ≠ container) →
      store.parentOf container = none → store.holds Payload.isContainer container = true →
      Confined free store (members.foldl (fun store child => store.add container child) store) := by
  induction members with
  | nil => exact fun store _ _ _ _ _ => confined_refl free store
  | cons child rest ih =>
    intro store linked enclosed among root isContainer
    obtain ⟨freeChild, here, other⟩ := among child (by simp)
    have apart : ¬ Below store child container := fun below => other (below_root below root).symm
    have added := confined_add enclosed freeContainer freeChild here isContainer apart
    refine confined_trans added (ih _ (added.linked linked) (enclosed_confined linked enclosed added) ?_ ?_ ?_)
    · exact fun id member => by simpa using among id (by simp [member])
    · rw [parent_add here, if_neg (Ne.symm other), root]
    · exact (holds_of_bare (bare_add _ _ _) bare_isContainer).trans isContainer

theorem group_confined (params : Value) {scene : Scene} (linked : Linked scene.store) (enclosed : Enclosed scene.store free)
    (wide : ∀ id, scene.store.New id → free id) (among : ChildrenAmong free scene.store params) :
    Within (SceneConfined free) (group params) scene fun value after => value.Among free after.store := by
  unfold group entriesOf
  split
  · rename_i entries
    refine within_pure_bind ?_
    refine within_reads (steady_confined _) reads_store fun store => ?_
    refine within_reads (steady_confined _) (reads_lift _) fun name => ?_
    refine within_bind_to (steady_confined _) (fun members after => after = scene ∧
      ∀ id ∈ memberNodes members, free id ∧ id < scene.store.size) ?_ ?_
    · unfold SceneAction.lift
      refine within_match_except (steady_confined _) fun members listed => ⟨rfl, fun id member => ?_⟩
      split at listed
      · exact among entries rfl id (items_nodes listed member)
      · cases listed
        cases member
    · rintro members before _ ⟨same, free'⟩
      rw [same]
      refine within_bind_to (steady_confined _) (fun id after => id = scene.store.size ∧
        after.store = (scene.store.create (Node.ofPayload name (.container []))).2) ?_ ?_
      · refine within_mono (builds_create rfl rfl ⟨rfl, fun _ same => by cases same⟩) (fun after grown => ?_) fun id after _ made => made
        exact scene_confined_mono wide grown
      · rintro id after made ⟨rfl, created⟩
        have read : after.store.get? scene.store.size = some (Node.ofPayload name (.container [])) := by
          rw [created, get_create, if_pos rfl]
        have moved : Confined free after.store
            ((memberNodes members).foldl (fun store child => store.add scene.store.size child) after.store) := by
          refine confined_members (wide _ (Nat.le_refl _)) _ after.store (made.store.linked linked)
            (enclosed_confined linked enclosed made.store) (fun id member => ?_) ?_ ?_
          · obtain ⟨inside, here⟩ := free' id member
            exact ⟨inside, here.trans_le made.store.size, Nat.ne_of_lt here⟩
          · simp [parentOf, read, Node.ofPayload]
          · simp [holds, read, Node.ofPayload, Payload.isContainer]
        refine within_seq (steady_confined _) (within_modify ⟨moved, rfl, rfl⟩ trivial) fun _ last placed => ?_
        refine within_pure (steady_confined _) fun id member => ?_
        rw [List.mem_singleton.mp member]
        exact ⟨wide _ (Nat.le_refl _), (get_some_lt read).trans_le placed.store.size⟩
  · exact within_throw_bind (steady_confined _)

end

end Factory

namespace FactoryTable

/-- Every factory is a builder, or else the stock factory of groups under its own name. -/
def Sound (table : FactoryTable) : Prop :=
  ∀ entry ∈ table, entry.2.Builds ∨ entry = ("group", Factory.group)

/-- A factory under its name in a sound table. -/
def SoundEntry (name : String) (factory : Factory) : Prop :=
  factory.Builds ∨ name = "group" ∧ factory = Factory.group

theorem find_sound {table : FactoryTable} (sound : table.Sound) {nodeText : NodeText} {value : Value} {name : String}
    {factory : Factory} (found : table.find nodeText value = .ok (name, factory)) :
    value = .text name ∧ SoundEntry name factory := by
  unfold find at found
  split at found
  · split at found
    · rename_i s factory' read
      cases found
      refine ⟨rfl, ?_⟩
      rcases sound _ (Value.lookup_mem read) with builds | same
      · exact Or.inl builds
      · cases same
        exact Or.inr ⟨rfl, rfl⟩
    · cases found
  · cases found
  · cases found
  · cases shown : value.display nodeText <;> rw [shown] at found <;> cases found

theorem invoke_confined {free : NodeId → Prop} {name : String} {factory : Factory} (sound : SoundEntry name factory)
    (params : Value) {scene : Scene} (linked : Linked scene.store) (enclosed : Enclosed scene.store free)
    (wide : ∀ id, scene.store.New id → free id)
    (among : name = "group" → Factory.ChildrenAmong free scene.store params) :
    Within (SceneConfined free) (invoke name factory params) scene fun value after => value.Among free after.store := by
  have body : Within (SceneConfined free) (factory params) scene fun value after => value.Among free after.store := by
    rcases sound with builds | ⟨named, rfl⟩
    · refine within_mono (builds params scene linked) (fun after grown => scene_confined_mono wide grown) ?_
      exact fun value after _ made => among_mono wide (Nat.le_refl _) made
    · exact Factory.group_confined params linked enclosed wide (among named)
  exact ends_tryCatch (ends_mono body (fun _ _ both => both) fun after grown failure => ends_throw grown)

end FactoryTable

end ProceduralScene
