import ProceduralScene.Proofs.Consistency
import ProceduralScene.Proofs.WalkCount

/-!
What a registry keeps over its whole life. Nodes are attached and registered, registered again, released and cleared
in any order; paths and nodes stay contained in each other alike, so that clearing the top level leaves nothing.
-/

set_option autoImplicit false

namespace ProceduralScene

open Store

/-- A scene with the registry of the nodes that were placed in it. -/
structure Stage (β : Type) where
  registry : Registry β
  scene : Scene

namespace Stage

variable {β : Type}

def attached (container child : NodeId) (stage : Stage β) : Stage β :=
  { stage with scene := stage.scene.attach container child }

def registered (entry : Entry β) (stage : Stage β) : Stage β :=
  ⟨(stage.registry.register entry stage.scene).1, (stage.registry.register entry stage.scene).2⟩

def released (path : String) (stage : Stage β) : Stage β :=
  ⟨(stage.registry.release path stage.scene).2.1, (stage.registry.release path stage.scene).2.2⟩

def cleared (stage : Stage β) : Stage β :=
  ⟨(stage.registry.clear stage.scene).1, (stage.registry.clear stage.scene).2⟩

/-- A node that stands in no container, and nothing at or below it was disposed. -/
structure Fresh (root : NodeId) (stage : Stage β) (n : NodeId) : Prop where
  made : n < stage.scene.store.size
  parentless : stage.scene.store.parentOf n = none
  other : n ≠ root
  pristine : ∀ x, Below stage.scene.store n x → stage.scene.store.PristineAt x

/-- The node that entries with a parent path go under: the registered one, or the root for the empty path. -/
def Hosts (root : NodeId) (stage : Stage β) (path : String) (host : NodeId) : Prop :=
  path = "" ∧ host = root ∨ path ≠ "" ∧ ∃ e, stage.registry.get? path = some e ∧ e.node = host

/-- What may happen to a registry and its scene: new nodes are made, a fresh node is attached under the node of its
parent path, outside of the node that it replaces, and registered, an entry is registered once more, a path is
released, everything is cleared. -/
inductive Step (root : NodeId) : Stage β → Stage β → Prop
  | create {stage : Stage β} {store : Store} (grown : Confined stage.scene.store.New stage.scene.store store) :
      Step root stage { stage with scene := { stage.scene with store := store } }
  | register {stage : Stage β} {entry : Entry β} {host container : NodeId} (fresh : Fresh root stage entry.node)
      (hosts : Hosts root stage entry.parentPath host) (under : Below stage.scene.store host container)
      (holds : stage.scene.store.holds Payload.isContainer container = true)
      (outside : ∀ old, stage.registry.get? entry.path = some old →
        ¬ Below (stage.attached container entry.node).scene.store old.node entry.node) :
      Step root stage ((stage.attached container entry.node).registered entry)
  | again {stage : Stage β} {entry : Entry β} (member : entry ∈ stage.registry.entries) :
      Step root stage (stage.registered entry)
  | release {stage : Stage β} (path : String) : Step root stage (stage.released path)
  | clear {stage : Stage β} : Step root stage stage.cleared

/-- The stages that any number of steps lead to. -/
inductive Run (root : NodeId) (start : Stage β) : Stage β → Prop
  | start : Run root start start
  | step {stage next : Stage β} (run : Run root start stage) (step : Step root stage next) : Run root start next

/-- An empty registry over a scene whose root is an empty container, where no geometry is live. -/
structure Begins (root : NodeId) (stage : Stage β) : Prop where
  linked : Linked stage.scene.store
  container : stage.scene.store.holds Payload.isContainer root = true
  parentless : stage.scene.store.parentOf root = none
  childless : stage.scene.store.childrenOf root = []
  undisposed : stage.scene.store.isDisposed root = false
  entries : stage.registry.entries = []
  live : stage.scene.live = []

/-- Paths and nodes are contained in each other alike, nothing in the tree is disposed, and its geometries are counted.
A path may have several entries. -/
structure Kept (root : NodeId) (stage : Stage β) : Prop where
  linked : Linked stage.scene.store
  counted : stage.scene.Counted
  container : stage.scene.store.holds Payload.isContainer root = true
  parentless : stage.scene.store.parentOf root = none
  placed : ∀ e ∈ stage.registry.entries, e.node ≠ root ∧ Below stage.scene.store root e.node
  parents : ∀ e ∈ stage.registry.entries, e.parentPath ≠ "" →
    ∃ f ∈ stage.registry.entries, f.path = e.parentPath ∧ f.node ≠ e.node ∧ Below stage.scene.store f.node e.node
  covered : ∀ x, Below stage.scene.store root x →
    x = root ∨ ∃ e ∈ stage.registry.entries, e.parentPath = "" ∧ Below stage.scene.store e.node x
  pristine : ∀ x, Below stage.scene.store root x → stage.scene.store.PristineAt x
  live : ∀ x, x ∈ stage.scene.live ↔ Below stage.scene.store root x ∧ stage.scene.store.hasLiveGeometry x = true

structure Orderly (root : NodeId) (stage : Stage β) : Prop extends Kept root stage where
  paths : (stage.registry.entries.map (·.path)).Nodup

section

variable {root : NodeId} {stage : Stage β}

theorem container_shape {store : Store} {x : NodeId} (container : store.holds Payload.isContainer x = true) :
    ∃ node, store.get? x = some node ∧ node.payload.geometry? = none := by
  obtain ⟨node, found, shape⟩ := (Option.any_eq_true _ _).mp container
  refine ⟨node, found, ?_⟩
  cases payload : node.payload with
  | container children => rfl
  | _ => simp [payload, Payload.isContainer] at shape

theorem container_shapeless {store : Store} {x : NodeId} (container : store.holds Payload.isContainer x = true) :
    store.hasLiveGeometry x = false := by
  obtain ⟨node, found, none⟩ := container_shape container
  simp [hasLiveGeometry, found, Node.liveGeometry, none]

theorem container_pristine {store : Store} {x : NodeId} (container : store.holds Payload.isContainer x = true)
    (undisposed : store.isDisposed x = false) : store.PristineAt x := by
  obtain ⟨node, found, none⟩ := container_shape container
  intro other same
  rw [found] at same
  cases same
  refine ⟨by simpa [isDisposed, found] using undisposed, fun geometry shape => ?_⟩
  rw [none] at shape
  cases shape

theorem orderly_begins (begins : Begins root stage) : Orderly root stage := by
  have alone : ∀ x, Below stage.scene.store root x → x = root := by
    intro x below
    induction below with
    | top => rfl
    | child link _ ih =>
      have listed := (begins.linked.agree _ _).mpr link
      rw [ih, begins.childless] at listed
      cases listed
  refine ⟨⟨begins.linked, ?_, begins.container, begins.parentless, ?_, ?_, fun x below => .inl (alone x below), ?_, ?_⟩, ?_⟩
  · exact ⟨begins.live ▸ List.nodup_nil, fun x member => by simp [begins.live] at member⟩
  · simp [begins.entries]
  · simp [begins.entries]
  · intro x below
    rw [alone x below]
    exact container_pristine begins.container begins.undisposed
  · intro x
    simp only [begins.live, List.not_mem_nil, false_iff, not_and, Bool.not_eq_true]
    intro below
    rw [alone x below]
    exact container_shapeless begins.container
  · simp [begins.entries]

/-! ### Dropping a registered node -/

/-- A node is taken out of the tree and disposed, and the entries inside it are dropped. -/
def dropped (n : NodeId) (stage : Stage β) : Stage β :=
  ⟨⟨stage.registry.entries.filter fun e => !(stage.scene.store.walk n).contains e.node⟩,
    (stage.scene.detach n).dispose n⟩

theorem mem_dropped (linked : Linked stage.scene.store) {n : NodeId} {e : Entry β} :
    e ∈ (stage.dropped n).registry.entries ↔ e ∈ stage.registry.entries ∧ ¬ Below stage.scene.store n e.node := by
  simp [dropped, mem_walk linked]

theorem Kept.not_above_root (kept : Kept root stage) {e : Entry β} (member : e ∈ stage.registry.entries) :
    ¬ Below stage.scene.store e.node root := fun below =>
  (kept.placed e member).1 (below_root below kept.parentless).symm

theorem kept_dropped (kept : Kept root stage) {e : Entry β} (member : e ∈ stage.registry.entries) :
    Kept root (stage.dropped e.node) := by
  have freed := Scene.freed_dispose kept.linked kept.counted e.node
  have outside := kept.not_above_root member
  have inTree : ∀ x, Below (stage.dropped e.node).scene.store root x ↔
      Below stage.scene.store root x ∧ ¬ Below stage.scene.store e.node x := fun x => freed.below_iff outside
  have entries := fun f => mem_dropped kept.linked (n := e.node) (e := f)
  constructor
  case linked => exact freed.linked
  case counted => exact freed.counted
  case container => exact (holds_of_bare (freed.bare root outside) bare_isContainer).trans kept.container
  case parentless =>
    rw [dropped, freed.parent, kept.parentless]
    split <;> rfl
  case placed =>
    intro f there
    obtain ⟨before, free⟩ := (entries f).mp there
    obtain ⟨other, below⟩ := kept.placed f before
    exact ⟨other, (inTree f.node).mpr ⟨below, free⟩⟩
  case parents =>
    intro f there deeper
    obtain ⟨before, free⟩ := (entries f).mp there
    obtain ⟨g, listed, named, other, below⟩ := kept.parents f before deeper
    -- the host of a node outside is outside as well
    have spared : ¬ Below stage.scene.store e.node g.node := fun above => free (below_trans above below)
    exact ⟨g, (entries g).mpr ⟨listed, spared⟩, named, other, (freed.below_iff spared).mpr ⟨below, free⟩⟩
  case covered =>
    intro x below
    obtain ⟨before, free⟩ := (inTree x).mp below
    rcases kept.covered x before with same | ⟨f, there, top, above⟩
    · exact .inl same
    · have spared : ¬ Below stage.scene.store e.node f.node := fun inside => free (below_trans inside above)
      exact .inr ⟨f, (entries f).mpr ⟨there, spared⟩, top, (freed.below_iff spared).mpr ⟨above, free⟩⟩
  case pristine =>
    intro x below
    obtain ⟨before, free⟩ := (inTree x).mp below
    exact pristine_of_bare (freed.bare x free) (kept.pristine x before)
  case live =>
    intro x
    rw [show x ∈ (stage.dropped e.node).scene.live ↔ _ from freed.live x, kept.live, inTree]
    constructor
    · rintro ⟨⟨below, shape⟩, free⟩
      exact ⟨⟨below, free⟩, (live_of_bare (freed.bare x free)).trans shape⟩
    · rintro ⟨⟨below, free⟩, shape⟩
      exact ⟨⟨below, (live_of_bare (freed.bare x free)).symm.trans shape⟩, free⟩

theorem orderly_dropped (orderly : Orderly root stage) {e : Entry β} (member : e ∈ stage.registry.entries) :
    Orderly root (stage.dropped e.node) :=
  ⟨kept_dropped orderly.toKept member, orderly.paths.sublist (List.filter_sublist.map _)⟩

theorem released_cases (stage : Stage β) (path : String) :
    (∀ e ∈ stage.registry.entries, e.path ≠ path) ∧ stage.released path = stage ∨
      ∃ e ∈ stage.registry.entries, e.path = path ∧ stage.released path = stage.dropped e.node := by
  unfold released Registry.release
  cases found : stage.registry.get? path with
  | none => exact .inl ⟨Registry.get_none found, rfl⟩
  | some e =>
    obtain ⟨member, same⟩ := Registry.get_mem found
    exact .inr ⟨e, member, same, rfl⟩

theorem orderly_released (orderly : Orderly root stage) (path : String) : Orderly root (stage.released path) := by
  rcases released_cases stage path with ⟨_, same⟩ | ⟨e, member, _, same⟩
  · rw [same]
    exact orderly
  · rw [same]
    exact orderly_dropped orderly member

/-! ### Registering a fresh node -/

/-- The stage with one more entry. -/
def entered (entry : Entry β) (stage : Stage β) : Stage β := { stage with registry := ⟨stage.registry.entries ++ [entry]⟩ }

theorem mem_entered {entry e : Entry β} :
    e ∈ (stage.entered entry).registry.entries ↔ e ∈ stage.registry.entries ∨ e = entry := by
  simp [entered]

theorem hosts_placed (kept : Kept root stage) {path : String} {host : NodeId} (hosts : Hosts root stage path host) :
    Below stage.scene.store root host := by
  rcases hosts with ⟨_, rfl⟩ | ⟨_, e, found, rfl⟩
  · exact .top
  · exact (kept.placed e (Registry.get_mem found).1).2

/-- Nothing connects a fresh node and the tree. -/
theorem fresh_apart (kept : Kept root stage) {n : NodeId} (fresh : Fresh root stage n) {x : NodeId}
    (below : Below stage.scene.store root x) : ¬ Below stage.scene.store n x := by
  intro inside
  rcases below_linear below inside with under | above
  · exact fresh.other (below_root under fresh.parentless)
  · exact fresh.other (below_root above kept.parentless).symm

/-- A fresh node is attached under its host and entered; what it replaces is still there. -/
theorem kept_entered (kept : Kept root stage) {entry : Entry β} {host container : NodeId}
    (fresh : Fresh root stage entry.node) (hosts : Hosts root stage entry.parentPath host)
    (under : Below stage.scene.store host container)
    (holds : stage.scene.store.holds Payload.isContainer container = true) :
    Kept root ((stage.attached container entry.node).entered entry) := by
  have placed := hosts_placed kept hosts
  have hung : Below stage.scene.store root container := below_trans placed under
  have linked := linked_add kept.linked fresh.made holds (fresh_apart kept fresh hung)
  obtain ⟨counted, live⟩ := Scene.attach_live kept.counted linked
  have store : (stage.scene.attach container entry.node).store = stage.scene.store.add container entry.node :=
    Scene.attach_store container entry.node stage.scene
  have grows : ∀ {a x : NodeId}, Below stage.scene.store a x → Below (stage.scene.store.add container entry.node) a x :=
    fun below => below_add fresh.parentless fresh.made below
  have link : (stage.scene.store.add container entry.node).parentOf entry.node = some container := by
    rw [parent_add fresh.made, if_pos rfl]
  -- what stands above the container stands above the whole new subtree
  have carried : ∀ {a x : NodeId}, Below stage.scene.store a container → Below stage.scene.store entry.node x →
      Below (stage.scene.store.add container entry.node) a x := by
    intro a x above below
    exact below_trans (.child link (grows above)) (grows below)
  have inTree : ∀ x, Below (stage.scene.store.add container entry.node) root x ↔
      Below stage.scene.store root x ∨ Below stage.scene.store entry.node x := by
    intro x
    exact ⟨below_add_back fresh.made, fun either => either.elim grows (carried hung)⟩
  have apart : ∀ e ∈ stage.registry.entries, e.node ≠ entry.node := by
    intro e member same
    exact fresh_apart kept fresh (kept.placed e member).2 (same ▸ .top)
  unfold attached entered
  generalize stage.scene.attach container entry.node = scene at *
  obtain ⟨store', live', count⟩ := scene
  subst store
  have entries : ∀ e, e ∈ stage.registry.entries ++ [entry] ↔ e ∈ stage.registry.entries ∨ e = entry := by simp
  constructor
  case linked => exact linked
  case counted => exact counted
  case container => exact (holds_of_bare (bare_add container entry.node root) bare_isContainer).trans kept.container
  case parentless =>
    dsimp only
    rw [parent_add fresh.made, if_neg fresh.other.symm]
    exact kept.parentless
  case placed =>
    intro e member
    rcases (entries e).mp member with before | rfl
    · exact ⟨(kept.placed e before).1, grows (kept.placed e before).2⟩
    · exact ⟨fresh.other, (inTree _).mpr (.inr .top)⟩
  case parents =>
    intro e member deeper
    rcases (entries e).mp member with before | rfl
    · obtain ⟨f, there, named, other, below⟩ := kept.parents e before deeper
      exact ⟨f, (entries f).mpr (.inl there), named, other, grows below⟩
    · rcases hosts with ⟨empty, _⟩ | ⟨_, f, found, rfl⟩
      · exact absurd empty deeper
      · obtain ⟨there, named⟩ := Registry.get_mem found
        exact ⟨f, (entries f).mpr (.inl there), named, apart f there, carried under .top⟩
  case covered =>
    intro x below
    rcases (inTree x).mp below with before | inside
    · rcases kept.covered x before with same | ⟨e, there, highest, above⟩
      · exact .inl same
      · exact .inr ⟨e, (entries e).mpr (.inl there), highest, grows above⟩
    · rcases hosts with ⟨empty, _⟩ | ⟨_, f, found, rfl⟩
      · exact .inr ⟨entry, (entries entry).mpr (.inr rfl), empty, grows inside⟩
      · -- the host is registered, so it stands under an entry of the top level
        have there := (Registry.get_mem found).1
        rcases kept.covered f.node placed with same | ⟨e, listed, highest, above⟩
        · exact absurd same (kept.placed f there).1
        · exact .inr ⟨e, (entries e).mpr (.inl listed), highest, carried (below_trans above under) inside⟩
  case pristine =>
    intro x below
    apply pristine_of_bare (bare_add container entry.node x)
    exact ((inTree x).mp below).elim (kept.pristine x) (fresh.pristine x)
  case live =>
    intro x
    dsimp only
    rw [live, kept.live, inTree, live_of_bare (bare_add container entry.node x)]
    constructor
    · rintro (⟨below, shape⟩ | ⟨below, shape⟩)
      · exact ⟨.inl below, shape⟩
      · exact ⟨.inr ((below_add_back fresh.made below).elim id id), shape⟩
    · rintro ⟨below | below, shape⟩
      · exact .inl ⟨below, shape⟩
      · exact .inr ⟨grows below, shape⟩

theorem putEntry_present {entry : Entry β} {entries : List (Entry β)} (distinct : (entries.map (·.path)).Nodup)
    (member : entry ∈ entries) : Registry.putEntry entry entries = entries := by
  induction entries with
  | nil => cases member
  | cons first rest ih =>
    rw [List.map_cons, List.nodup_cons] at distinct
    by_cases same : first.path = entry.path
    · have here : entry = first := by
        rcases List.mem_cons.mp member with here | later
        · exact here
        · exact absurd (List.mem_map.mpr ⟨entry, later, same.symm⟩) distinct.1
      rw [Registry.putEntry, if_pos (by simpa using same), here]
    · have later : entry ∈ rest := by
        rcases List.mem_cons.mp member with here | later
        · exact absurd (here ▸ rfl) same
        · exact later
      rw [Registry.putEntry, if_neg (by simpa using same), ih distinct.2 later]

/-- A new entry goes to the end, and what is inside of a node that it replaces is dropped. -/
theorem registered_cases (paths : (stage.registry.entries.map (·.path)).Nodup) (linked : Linked stage.scene.store)
    {entry : Entry β}
    (outside : ∀ old, stage.registry.get? entry.path = some old → ¬ Below stage.scene.store old.node entry.node) :
    (∀ e ∈ stage.registry.entries, e.path ≠ entry.path) ∧ stage.registered entry = stage.entered entry ∨
      ∃ old ∈ stage.registry.entries, old.path = entry.path ∧
        stage.registered entry = (stage.entered entry).dropped old.node := by
  unfold registered Registry.register Registry.release
  cases found : stage.registry.get? entry.path with
  | none =>
    have absent := Registry.get_none found
    refine .inl ⟨absent, ?_⟩
    dsimp only
    rw [putEntry_absent absent]
    rfl
  | some old =>
    obtain ⟨member, named⟩ := Registry.get_mem found
    have free : ¬ Below stage.scene.store old.node entry.node := outside old found
    have other : old.node ≠ entry.node := fun same => free (same ▸ .top)
    -- without the old node no entry has the path
    have absent : ∀ e ∈ stage.registry.entries.filter fun e => !(stage.scene.store.walk old.node).contains e.node,
        e.path ≠ entry.path := by
      intro e left again
      obtain ⟨there, spared⟩ := List.mem_filter.mp left
      have : e = old := Registry.path_unique paths there member (again.trans named.symm)
      subst this
      simp [mem_walk linked, Below.top] at spared
    refine .inr ⟨old, member, named, ?_⟩
    dsimp only
    rw [if_neg (by simpa using other), putEntry_absent absent]
    simp [dropped, entered, mem_walk linked, free]

theorem paths_entered (paths : (stage.registry.entries.map (·.path)).Nodup) {entry : Entry β} {keeps : Entry β → Bool}
    (absent : ∀ e ∈ stage.registry.entries, keeps e = true → e.path ≠ entry.path) :
    (((stage.entered entry).registry.entries.filter keeps).map (·.path)).Nodup := by
  rw [entered, List.filter_append, List.map_append]
  refine List.nodup_append.mpr ⟨paths.sublist (List.filter_sublist.map _), ?_, ?_⟩
  · exact (List.nodup_singleton entry.path).sublist ((List.filter_sublist (l := [entry])).map _)
  · rintro path listed _ last rfl
    obtain ⟨e, there, again⟩ := List.mem_map.mp listed
    obtain ⟨f, new, named⟩ := List.mem_map.mp last
    have : f = entry := by simpa using (List.mem_filter.mp new).1
    subst this
    exact absent e (List.mem_filter.mp there).1 (List.mem_filter.mp there).2 (again.trans named.symm)

theorem orderly_registered (orderly : Orderly root stage) {entry : Entry β} {host container : NodeId}
    (fresh : Fresh root stage entry.node) (hosts : Hosts root stage entry.parentPath host)
    (under : Below stage.scene.store host container)
    (holds : stage.scene.store.holds Payload.isContainer container = true)
    (outside : ∀ old, stage.registry.get? entry.path = some old →
      ¬ Below (stage.attached container entry.node).scene.store old.node entry.node) :
    Orderly root ((stage.attached container entry.node).registered entry) := by
  have kept := kept_entered orderly.toKept fresh hosts under holds
  have paths : ((stage.attached container entry.node).registry.entries.map (·.path)).Nodup := orderly.paths
  rcases registered_cases paths kept.linked outside with ⟨absent, same⟩ | ⟨old, member, named, same⟩
  · rw [same]
    refine ⟨kept, ?_⟩
    have every : ((stage.attached container entry.node).entered entry).registry.entries.filter (fun _ => true) =
        ((stage.attached container entry.node).entered entry).registry.entries := List.filter_true _
    exact every ▸ paths_entered paths fun e member _ => absent e member
  · rw [same]
    refine ⟨kept_dropped kept (mem_entered.mpr (.inl member)), paths_entered paths fun e there spared again => ?_⟩
    have : e = old := Registry.path_unique paths there member (again.trans named.symm)
    subst this
    have top : e.node ∈ (stage.attached container entry.node).scene.store.walk e.node := walkWithin_top _ e.node
    simp [entered, top] at spared

theorem registered_again (orderly : Orderly root stage) {entry : Entry β} (member : entry ∈ stage.registry.entries) :
    stage.registered entry = stage := by
  unfold registered Registry.register
  rw [Registry.get_path orderly.paths member]
  dsimp only
  rw [if_pos (beq_self_eq_true _), putEntry_present orderly.paths member]

/-! ### Clearing -/

theorem cleared_eq (stage : Stage β) : stage.cleared =
    ⟨Registry.empty, (((stage.registry.entries.filter (·.parentPath == "")).map (·.path)).foldl
      (fun stage path => stage.released path) stage).scene⟩ := by
  have along : ∀ (paths : List String) (stage : Stage β),
      paths.foldl (fun (state : Registry β × Scene) path => (state.1.release path state.2).2) (stage.registry, stage.scene) =
        ((paths.foldl (fun stage path => stage.released path) stage).registry,
          (paths.foldl (fun stage path => stage.released path) stage).scene) := by
    intro paths
    induction paths with
    | nil => exact fun stage => rfl
    | cons path rest ih => exact fun stage => ih (stage.released path)
  unfold cleared Registry.clear
  dsimp only
  rw [along]

theorem released_all (paths : List String) : ∀ {stage : Stage β}, Orderly root stage →
    Orderly root (paths.foldl (fun stage path => stage.released path) stage) ∧
      ∀ e ∈ (paths.foldl (fun stage path => stage.released path) stage).registry.entries,
        e ∈ stage.registry.entries ∧ e.path ∉ paths := by
  induction paths with
  | nil => exact fun orderly => ⟨orderly, fun e member => ⟨member, List.not_mem_nil⟩⟩
  | cons path rest ih =>
    intro stage orderly
    obtain ⟨last, left⟩ := ih (orderly_released orderly path)
    refine ⟨last, fun e member => ?_⟩
    obtain ⟨before, unlisted⟩ := left e member
    -- what is left after the first release is not at its path
    have spared : e ∈ stage.registry.entries ∧ e.path ≠ path := by
      rcases released_cases stage path with ⟨absent, same⟩ | ⟨f, there, named, same⟩
      · rw [same] at before
        exact ⟨before, absent e before⟩
      · rw [same, mem_dropped orderly.linked] at before
        refine ⟨before.1, fun again => before.2 ?_⟩
        rw [Registry.path_unique orderly.paths before.1 there (again.trans named.symm)]
        exact .top
    exact ⟨spared.1, by simp [spared.2, unlisted]⟩

theorem cleared_bald (orderly : Orderly root stage) :
    Orderly root stage.cleared ∧ stage.cleared.registry.entries = [] ∧
      stage.cleared = ((stage.registry.entries.filter (·.parentPath == "")).map (·.path)).foldl
        (fun stage path => stage.released path) stage := by
  obtain ⟨last, left⟩ := released_all ((stage.registry.entries.filter (·.parentPath == "")).map (·.path)) orderly
  rw [cleared_eq]
  generalize ((stage.registry.entries.filter (·.parentPath == "")).map (·.path)).foldl
    (fun stage path => stage.released path) stage = bald at *
  -- an entry stands below one of the top level, and these are all released
  have none : bald.registry.entries = [] := by
    by_contra some
    obtain ⟨e, member⟩ := List.exists_mem_of_ne_nil _ some
    obtain ⟨other, below⟩ := last.placed e member
    rcases last.covered e.node below with same | ⟨f, there, highest, _⟩
    · exact other same
    · obtain ⟨before, unlisted⟩ := left f there
      exact unlisted (List.mem_map.mpr ⟨f, List.mem_filter.mpr ⟨before, by simp [highest]⟩, rfl⟩)
  have same : (⟨Registry.empty, bald.scene⟩ : Stage β) = bald := by
    obtain ⟨⟨entries⟩, scene⟩ := bald
    subst none
    rfl
  rw [same]
  exact ⟨last, none, rfl⟩

theorem alone_of_bald (kept : Kept root stage) (none : stage.registry.entries = []) {x : NodeId}
    (below : Below stage.scene.store root x) : x = root := by
  rcases kept.covered x below with same | ⟨e, member, _⟩
  · exact same
  · simp [none] at member

theorem live_of_bald (kept : Kept root stage) (none : stage.registry.entries = []) : stage.scene.live = [] := by
  apply List.eq_nil_iff_forall_not_mem.mpr
  intro x member
  obtain ⟨below, shape⟩ := (kept.live x).mp member
  rw [alone_of_bald kept none below, container_shapeless kept.container] at shape
  cases shape

/-! ### What became of registered nodes -/

theorem disposed_dropped (linked : Linked stage.scene.store) {n x : NodeId} (made : x < stage.scene.store.size)
    (gone : Below stage.scene.store n x ∨ stage.scene.store.isDisposed x = true) :
    (stage.dropped n).scene.store.isDisposed x = true := by
  have detached : Linked (stage.scene.detach n).store := linked_detach linked n
  have inside : x ∈ (stage.scene.detach n).store.walk n ↔ Below stage.scene.store n x :=
    (mem_walk detached).trans (Scene.below_detach_self linked n x)
  have before := disposed_of_bare (bare_detach n x : (stage.scene.detach n).store.bare? x = stage.scene.store.bare? x)
  have bound : x < (stage.scene.detach n).store.size := by
    show x < (stage.scene.store.detach n).size
    rw [size_detach]
    exact made
  obtain ⟨node, found⟩ := get_of_lt bound
  rw [isDisposed, dropped, Scene.dispose, Scene.disposeAll_get]
  by_cases below : x ∈ (stage.scene.detach n).store.walk n
  · rw [if_pos below, found]
    rfl
  · rw [if_neg below]
    rw [inside] at below
    exact before.trans (gone.resolve_left below)

/-- A node that was registered or disposed is so still. -/
def Accounts (stage next : Stage β) : Prop :=
  ∀ n, (∃ e ∈ stage.registry.entries, e.node = n) ∨ stage.scene.store.isDisposed n = true →
    (∃ e ∈ next.registry.entries, e.node = n) ∨ next.scene.store.isDisposed n = true

theorem disposed_lt {store : Store} {x : NodeId} (disposed : store.isDisposed x = true) : x < store.size := by
  obtain ⟨node, found, _⟩ := (Option.any_eq_true _ _).mp disposed
  exact get_some_lt found

theorem Kept.entry_lt (kept : Kept root stage) {e : Entry β} (member : e ∈ stage.registry.entries) :
    e.node < stage.scene.store.size := by
  obtain ⟨other, below⟩ := kept.placed e member
  rcases below_cases below with same | ⟨p, link, _⟩
  · exact absurd same other
  · exact parent_lt link

theorem accounts_dropped (kept : Kept root stage) (n : NodeId) : Accounts stage (stage.dropped n) := by
  rintro x (⟨e, member, rfl⟩ | disposed)
  · by_cases below : Below stage.scene.store n e.node
    · exact .inr (disposed_dropped kept.linked (kept.entry_lt member) (.inl below))
    · exact .inl ⟨e, (mem_dropped kept.linked).mpr ⟨member, below⟩, rfl⟩
  · exact .inr (disposed_dropped kept.linked (disposed_lt disposed) (.inr disposed))

theorem accounts_released (orderly : Orderly root stage) (path : String) : Accounts stage (stage.released path) := by
  rcases released_cases stage path with ⟨_, same⟩ | ⟨e, _, _, same⟩
  · rw [same]
    exact fun _ => id
  · rw [same]
    exact accounts_dropped orderly.toKept e.node

theorem accounts_cleared (orderly : Orderly root stage) : Accounts stage stage.cleared := by
  rw [(cleared_bald orderly).2.2]
  generalize (stage.registry.entries.filter (·.parentPath == "")).map (·.path) = paths
  induction paths generalizing stage with
  | nil => exact fun _ => id
  | cons path rest ih =>
    intro n known
    exact ih (orderly_released orderly path) n (accounts_released orderly path n known)

theorem accounts_trans {first second third : Stage β} (before : Accounts first second) (after : Accounts second third) :
    Accounts first third := fun n known => after n (before n known)

theorem accounts_create {store : Store} (grown : Confined stage.scene.store.New stage.scene.store store) :
    Accounts stage { stage with scene := { stage.scene with store := store } } := by
  rintro n (listed | disposed)
  · exact .inl listed
  · have old : store.get? n = stage.scene.store.get? n := grown.old n (Nat.not_le_of_lt (disposed_lt disposed))
    exact .inr ((disposed_of_bare (bare_of_get old)).trans disposed)

theorem accounts_attached (container child : NodeId) : Accounts stage (stage.attached container child) := by
  rintro n (listed | disposed)
  · exact .inl listed
  · have bare : (stage.attached container child).scene.store.bare? n = stage.scene.store.bare? n := by
      rw [attached, Scene.attach_store]
      exact bare_add container child n
    exact .inr ((disposed_of_bare bare).trans disposed)

theorem accounts_entered (entry : Entry β) : Accounts stage (stage.entered entry) := by
  rintro n (⟨e, member, same⟩ | disposed)
  · exact .inl ⟨e, mem_entered.mpr (.inl member), same⟩
  · exact .inr disposed

theorem accounts_registered (orderly : Orderly root stage) {entry : Entry β} {host container : NodeId}
    (fresh : Fresh root stage entry.node) (hosts : Hosts root stage entry.parentPath host)
    (under : Below stage.scene.store host container)
    (holds : stage.scene.store.holds Payload.isContainer container = true)
    (outside : ∀ old, stage.registry.get? entry.path = some old →
      ¬ Below (stage.attached container entry.node).scene.store old.node entry.node) :
    Accounts stage ((stage.attached container entry.node).registered entry) := by
  have kept := kept_entered orderly.toKept fresh hosts under holds
  have added : Accounts stage ((stage.attached container entry.node).entered entry) :=
    accounts_trans (accounts_attached container entry.node) (accounts_entered entry)
  have paths : ((stage.attached container entry.node).registry.entries.map (·.path)).Nodup := orderly.paths
  rcases registered_cases paths kept.linked outside with ⟨_, same⟩ | ⟨old, _, _, same⟩
  · rw [same]
    exact added
  · rw [same]
    exact accounts_trans added (accounts_dropped kept old.node)

/-! ### Runs -/

theorem orderly_create (orderly : Orderly root stage) {store : Store}
    (grown : Confined stage.scene.store.New stage.scene.store store) :
    Orderly root { stage with scene := { stage.scene with store := store } } := by
  have old : ∀ x, x < stage.scene.store.size → store.get? x = stage.scene.store.get? x := fun x made =>
    grown.old x (Nat.not_le_of_lt made)
  have linked : Linked store := grown.linked orderly.linked
  have enclosed : Enclosed store stage.scene.store.New :=
    enclosed_confined orderly.linked (enclosed_new orderly.linked) grown
  have within : ∀ {a x}, a < stage.scene.store.size → Below store a x → x < stage.scene.store.size := by
    intro a x made below
    exact Nat.lt_of_not_le fun new => absurd ((enclosed_below enclosed below).mpr new) (Nat.not_le_of_lt made)
  have upward : UpwardClosed store (· < stage.scene.store.size) := fun child parent link made =>
    Nat.lt_of_not_le fun new => absurd ((enclosed child parent link).mpr new) (Nat.not_le_of_lt made)
  -- no link leads from an old node to a new one, so below an old node nothing changes
  have same : ∀ {a x}, a < stage.scene.store.size → (Below store a x ↔ Below stage.scene.store a x) := by
    intro a x made
    constructor
    · intro below
      exact below_of_same_parents upward (fun y made => (parent_of_get (old y made)).symm) below (within made below)
    · intro below
      rcases below_cases below with rfl | ⟨_, link, _⟩
      · exact .top
      · apply below_of_same_parents (fun _ _ link _ => parent_exists orderly.linked link)
          (fun y made => parent_of_get (old y made)) below
        exact parent_lt link
  have rootMade : root < stage.scene.store.size := holds_lt orderly.container
  have inTree : ∀ x, Below store root x ↔ Below stage.scene.store root x := fun x => same rootMade
  have made : ∀ {x}, Below stage.scene.store root x → x < stage.scene.store.size := fun below =>
    within rootMade ((inTree _).mpr below)
  have entryMade := fun {e} member => orderly.toKept.entry_lt (e := e) member
  have living : ∀ {x}, x < stage.scene.store.size → store.hasLiveGeometry x = stage.scene.store.hasLiveGeometry x :=
    fun {x} made => live_of_bare (bare_of_get (old x made))
  refine ⟨?_, orderly.paths⟩
  constructor
  case linked => exact linked
  case counted =>
    refine ⟨orderly.counted.distinct, fun x member => ?_⟩
    exact (living (made ((orderly.live x).mp member).1)).trans (orderly.counted.sound x member)
  case container => exact (holds_of_bare (bare_of_get (old root rootMade)) bare_isContainer).trans orderly.container
  case parentless => exact (parent_of_get (old root rootMade)).trans orderly.parentless
  case placed => exact fun e member => ⟨(orderly.placed e member).1, (inTree e.node).mpr (orderly.placed e member).2⟩
  case parents =>
    intro e member deeper
    obtain ⟨f, there, named, other, below⟩ := orderly.parents e member deeper
    exact ⟨f, there, named, other, (same (entryMade there)).mpr below⟩
  case covered =>
    intro x below
    rcases orderly.covered x ((inTree x).mp below) with top | ⟨e, member, highest, above⟩
    · exact .inl top
    · exact .inr ⟨e, member, highest, (same (entryMade member)).mpr above⟩
  case pristine =>
    intro x below
    have before := (inTree x).mp below
    exact pristine_of_bare (bare_of_get (old x (made before))) (orderly.pristine x before)
  case live =>
    intro x
    dsimp only
    rw [orderly.live, inTree]
    refine and_congr_right fun before => ?_
    rw [living (made before)]

theorem fresh_created (orderly : Orderly root stage) {store : Store} {n : NodeId}
    (grown : Confined stage.scene.store.New stage.scene.store store) (new : stage.scene.store.New n)
    (made : n < store.size) (parentless : store.parentOf n = none) :
    Fresh root { stage with scene := { stage.scene with store := store } } n where
  made := made
  parentless := parentless
  other same := absurd (holds_lt orderly.container) (Nat.not_lt_of_ge (same ▸ new))
  pristine x below := by
    have enclosed := enclosed_confined orderly.linked (enclosed_new orderly.linked) grown
    exact confined_fresh grown x ((enclosed_below enclosed below).mp new)

/-- One step keeps the order, and of the registered nodes it disposes those that it drops. -/
theorem orderly_step {next : Stage β} (orderly : Orderly root stage) (step : Step root stage next) :
    Orderly root next ∧ Accounts stage next := by
  cases step with
  | create grown => exact ⟨orderly_create orderly grown, accounts_create grown⟩
  | register fresh hosts under holds outside =>
    exact ⟨orderly_registered orderly fresh hosts under holds outside,
      accounts_registered orderly fresh hosts under holds outside⟩
  | again member =>
    rw [registered_again orderly member]
    exact ⟨orderly, fun _ => id⟩
  | release path => exact ⟨orderly_released orderly path, accounts_released orderly path⟩
  | clear => exact ⟨(cleared_bald orderly).1, accounts_cleared orderly⟩

theorem orderly_run {next : Stage β} (orderly : Orderly root stage) (run : Run root stage next) :
    Orderly root next ∧ Accounts stage next := by
  induction run with
  | start => exact ⟨orderly, fun _ => id⟩
  | step _ step ih =>
    obtain ⟨last, accounts⟩ := orderly_step ih.1 step
    exact ⟨last, accounts_trans ih.2 accounts⟩

/-- The account of live geometries is what a count over the tree gives. -/
theorem Kept.liveCount (kept : Kept root stage) :
    stage.scene.liveCount = (stage.scene.store.walk root).countP stage.scene.store.ownsGeometry := by
  refine length_of_walk kept.linked kept.counted.distinct fun x => ?_
  rw [kept.live]
  refine and_congr_right fun below => ?_
  rw [pristine_live (kept.pristine x below)]

end

/-- At every point of a run each entry has its scope registered and stands below the node of the scope, no registered
node is disposed, and the live geometries are those of the tree. Clearing leaves no entry and no live geometry, and
every node that was ever registered is disposed and out of the tree. -/
theorem registry_kept {root : NodeId} {start stage : Stage β} (begins : Begins root start) (run : Run root start stage) :
    (∀ e ∈ stage.registry.entries, e.parentPath ≠ "" → ∃ f, stage.registry.get? e.parentPath = some f ∧
      f.node ≠ e.node ∧ e.node ∈ stage.scene.store.walk f.node) ∧
    (∀ e ∈ stage.registry.entries, e.node ∈ stage.scene.store.walk root ∧
      stage.scene.store.isDisposed e.node = false) ∧
    stage.scene.liveCount = (stage.scene.store.walk root).countP stage.scene.store.ownsGeometry ∧
    stage.cleared.registry.entries = [] ∧ stage.cleared.scene.liveCount = 0 ∧
    ∀ earlier, Run root start earlier → Run root earlier stage → ∀ e ∈ earlier.registry.entries,
      e.node ∉ stage.cleared.scene.store.walk root ∧ stage.cleared.scene.store.isDisposed e.node = true := by
  have orderly := (orderly_run (orderly_begins begins) run).1
  obtain ⟨bald, none, _⟩ := cleared_bald orderly
  have walked := fun {a x} => mem_walk (a := a) (x := x) orderly.linked
  refine ⟨?_, ?_, orderly.toKept.liveCount, none, ?_, ?_⟩
  · intro e member deeper
    obtain ⟨f, there, named, other, below⟩ := orderly.parents e member deeper
    exact ⟨f, named ▸ Registry.get_path orderly.paths there, other, walked.mpr below⟩
  · intro e member
    have below := (orderly.placed e member).2
    exact ⟨walked.mpr below, pristine_undisposed (orderly.pristine e.node below)⟩
  · rw [Scene.liveCount, live_of_bald bald.toKept none, List.length_nil]
  · intro earlier before after e member
    obtain ⟨order, _⟩ := orderly_run (orderly_begins begins) before
    -- what was registered then is registered or disposed now, and nothing is registered after clearing
    have accounts := accounts_trans (orderly_run order after).2 (accounts_cleared orderly)
    rcases accounts e.node (.inl ⟨e, member, rfl⟩) with ⟨f, left, _⟩ | disposed
    · rw [none] at left
      cases left
    · refine ⟨fun inside => ?_, disposed⟩
      have standing := pristine_undisposed (bald.pristine e.node ((mem_walk bald.linked).mp inside))
      rw [disposed] at standing
      cases standing

namespace Sample

def start : Stage Unit := ⟨Registry.empty, (Scene.empty.create (Node.ofPayload "Generated" (.container []))).2⟩

/-- A new node is put into a container and registered. -/
def added (node : Node) (container : NodeId) (path parentPath : String) (stage : Stage Unit) : Stage Unit :=
  let (id, store) := stage.scene.store.create node
  let grown : Stage Unit := { stage with scene := { stage.scene with store := store } }
  (grown.attached container id).registered ⟨path, id, parentPath, ()⟩

def group : Node := Node.ofPayload "g" (.container [])

def box : Node := Node.ofPayload "b" (.drawable (some ⟨"box", [], false⟩) none)

/-- A group of one box. -/
def furnished : Stage Unit := added box 1 "g.b" "g" (added group 0 "g" "" start)

/-- Another box takes the place of the first one. -/
def replaced : Stage Unit := added box 1 "g.b" "g" furnished

theorem begins_start : Begins 0 start where
  linked := linked_create ⟨fun _ _ => by simp [Scene.empty, Store.empty, childrenOf, parentOf, get?],
    fun _ => by simp [Scene.empty, Store.empty, childrenOf, get?],
    fun _ => 0, fun _ _ link => by simp [Scene.empty, Store.empty, parentOf, get?] at link⟩ rfl rfl
  container := rfl
  parentless := rfl
  childless := rfl
  undisposed := rfl
  entries := rfl
  live := rfl

theorem run_added {first stage : Stage Unit} {node : Node} {container host : NodeId} {path parentPath : String}
    (orderly : Orderly 0 first) (run : Run 0 first stage) (root : node.parent = none)
    (barren : node.payload.children = []) (pristine : node.Pristine) (hosts : Hosts 0 stage parentPath host)
    (under : Below (stage.scene.store.create node).2 host container)
    (holds : (stage.scene.store.create node).2.holds Payload.isContainer container = true)
    (outside : ∀ old, stage.registry.get? path = some old →
      stage.scene.store.size ∉ ((stage.scene.store.create node).2.add container stage.scene.store.size).walk old.node) :
    Run 0 first (added node container path parentPath stage) := by
  have orderly := (orderly_run orderly run).1
  have grown : Confined stage.scene.store.New stage.scene.store (stage.scene.store.create node).2 :=
    confined_create root barren pristine
  let entry : Entry Unit := ⟨path, stage.scene.store.size, parentPath, ()⟩
  have fresh : Fresh 0 _ entry.node := fresh_created orderly grown (Nat.le_refl _) (by simp [entry])
    (by simp [entry, parentOf, get_create, root])
  have kept := kept_entered (orderly_create orderly grown).toKept fresh hosts under holds
  have moved := Scene.attach_store container entry.node
    { stage.scene with store := (stage.scene.store.create node).2 }
  have linked : Linked ((stage.scene.store.create node).2.add container entry.node) := moved ▸ kept.linked
  refine (run.step (.create grown)).step (.register fresh hosts under holds fun old found below => ?_)
  exact outside old found ((mem_walk linked).mpr (moved ▸ below))

theorem pristine_group : group.Pristine := ⟨rfl, nofun⟩

theorem pristine_box : box.Pristine := ⟨rfl, fun geometry shape => by cases shape; rfl⟩

theorem run_furnished : Run 0 start furnished := by
  have orderly := orderly_begins begins_start
  have grouped : Run 0 start (added group 0 "g" "" start) :=
    run_added orderly .start rfl rfl pristine_group (.inl ⟨rfl, rfl⟩) .top (by decide +kernel) nofun
  exact run_added orderly grouped rfl rfl pristine_box (.inr ⟨by decide, _, rfl, rfl⟩) .top (by decide +kernel) nofun

theorem run_replaced : Run 0 furnished replaced := by
  have orderly := (orderly_run (orderly_begins begins_start) run_furnished).1
  refine run_added orderly .start rfl rfl pristine_box (.inr ⟨by decide, _, rfl, rfl⟩) .top (by decide +kernel) ?_
  intro old found
  have first : furnished.registry.get? "g.b" = some ⟨"g.b", 2, "g", ()⟩ := rfl
  rw [first] at found
  cases found
  decide +kernel

end Sample

theorem run_trans {β : Type} {root : NodeId} {first second third : Stage β} (before : Run root first second)
    (after : Run root second third) : Run root first third := by
  induction after with
  | start => exact before
  | step _ step ih => exact ih.step step

/-- The box that was replaced is disposed like everything that is cleared later. -/
theorem registry_kept_replaced :
    Begins 0 Sample.start ∧ Run 0 Sample.start Sample.replaced ∧
      Sample.replaced.registry.paths = ["g", "g.b"] ∧ Sample.replaced.scene.liveCount = 1 ∧
      Sample.replaced.cleared.scene.liveCount = 0 ∧
      ∀ e ∈ Sample.furnished.registry.entries, Sample.replaced.cleared.scene.store.isDisposed e.node = true := by
  have run := run_trans Sample.run_furnished Sample.run_replaced
  obtain ⟨_, _, counted, _, none, gone⟩ := registry_kept Sample.begins_start run
  refine ⟨Sample.begins_start, run, by decide +kernel, ?_, none, fun e member => ?_⟩
  · rw [counted]
    decide +kernel
  · exact (gone Sample.furnished Sample.run_furnished Sample.run_replaced e member).2

end Stage

end ProceduralScene
