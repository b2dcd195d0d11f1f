import ProceduralScene.Build.Place
import ProceduralScene.Proofs.Coherence

/-!
Putting a finished node into its place: it gets its name and transform, goes into its parent, and its entry takes the
place of whatever was registered at its path meanwhile.
-/

set_option autoImplicit false

namespace ProceduralScene

open Store

/-- Only the look of a node changed. -/
structure Alike (n : NodeId) (scene scene' : Scene) : Prop where
  size : scene'.store.size = scene.store.size
  materials : scene'.store.materials = scene.store.materials
  live : scene'.live = scene.live
  parent : ∀ x, scene'.store.parentOf x = scene.store.parentOf x
  children : ∀ x, scene'.store.childrenOf x = scene.store.childrenOf x
  geometry : ∀ x, scene'.store.hasLiveGeometry x = scene.store.hasLiveGeometry x
  pristine : ∀ x, scene.store.PristineAt x → scene'.store.PristineAt x
  elsewhere : ∀ x, x ≠ n → scene'.store.get? x = scene.store.get? x

section

variable {n : NodeId} {scene : Scene}

theorem steady_alike (n : NodeId) : Steady (Alike n) where
  refl _ := ⟨rfl, rfl, rfl, fun _ => rfl, fun _ => rfl, fun _ => rfl, fun _ good => good, fun _ _ => rfl⟩
  trans first second :=
    { size := second.size.trans first.size
      materials := second.materials.trans first.materials
      live := second.live.trans first.live
      parent := fun x => (second.parent x).trans (first.parent x)
      children := fun x => (second.children x).trans (first.children x)
      geometry := fun x => (second.geometry x).trans (first.geometry x)
      pristine := fun x good => second.pristine x (first.pristine x good)
      elsewhere := fun x other => (second.elsewhere x other).trans (first.elsewhere x other) }

theorem alike_cosmetic {change : Node → Node} (cosmetic : Cosmetic change) :
    Alike n scene (scene.onStore (·.modify n change)) where
  size := size_modify _ _ _
  materials := rfl
  live := rfl
  parent := parent_modify_keep _ n (cosmetic_links cosmetic)
  children := children_modify_keep _ n (cosmetic_links cosmetic)
  geometry := live_cosmetic cosmetic n
  pristine _ good := cosmetic_pristine cosmetic good
  elsewhere _ other := get_modify_elsewhere _ _ other

theorem cosmetic_position (part : Vec3) : Cosmetic fun node => { node with position := part } :=
  cosmetic_of_payload (fun _ => rfl) (fun _ => rfl) fun _ => rfl

theorem cosmetic_rotation (part : Vec3) : Cosmetic fun node => { node with rotation := part } :=
  cosmetic_of_payload (fun _ => rfl) (fun _ => rfl) fun _ => rfl

theorem cosmetic_scale (part : Vec3) : Cosmetic fun node => { node with scale := part } :=
  cosmetic_of_payload (fun _ => rfl) (fun _ => rfl) fun _ => rfl

theorem cosmetic_name (name : String) : Cosmetic fun node => { node with name := name } :=
  cosmetic_of_payload (fun _ => rfl) (fun _ => rfl) fun _ => rfl

theorem cosmetic_visible (visible : Bool) : Cosmetic fun node => { node with visible := visible } :=
  cosmetic_of_payload (fun _ => rfl) (fun _ => rfl) fun _ => rfl

theorem alike_setPart (missing : Float) {change : Vec3 → Node → Node} (cosmetic : ∀ part, Cosmetic (change part))
    (value : Value) : Within (Alike n) (SceneAction.setPart missing change n value) scene fun _ _ => True := by
  unfold SceneAction.setPart
  refine within_ite (fun _ => within_pure (steady_alike n) trivial) fun _ => ?_
  refine within_reads (steady_alike n) (SceneAction.reads_lift _) fun part => ?_
  exact within_modify (alike_cosmetic (cosmetic part)) trivial

theorem alike_setTransform (position rotation scale : Value) :
    Within (Alike n) (SceneAction.setTransform n position rotation scale) scene fun _ _ => True := by
  refine within_seq (steady_alike n) (alike_setPart 0.0 cosmetic_position position) fun _ first _ => ?_
  refine within_seq (steady_alike n) (alike_setPart 0.0 cosmetic_rotation rotation) fun _ second _ => ?_
  exact alike_setPart 1.0 cosmetic_scale scale

end

section

variable {names : List String} {root : NodeId} {anchors : Anchors} {s s' : Session}

/-- The agreement survives what moves no placed node, disposes none and counts none. -/
theorem woven_unmoved (woven : Woven names root anchors s) (registry : s'.registry = s.registry) (ready : Ready names s')
    (size : s.scene.store.size ≤ s'.scene.store.size) (live : s'.scene.live = s.scene.live)
    (placed : ∀ x, Placed anchors s'.scene.store x ↔ Placed anchors s.scene.store x)
    (parent : ∀ x, Placed anchors s.scene.store x → s'.scene.store.parentOf x = s.scene.store.parentOf x)
    (geometry : ∀ x, Placed anchors s.scene.store x →
      s'.scene.store.hasLiveGeometry x = s.scene.store.hasLiveGeometry x)
    (pristine : ∀ x, Placed anchors s.scene.store x → s.scene.store.PristineAt x → s'.scene.store.PristineAt x) :
    Woven names root anchors s' where
  ready := ready
  counted :=
    { distinct := live ▸ woven.counted.distinct
      sound := fun x member => by
        rw [live] at member
        rw [geometry x (woven.live x member)]
        exact woven.counted.sound x member }
  nodes := registry ▸ woven.nodes
  rooted := woven.rooted
  roots a anchor := by
    rw [parent a.1 ⟨a, anchor, .top⟩]
    exact ⟨(woven.roots a anchor).1.trans_le size, (woven.roots a anchor).2⟩
  parents e member := by
    rw [registry] at member
    obtain ⟨p, link, stands⟩ := woven.parents e member
    refine ⟨p, (parent _ (woven.entry_placed member)).trans link, ?_⟩
    unfold Stands at stands ⊢
    rwa [registry]
  covered c link := by
    have below : Placed anchors s.scene.store c := (placed c).mp ⟨_, woven.rooted, .child link .top⟩
    rw [registry]
    exact woven.covered c ((parent c below).symm.trans link)
  builds := registry ▸ woven.builds
  pristine x here := pristine x ((placed x).mp here) (woven.pristine x ((placed x).mp here))
  live x member := by
    rw [live] at member
    exact (placed x).mpr (woven.live x member)

theorem accounted_unmoved (accounted : Accounted anchors s) (live : s'.scene.live = s.scene.live)
    (placed : ∀ x, Placed anchors s'.scene.store x ↔ Placed anchors s.scene.store x)
    (geometry : ∀ x, Placed anchors s.scene.store x →
      s'.scene.store.hasLiveGeometry x = s.scene.store.hasLiveGeometry x) : Accounted anchors s' := by
  intro x here shown
  have before := (placed x).mp here
  rw [geometry x before] at shown
  exact live ▸ accounted x before shown

theorem below_alike {store store' : Store} (parent : ∀ x, store'.parentOf x = store.parentOf x) {a x : NodeId} :
    Below store' a x ↔ Below store a x := by
  have all : ∀ store : Store, UpwardClosed store fun _ => True := fun _ _ _ _ _ => trivial
  exact ⟨fun below => below_of_same_parents (all store') (fun x _ => (parent x).symm) below trivial,
    fun below => below_of_same_parents (all store) (fun x _ => parent x) below trivial⟩

theorem placed_alike {store store' : Store} (parent : ∀ x, store'.parentOf x = store.parentOf x) (x : NodeId) :
    Placed anchors store' x ↔ Placed anchors store x :=
  exists_congr fun _ => and_congr_right fun _ => below_alike parent

/-- The agreement survives what changes the look of a node only. -/
theorem coherent_alike {n : NodeId} {scene : Scene} (coherent : Coherent names root anchors s)
    (alike : Alike n s.scene scene) : Coherent names root anchors { s with scene := scene } where
  toWoven := woven_unmoved coherent.toWoven rfl
    { coherent.ready with linked := linked_of_same coherent.linked alike.parent alike.children }
    (Nat.le_of_eq alike.size.symm) alike.live (placed_alike alike.parent) (fun x _ => alike.parent x)
    (fun x _ => alike.geometry x) fun x _ good => alike.pristine x good
  paths := coherent.paths

theorem accounted_alike {n : NodeId} {scene : Scene} (accounted : Accounted anchors s) (alike : Alike n s.scene scene) :
    Accounted anchors { s with scene := scene } :=
  accounted_unmoved accounted alike.live (placed_alike alike.parent) fun x _ => alike.geometry x

theorem spared_alike {n : NodeId} {scene : Scene} {K : NodeId → Prop} (free : ¬ K n) (alike : Alike n s.scene scene)
    (paths : List String) (changed : NodeId → Prop) : Spared K paths changed s { s with scene := scene } where
  same := rfl
  size := Nat.le_of_eq alike.size.symm
  bare x keep := bare_of_get (alike.elsewhere x fun same => free (same ▸ keep))
  parent x _ := alike.parent x
  children x _ _ := by
    rw [alike.children]
    exact trimmed_refl K _
  materials _ _ := by rw [alike.materials]
  kept _ member _ := member
  fresh _ member := Or.inl member

/-! ### Work aside from the tree -/

/-- Only free nodes change, and no entry does. -/
structure Beside (free : NodeId → Prop) (s s' : Session) : Prop where
  same : s' = { s with evaluator := s'.evaluator, scene := s'.scene, materials := s'.materials }
  confined : Confined free s.scene.store s'.scene.store

/-- Free nodes change, but the account does not. -/
structure Aside (free : NodeId → Prop) (s s' : Session) : Prop extends Beside free s s' where
  live : s'.scene.live = s.scene.live
  evaluator : s.evaluator.Plain → s'.evaluator.Plain

theorem beside_trans {free : NodeId → Prop} {s'' : Session} (first : Beside free s s') (second : Beside free s' s'') :
    Beside free s s'' where
  same := by rw [second.same, first.same]
  confined := confined_trans first.confined second.confined

theorem steady_aside (free : NodeId → Prop) : Steady (Aside free) where
  refl _ := ⟨⟨rfl, confined_refl _ _⟩, rfl, id⟩
  trans first second :=
    { toBeside := beside_trans first.toBeside second.toBeside
      live := second.live.trans first.live
      evaluator := fun plain => second.evaluator (first.evaluator plain) }

/-- Nodes that are not free are spared by what changes free nodes only. -/
theorem spared_confined {free : NodeId → Prop} (confined : Confined free s.scene.store s'.scene.store)
    (registry : s'.registry = s.registry)
    (same : s' = { s with
      evaluator := s'.evaluator, registry := s'.registry, scene := s'.scene, materials := s'.materials,
      stored := s'.stored, globals := s'.globals })
    {K : NodeId → Prop} (apart : ∀ x, K x → ¬ free x) (paths : List String) (changed : NodeId → Prop) :
    Spared K paths changed s s' := by
  have old := fun x (keep : K x) => confined.old x (apart x keep)
  exact
    { same := same
      size := confined.size
      bare := fun x keep => bare_of_get (old x keep)
      parent := fun x keep => parent_of_get (old x keep)
      children := fun x keep _ => by
        rw [children_of_get (old x keep)]
        exact trimmed_refl K _
      materials := confined.materials
      kept := fun e member _ => registry ▸ member
      fresh := fun e member => Or.inl (registry ▸ member) }

theorem spared_beside {free : NodeId → Prop} (beside : Beside free s s') {K : NodeId → Prop}
    (apart : ∀ x, K x → ¬ free x) (paths : List String) (changed : NodeId → Prop) : Spared K paths changed s s' :=
  spared_confined beside.confined (by rw [beside.same]) (by rw [beside.same]) apart paths changed

/-- What changes apart from the anchors does not change what is placed. -/
theorem placed_confined {free : NodeId → Prop} (enclosed : Enclosed s.scene.store free)
    (confined : Confined free s.scene.store s'.scene.store) (linked : Linked s.scene.store)
    (apart : ∀ a ∈ anchors, ¬ free a.1) (x : NodeId) :
    Placed anchors s'.scene.store x ↔ Placed anchors s.scene.store x := by
  have same : ∀ x, ¬ free x → s'.scene.store.parentOf x = s.scene.store.parentOf x := fun x outside =>
    parent_of_get (confined.old x outside)
  have upward : ∀ {store : Store}, Enclosed store free → UpwardClosed store fun x => ¬ free x :=
    fun enclosed child parent link outside inside => outside ((enclosed child parent link).mpr inside)
  have enclosed' := enclosed_confined linked enclosed confined
  refine exists_congr fun a => and_congr_right fun anchor => ⟨fun below => ?_, fun below => ?_⟩
  · have outside : ¬ free x := fun inside => apart a anchor ((enclosed_below enclosed' below).mpr inside)
    exact below_of_same_parents (upward enclosed') (fun y free => (same y free).symm) below outside
  · have outside : ¬ free x := fun inside => apart a anchor ((enclosed_below enclosed below).mpr inside)
    exact below_of_same_parents (upward enclosed) same below outside

theorem placed_outside {free : NodeId → Prop} (enclosed : Enclosed s.scene.store free)
    (apart : ∀ a ∈ anchors, ¬ free a.1) {x : NodeId} (placed : Placed anchors s.scene.store x) : ¬ free x := by
  obtain ⟨a, anchor, below⟩ := placed
  exact fun inside => apart a anchor ((enclosed_below enclosed below).mpr inside)

/-- The agreement survives what happens apart from the tree. -/
theorem coherent_confined {free : NodeId → Prop} (enclosed : Enclosed s.scene.store free)
    (confined : Confined free s.scene.store s'.scene.store) (coherent : Coherent names root anchors s)
    (apart : ∀ a ∈ anchors, ¬ free a.1) (registry : s'.registry = s.registry) (live : s'.scene.live = s.scene.live)
    (ready : Ready names s') : Coherent names root anchors s' := by
  have old := fun x (placed : Placed anchors s.scene.store x) => confined.old x (placed_outside enclosed apart placed)
  refine ⟨woven_unmoved coherent.toWoven registry ready confined.size live
    (placed_confined enclosed confined coherent.linked apart) (fun x placed => parent_of_get (old x placed))
    (fun x placed => ?_) fun x placed good node found => good node ((old x placed).symm.trans found), registry ▸ coherent.paths⟩
  rw [hasLiveGeometry, old x placed, hasLiveGeometry]

theorem accounted_confined {free : NodeId → Prop} (enclosed : Enclosed s.scene.store free)
    (confined : Confined free s.scene.store s'.scene.store) (linked : Linked s.scene.store)
    (apart : ∀ a ∈ anchors, ¬ free a.1) (accounted : Accounted anchors s) (live : s'.scene.live = s.scene.live) :
    Accounted anchors s' := by
  refine accounted_unmoved accounted live (placed_confined enclosed confined linked apart) fun x placed => ?_
  rw [hasLiveGeometry, confined.old x (placed_outside enclosed apart placed), hasLiveGeometry]

section

variable {free : NodeId → Prop} (enclosed : Enclosed s.scene.store free) (aside : Aside free s s')

include enclosed aside

/-- The agreement survives what is done aside from the tree. -/
theorem coherent_aside (coherent : Coherent names root anchors s) (apart : ∀ a ∈ anchors, ¬ free a.1) :
    Coherent names root anchors s' := by
  have registry : s'.registry = s.registry := by rw [aside.same]
  have ready : Ready names s' := by
    refine ready_of_same coherent.ready ?_ (aside.confined.linked coherent.linked)
      (aside.evaluator coherent.ready.evaluator)
    rw [registry]
    exact aside.same
  exact coherent_confined enclosed aside.confined coherent apart registry aside.live ready

theorem accounted_aside (linked : Linked s.scene.store) (apart : ∀ a ∈ anchors, ¬ free a.1)
    (accounted : Accounted anchors s) : Accounted anchors s' :=
  accounted_confined enclosed aside.confined linked apart accounted aside.live

end

/-- A parentless node that stands apart becomes an anchor. -/
theorem coherent_enter (coherent : Coherent names root anchors s) {n : NodeId} (bound : n < s.scene.store.size)
    (parentless : s.scene.store.parentOf n = none) (pristine : ∀ x, Below s.scene.store n x → s.scene.store.PristineAt x)
    (path : String) : Coherent names root ((n, path) :: anchors) s where
  toWoven :=
    { coherent.toWoven with
      rooted := List.mem_cons_of_mem _ coherent.rooted
      roots := fun a anchor => by
        rcases List.mem_cons.mp anchor with rfl | before
        · exact ⟨bound, parentless⟩
        · exact coherent.roots a before
      parents := fun e member => by
        obtain ⟨p, link, stands⟩ := coherent.parents e member
        exact ⟨p, link, stands.imp_left (List.mem_cons_of_mem _)⟩
      pristine := fun x => by
        rintro ⟨a, anchor, below⟩
        rcases List.mem_cons.mp anchor with rfl | before
        · exact pristine x below
        · exact coherent.pristine x ⟨a, before, below⟩
      live := fun x member => by
        obtain ⟨a, anchor, below⟩ := coherent.live x member
        exact ⟨a, List.mem_cons_of_mem _ anchor, below⟩ }
  paths := coherent.paths

end

/-! ### Attaching -/

section

variable {store : Store} {container child : NodeId}

theorem below_add (parentless : store.parentOf child = none) (bound : child < store.size) {a x : NodeId}
    (below : Below store a x) : Below (store.add container child) a x := by
  induction below with
  | top => exact .top
  | @child x p link _ ih =>
    refine .child ?_ ih
    rw [parent_add bound, if_neg, link]
    intro same
    rw [same, parentless] at link
    cases link

theorem below_add_back (bound : child < store.size) {a x : NodeId} (below : Below (store.add container child) a x) :
    Below store a x ∨ Below store child x := by
  induction below with
  | top => exact Or.inl .top
  | @child x p link _ ih =>
    by_cases same : x = child
    · exact Or.inr (same ▸ .top)
    · rw [parent_add bound, if_neg same] at link
      exact ih.imp (.child link) (.child link)

end

/-- A session with more entries at the end of its registry. -/
def Session.entered (more : List (Entry Blueprint)) (scene : Scene) (s : Session) : Session :=
  { s with registry := ⟨s.registry.entries ++ more⟩, scene := scene }

section

variable {names : List String} {root : NodeId} {anchors : Anchors} {s : Session} {n parent : NodeId}
  {path parentPath : String} {b : Blueprint}

/-- Where a node can be put: below a node that stands for the path of the parent, and not below itself. -/
structure Fits (anchors : Anchors) (s : Session) (n parent : NodeId) (parentPath : String) : Prop where
  container : s.scene.store.holds Payload.isContainer parent = true
  stands : Stands anchors s parentPath parent
  apart : ¬ Below s.scene.store n parent
  new : ∀ a ∈ anchors, a.1 ≠ n

/-- What may be registered for a node that is attached: nothing, when it does not go into the root and no entry hangs from
it, or else one entry. -/
structure Enters (names : List String) (root : NodeId) (s : Session) (n parent : NodeId) (path parentPath : String)
    (more : List (Entry Blueprint)) : Prop where
  single : (more.map (·.node)).Nodup
  made : ∀ e ∈ more, e.node = n ∧ e.parentPath = parentPath ∧ e.build.path = e.path ∧ e.build.Nested names parentPath
  settled : (∃ e ∈ more, e.path = path) ∨ ∀ e ∈ s.registry.entries, s.scene.store.parentOf e.node ≠ some n
  covers : parent = root → ∃ e ∈ more, e.node = n

theorem enters_single (build : b.path = path ∧ b.Nested names parentPath) :
    Enters names root s n parent path parentPath [⟨path, n, parentPath, b⟩] where
  single := List.nodup_singleton _
  made e member := by
    obtain rfl := List.mem_singleton.mp member
    exact ⟨rfl, rfl, build⟩
  settled := Or.inl ⟨_, List.mem_singleton_self _, rfl⟩
  covers _ := ⟨_, List.mem_singleton_self _, rfl⟩

theorem enters_listed {paths : List String} (listed : path ∈ paths) :
    ∀ e ∈ [(⟨path, n, parentPath, b⟩ : Entry Blueprint)], e.path ∈ paths ∧ e.node = n := by
  intro e member
  obtain rfl := List.mem_singleton.mp member
  exact ⟨listed, rfl⟩

theorem mem_entered {scene : Scene} {e : Entry Blueprint} {more : List (Entry Blueprint)} :
    e ∈ (s.entered more scene).registry.entries ↔ e ∈ s.registry.entries ∨ e ∈ more := List.mem_append

theorem entered_nil (s : Session) (scene : Scene) : s.entered [] scene = { s with scene := scene } := by
  rw [Session.entered, List.append_nil]

theorem ready_entered (ready : Ready names s) {scene : Scene} (linked : Linked scene.store) (more : List (Entry Blueprint)) :
    Ready names (s.entered more scene) := { ready with linked := linked }

theorem placed_fits (coherent : Coherent names root ((n, path) :: anchors) s) (fits : Fits anchors s n parent parentPath) :
    Placed anchors s.scene.store parent := by
  rcases fits.stands with anchor | ⟨e, member, _, rfl⟩
  · exact ⟨_, anchor, .top⟩
  · obtain ⟨a, anchor, below⟩ := coherent.entry_placed member
    rcases List.mem_cons.mp anchor with rfl | before
    · exact absurd below fits.apart
    · exact ⟨a, before, below⟩

/-- What is placed once an anchor has been put into its parent. -/
theorem placed_add (coherent : Coherent names root ((n, path) :: anchors) s) (fits : Fits anchors s n parent parentPath)
    (x : NodeId) : Placed anchors (s.scene.store.add parent n) x ↔ Placed ((n, path) :: anchors) s.scene.store x := by
  obtain ⟨bound, parentless⟩ := coherent.pending
  constructor
  · rintro ⟨a, anchor, below⟩
    rcases below_add_back bound below with before | under
    · exact ⟨a, List.mem_cons_of_mem _ anchor, before⟩
    · exact ⟨_, List.mem_cons_self, under⟩
  · rintro ⟨a, anchor, below⟩
    rcases List.mem_cons.mp anchor with rfl | before
    · obtain ⟨a, anchor, above⟩ := placed_fits coherent fits
      refine ⟨a, anchor, below_trans (.child ?_ (below_add parentless bound above)) (below_add parentless bound below)⟩
      rw [parent_add bound, if_pos rfl]
    · exact ⟨a, before, below_add parentless bound below⟩

/-- An anchor is put into its parent and registered, or else no entry hangs from it. -/
theorem woven_attach (coherent : Coherent names root ((n, path) :: anchors) s)
    (fits : Fits anchors s n parent parentPath) (rooted : (root, "") ∈ anchors) {more : List (Entry Blueprint)}
    (enters : Enters names root s n parent path parentPath more) :
    Woven names root anchors (s.entered more (s.scene.attach parent n)) := by
  obtain ⟨bound, parentless⟩ := coherent.pending
  have linked := linked_add coherent.linked bound fits.container fits.apart
  obtain ⟨counted, live⟩ := Scene.attach_live coherent.counted linked
  have store : (s.scene.attach parent n).store = s.scene.store.add parent n := Scene.attach_store parent n s.scene
  -- of the new scene nothing else is needed
  generalize s.scene.attach parent n = scene at *
  have linked' : Linked scene.store := by rwa [store]
  have other : ∀ e ∈ s.registry.entries, e.node ≠ n := fun e member => coherent.entry_ne_pending member
  have placed := placed_add coherent fits
  have parents : ∀ x, x ≠ n → (s.scene.store.add parent n).parentOf x = s.scene.store.parentOf x := fun x other => by
    rw [parent_add bound, if_neg other]
  have hangs : (s.scene.store.add parent n).parentOf n = some parent := by rw [parent_add bound, if_pos rfl]
  refine
    { ready := ready_entered coherent.ready linked' _
      counted := counted
      nodes := ?_
      rooted := rooted
      roots := fun a anchor => ?_
      parents := fun e member => ?_
      covered := fun c link => ?_
      builds := fun e member => ?_
      pristine := fun x here => ?_
      live := fun x member => ?_ }
  · rw [Session.entered, List.map_append]
    refine List.nodup_append.mpr ⟨coherent.nodes, enters.single, ?_⟩
    rintro x member _ last rfl
    obtain ⟨e, there, same⟩ := List.mem_map.mp member
    obtain ⟨f, new, here⟩ := List.mem_map.mp last
    exact other e there (same.trans (here.symm.trans (enters.made f new).1))
  · obtain ⟨bound', parentless'⟩ := coherent.roots a (List.mem_cons_of_mem _ anchor)
    rw [Session.entered, store, size_add, parents a.1 (fits.new a anchor)]
    exact ⟨bound', parentless'⟩
  · rw [Session.entered, store]
    rcases mem_entered.mp member with before | new
    · obtain ⟨p, link, stood⟩ := coherent.parents e before
      refine ⟨p, (parents _ (other e before)).trans link, ?_⟩
      rcases stood with anchor | ⟨f, there, same, here⟩
      · rcases List.mem_cons.mp anchor with same | before'
        · cases same
          rcases enters.settled with ⟨f, new, same⟩ | none
          · exact Or.inr ⟨f, mem_entered.mpr (Or.inr new), same, (enters.made f new).1⟩
          · exact absurd link (none e before)
        · exact Or.inl before'
      · exact Or.inr ⟨f, mem_entered.mpr (Or.inl there), same, here⟩
    · obtain ⟨here, stood, _⟩ := enters.made e new
      rw [here, stood]
      refine ⟨parent, hangs, fits.stands.imp_right ?_⟩
      rintro ⟨f, there, same⟩
      exact ⟨f, mem_entered.mpr (Or.inl there), same⟩
  · rw [Session.entered, store] at link
    by_cases same : c = n
    · rw [same, hangs] at link
      obtain ⟨e, new, here⟩ := enters.covers (Option.some.inj link)
      exact ⟨e, mem_entered.mpr (Or.inr new), here.trans same.symm⟩
    · rw [parents c same] at link
      obtain ⟨e, there, here⟩ := coherent.covered c link
      exact ⟨e, mem_entered.mpr (Or.inl there), here⟩
  · rcases mem_entered.mp member with before | new
    · exact coherent.builds e before
    · obtain ⟨_, stood, build⟩ := enters.made e new
      exact stood ▸ build
  · rw [Session.entered, store] at here ⊢
    exact pristine_of_bare (bare_add parent n x) (coherent.pristine x ((placed x).mp here))
  · rw [Session.entered, store]
    rcases (live x).mp member with before | ⟨under, _⟩
    · exact (placed x).mpr (coherent.live x before)
    · refine (placed x).mpr ⟨_, List.mem_cons_self, ?_⟩
      exact (below_add_back bound under).elim id id

theorem accounted_attach (coherent : Coherent names root ((n, path) :: anchors) s)
    (fits : Fits anchors s n parent parentPath) (accounted : Accounted anchors s) (more : List (Entry Blueprint)) :
    Accounted anchors (s.entered more (s.scene.attach parent n)) := by
  obtain ⟨bound, parentless⟩ := coherent.pending
  have linked := linked_add coherent.linked bound fits.container fits.apart
  obtain ⟨_, live⟩ := Scene.attach_live coherent.counted linked
  intro x here shown
  rw [Session.entered, Scene.attach_store] at here shown
  rw [live_of_bare (bare_add parent n x)] at shown
  refine (live x).mpr ?_
  obtain ⟨a, anchor, below⟩ := (placed_add coherent fits x).mp here
  rcases List.mem_cons.mp anchor with rfl | before
  · exact Or.inr ⟨below_add parentless bound below, shown⟩
  · exact Or.inl (accounted x ⟨a, before, below⟩ shown)

theorem spared_attach (coherent : Coherent names root ((n, path) :: anchors) s)
    (fits : Fits anchors s n parent parentPath) {K : NodeId → Prop} (free : ¬ K n) {paths : List String}
    {more : List (Entry Blueprint)} (listed : ∀ e ∈ more, e.path ∈ paths ∧ e.node = n) :
    Spared K paths (· = parent) s (s.entered more (s.scene.attach parent n)) := by
  obtain ⟨bound, _⟩ := coherent.pending
  have store : (s.scene.attach parent n).store = s.scene.store.add parent n := Scene.attach_store parent n s.scene
  generalize s.scene.attach parent n = scene at *
  exact
    { same := rfl
      size := by rw [Session.entered, store, size_add]
      bare := fun x _ => by rw [Session.entered, store, bare_add]
      parent := fun x keep => by
        rw [Session.entered, store, parent_add bound, if_neg]
        exact fun same : x = n => free (same ▸ keep)
      children := fun x _ other => by
        rw [Session.entered, store, children_add coherent.linked fits.container, if_neg other]
        exact trimmed_erase free _
      materials := fun _ _ => by rw [Session.entered, store, materials_add]
      kept := fun e member _ => mem_entered.mpr (Or.inl member)
      fresh := fun e member => (mem_entered.mp member).imp_right fun new =>
        ⟨(listed e new).1, (listed e new).2 ▸ free⟩ }

/-- The session once a node is attached and registered. -/
def Session.registered (entry : Entry Blueprint) (parent : NodeId) (s : Session) : Session :=
  { s with
    registry := (s.registry.register entry (s.scene.attach parent entry.node)).1
    scene := (s.registry.register entry (s.scene.attach parent entry.node)).2 }

theorem putEntry_absent {β : Type} {entry : Entry β} {entries : List (Entry β)}
    (absent : ∀ e ∈ entries, e.path ≠ entry.path) : Registry.putEntry entry entries = entries ++ [entry] := by
  induction entries with
  | nil => rfl
  | cons first rest ih =>
    rw [Registry.putEntry, if_neg (by simpa using absent first (by simp)), ih fun e member => absent e (by simp [member])]
    rfl

theorem register_free {entry : Entry Blueprint} {registry : Registry Blueprint} (found : registry.get? entry.path = none)
    (scene : Scene) : registry.register entry scene = (⟨Registry.putEntry entry registry.entries⟩, scene) := by
  rw [Registry.register, found]

theorem register_taken {entry e : Entry Blueprint} {registry : Registry Blueprint}
    (found : registry.get? entry.path = some e) (other : e.node ≠ entry.node) (scene : Scene) :
    registry.register entry scene = (⟨Registry.putEntry entry
      (registry.entries.filter fun f => !(scene.store.walk e.node).contains f.node)⟩,
      (scene.detach e.node).dispose e.node) := by
  simp only [Registry.register, Registry.release, found, beq_eq_false_iff_ne.mpr other, Bool.false_eq_true, if_false]

/-- Registering a node adds its entry, and what was at its path is dropped. -/
theorem registered_cases (coherent : Coherent names root ((n, path) :: anchors) s)
    (fits : Fits anchors s n parent parentPath) (rooted : (root, "") ∈ anchors)
    (build : b.path = path ∧ b.Nested names parentPath)
    (clear : ∀ e ∈ s.registry.entries, e.path = path → ¬ Below s.scene.store e.node parent) :
    (∀ e ∈ s.registry.entries, e.path ≠ path) ∧
        s.registered ⟨path, n, parentPath, b⟩ parent = s.entered [⟨path, n, parentPath, b⟩] (s.scene.attach parent n) ∨
      ∃ e ∈ s.registry.entries, e.path = path ∧
        Dropped e.node (s.entered [⟨path, n, parentPath, b⟩] (s.scene.attach parent n))
          (s.registered ⟨path, n, parentPath, b⟩ parent) := by
  obtain ⟨bound, _⟩ := coherent.pending
  have woven := woven_attach coherent fits rooted (enters_single build)
  have store : (s.scene.attach parent n).store = s.scene.store.add parent n := Scene.attach_store parent n s.scene
  unfold Session.registered
  dsimp only
  generalize s.scene.attach parent n = scene at *
  have linked : Linked scene.store := woven.linked
  cases found : s.registry.get? path with
  | none =>
    have absent : ∀ e ∈ s.registry.entries, e.path ≠ path := Registry.get_none found
    refine Or.inl ⟨absent, ?_⟩
    rw [register_free found, putEntry_absent absent]
    rfl
  | some e =>
    have member : e ∈ s.registry.entries := List.mem_of_find?_eq_some found
    have here : e.path = path := by simpa using List.find?_some found
    have other : e.node ≠ n := coherent.entry_ne_pending member
    -- the new node hangs from its parent, which does not stand below the old one
    have outside : ¬ Below scene.store e.node n := by
      intro below
      rw [store] at below
      have link : (s.scene.store.add parent n).parentOf n = some parent := by rw [parent_add bound, if_pos rfl]
      rcases below_add_back bound (below_parent below link other.symm) with above | under
      · exact clear e member here above
      · exact fits.apart under
    refine Or.inr ⟨e, member, here, ?_⟩
    rw [register_taken found other]
    have kept : ∀ f ∈ s.registry.entries.filter fun f => !(scene.store.walk e.node).contains f.node, f.path ≠ path := by
      intro f there same
      obtain ⟨before, free⟩ := List.mem_filter.mp there
      obtain rfl := coherent.path_unique before member (same.trans here.symm)
      simp [mem_walk linked, Below.top] at free
    have freed := Scene.freed_dispose linked woven.counted e.node
    rw [putEntry_absent kept]
    generalize (scene.detach e.node).dispose e.node = last at freed ⊢
    refine ⟨rfl, freed, ?_⟩
    simp [Session.entered, List.filter_append, mem_walk linked, outside]

/-- The children of a node, some of the old ones and then new ones. -/
def Appended (K : NodeId → Prop) (old : List NodeId) (added : List NodeId) (new : List NodeId) : Prop :=
  ∃ rest, Trimmed K old rest ∧ new = rest ++ added

/-- What holds when a node was attached and registered. -/
structure Registered (names : List String) (root : NodeId) (anchors : Anchors) (path : String) (n parent : NodeId)
    (s s' : Session) : Prop where
  coherent : Coherent names root anchors s'
  accounted : Accounted anchors s'
  spared : ∀ (K : NodeId → Prop) (paths : List String), UpwardClosed s.scene.store K → ¬ K n → path ∈ paths →
    (∀ e ∈ s.registry.entries, e.path = path → ¬ K e.node) → Spared K paths (· = parent) s s' ∧
      Appended K (s.scene.store.childrenOf parent) [n] (s'.scene.store.childrenOf parent)

theorem appended_attach (coherent : Coherent names root ((n, path) :: anchors) s)
    (fits : Fits anchors s n parent parentPath) {K : NodeId → Prop} (free : ¬ K n) :
    Appended K (s.scene.store.childrenOf parent) [n] ((s.scene.attach parent n).store.childrenOf parent) := by
  refine ⟨(s.scene.store.childrenOf parent).erase n, trimmed_erase free _, ?_⟩
  rw [Scene.attach_store, children_add coherent.linked fits.container, if_pos rfl]

theorem registered (coherent : Coherent names root ((n, path) :: anchors) s) (accounted : Accounted anchors s)
    (fits : Fits anchors s n parent parentPath) (rooted : (root, "") ∈ anchors)
    (build : b.path = path ∧ b.Nested names parentPath)
    (clear : ∀ e ∈ s.registry.entries, e.path = path → ¬ Below s.scene.store e.node parent) :
    Registered names root anchors path n parent s (s.registered ⟨path, n, parentPath, b⟩ parent) := by
  have woven := woven_attach coherent fits rooted (enters_single build)
  have accounted' := accounted_attach coherent fits accounted [⟨path, n, parentPath, b⟩]
  rcases registered_cases coherent fits rooted build clear with ⟨absent, same⟩ | ⟨e, member, here, dropped⟩
  · rw [same]
    refine ⟨⟨woven, ?_⟩, accounted', fun K paths _ free listed _ =>
      ⟨spared_attach coherent fits free (enters_listed listed), appended_attach coherent fits free⟩⟩
    rw [Session.entered, List.map_append]
    refine List.nodup_append.mpr ⟨coherent.paths, List.nodup_singleton _, ?_⟩
    rintro x found _ last rfl
    obtain ⟨f, there, same⟩ := List.mem_map.mp found
    exact absent f there (same.trans (List.mem_singleton.mp last))
  · have still : e ∈ (s.entered [⟨path, n, parentPath, b⟩] (s.scene.attach parent n)).registry.entries :=
      mem_entered.mpr (Or.inl member)
    have other : e.node ≠ n := coherent.entry_ne_pending member
    refine ⟨⟨dropped.woven woven still, ?_⟩, dropped.accounted woven still accounted', ?_⟩
    · -- of the two entries with the path only the new one is left
      rw [dropped.entries, Session.entered, List.filter_append, List.map_append]
      refine List.nodup_append.mpr ⟨coherent.paths.sublist (List.filter_sublist.map _), ?_, ?_⟩
      · exact (List.nodup_singleton _).sublist (List.filter_sublist.map _)
      · rintro x found y last rfl
        obtain ⟨f, there, same⟩ := List.mem_map.mp found
        obtain ⟨before, free⟩ := List.mem_filter.mp there
        obtain ⟨new, only, rfl⟩ := List.mem_map.mp last
        obtain rfl := List.mem_singleton.mp (List.mem_filter.mp only).1
        obtain rfl := coherent.path_unique before member (same.trans here.symm)
        have inside : f.node ∈ (s.scene.attach parent n).store.walk f.node := (mem_walk woven.linked).mpr .top
        simp [inside] at free
    · intro K paths closed free listed clear
      have entered : ∀ f ∈ [(⟨path, n, parentPath, b⟩ : Entry Blueprint)], f.path ∈ paths ∧ f.node = n :=
        enters_listed listed
      have attached := spared_attach coherent fits free entered
      have gone := dropped.spared woven.linked (upward_spared closed attached) (clear e member here) paths (· = parent)
      refine ⟨spared_trans attached gone, ?_⟩
      obtain ⟨rest, trimmed, same⟩ := appended_attach coherent fits free
      refine ⟨rest.erase e.node, trimmed_trans trimmed (trimmed_erase (clear e member here) rest), ?_⟩
      rw [dropped.freed.children, Session.entered, same, List.erase_append]
      split
      · rfl
      · rename_i absent
        rw [List.erase_of_not_mem absent, List.erase_of_not_mem (by simpa using other)]

theorem fits_alike {scene : Scene} (fits : Fits anchors s n parent parentPath) (alike : Alike n s.scene scene) :
    Fits anchors { s with scene := scene } n parent parentPath where
  container := by
    have other : parent ≠ n := fun same => fits.apart (same ▸ .top)
    exact (holds_of_bare (bare_of_get (alike.elsewhere parent other)) bare_isContainer).trans fits.container
  stands := fits.stands
  apart below := fits.apart ((below_alike alike.parent).mp below)
  new := fits.new

theorem registered_alike {scene : Scene} {s' : Session} (alike : Alike n s.scene scene)
    (done : Registered names root anchors path n parent { s with scene := scene } s') :
    Registered names root anchors path n parent s s' where
  coherent := done.coherent
  accounted := done.accounted
  spared K paths closed free listed clear := by
    have first := spared_alike free alike paths (· = parent)
    obtain ⟨second, appended⟩ := done.spared K paths (upward_spared closed first) free listed clear
    rw [alike.children] at appended
    exact ⟨spared_trans first second, appended⟩

/-- Only the look of a node of the session changed. -/
theorem alike_onScene {action : SceneAction PUnit} (body : Within (Alike n) action s.scene fun _ _ => True) :
    Yields (SessionAction.onScene action) s fun _ after => ∃ scene, Alike n s.scene scene ∧ after = { s with scene := scene } :=
  SessionAction.ends_onScene (ends_mono body (fun _ scene both => ⟨scene, both.1, rfl⟩) fun _ _ => trivial)

theorem alike_modify {change : Scene → Scene} (alike : Alike n s.scene (change s.scene)) :
    Within (Alike n) (modify change : SceneAction PUnit) s.scene fun _ _ => True := within_modify alike trivial

/-- A finished node is named, transformed, attached and registered. -/
theorem yields_settle (coherent : Coherent names root ((n, b.path) :: anchors) s) (accounted : Accounted anchors s)
    (fits : Fits anchors s n parent parentPath) (rooted : (root, "") ∈ anchors) (nested : b.Nested names parentPath)
    (clear : ∀ e ∈ s.registry.entries, e.path = b.path → ¬ Below s.scene.store e.node parent) :
    Yields (Place.settle b n parent parentPath) s fun result after =>
      result = n ∧ Registered names root anchors b.path n parent s after := by
  -- what is left to do once the node looks as it should
  have finish : ∀ scene, Alike n s.scene scene → Yields (Place.enter b n parent parentPath) { s with scene := scene }
      fun result after => result = n ∧ Registered names root anchors b.path n parent s after := by
    intro scene alike
    have attached : Yields (SessionAction.onScene (modify fun scene => scene.attach parent n : SceneAction PUnit))
        { s with scene := scene } fun _ after => after = { s with scene := scene.attach parent n } :=
      SessionAction.ends_onScene (ends_modify rfl)
    refine yields_bind attached ?_
    rintro _ _ rfl
    refine yields_modify_bind (yields_pure ⟨rfl, registered_alike alike ?_⟩)
    refine registered (coherent_alike coherent alike) (accounted_alike accounted alike) (fits_alike fits alike) rooted
      ⟨rfl, nested⟩ fun e member here below => clear e member here ?_
    exact (below_alike alike.parent).mp below
  have steady := steady_alike n
  refine yields_bind (alike_onScene (alike_modify (alike_cosmetic (cosmetic_name b.name)))) ?_
  rintro _ _ ⟨first, named, rfl⟩
  refine yields_bind (alike_onScene (alike_setTransform b.position b.rotation b.scale)) ?_
  rintro _ _ ⟨second, moved, rfl⟩
  have before := steady.trans named moved
  split
  · refine yields_bind (alike_onScene (alike_modify (alike_cosmetic (cosmetic_visible false)))) ?_
    rintro _ _ ⟨third, hidden, rfl⟩
    exact finish third (steady.trans before hidden)
  · exact finish second before

end

end ProceduralScene
