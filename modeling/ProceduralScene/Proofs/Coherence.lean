import ProceduralScene.Proofs.Blueprints
import ProceduralScene.Proofs.SceneSteps

/-!
The agreement of registry, tree and account of live geometries: what it says, and how it survives the single steps in
which the scene changes.
-/

set_option autoImplicit false

namespace ProceduralScene

open Store

/-- Parentless nodes with the paths that they stand for: the root, and the containers that are not placed yet. -/
abbrev Anchors := List (NodeId × String)

/-- The node stands for the path, as an anchor or by its entry. -/
def Stands (anchors : Anchors) (s : Session) (path : String) (node : NodeId) : Prop :=
  (node, path) ∈ anchors ∨ ∃ e ∈ s.registry.entries, e.path = path ∧ e.node = node

/-- The node is an anchor or stands somewhere below one. -/
def Placed (anchors : Anchors) (store : Store) (x : NodeId) : Prop := ∃ a ∈ anchors, Below store a.1 x

/-- Registry, tree and account agree, and every entry knows how it is made again; a path may have several entries. -/
structure Woven (names : List String) (root : NodeId) (anchors : Anchors) (s : Session) : Prop where
  ready : Ready names s
  counted : s.scene.Counted
  nodes : (s.registry.entries.map (·.node)).Nodup
  rooted : (root, "") ∈ anchors
  roots : ∀ a ∈ anchors, a.1 < s.scene.store.size ∧ s.scene.store.parentOf a.1 = none
  parents : ∀ e ∈ s.registry.entries, ∃ p, s.scene.store.parentOf e.node = some p ∧ Stands anchors s e.parentPath p
  covered : ∀ c, s.scene.store.parentOf c = some root → ∃ e ∈ s.registry.entries, e.node = c
  builds : ∀ e ∈ s.registry.entries, e.build.path = e.path ∧ e.build.Nested names e.parentPath
  pristine : ∀ x, Placed anchors s.scene.store x → s.scene.store.PristineAt x
  live : ∀ x ∈ s.scene.live, Placed anchors s.scene.store x

/-- Registry, tree and account agree, and each path has one entry. -/
structure Coherent (names : List String) (root : NodeId) (anchors : Anchors) (s : Session) : Prop
    extends Woven names root anchors s where
  paths : (s.registry.entries.map (·.path)).Nodup

/-- All live geometries below the anchors are counted. -/
def Accounted (anchors : Anchors) (s : Session) : Prop :=
  ∀ x, Placed anchors s.scene.store x → s.scene.store.hasLiveGeometry x = true → x ∈ s.scene.live

section

variable {β : Type} {registry : Registry β} {path : String}

theorem Registry.get_mem {e : Entry β} (found : registry.get? path = some e) : e ∈ registry.entries ∧ e.path = path :=
  ⟨List.mem_of_find?_eq_some found, by simpa using List.find?_some found⟩

theorem Registry.get_none (found : registry.get? path = none) : ∀ e ∈ registry.entries, e.path ≠ path := by
  intro e member
  simpa using List.find?_eq_none.mp found e member

theorem Registry.path_unique (paths : (registry.entries.map (·.path)).Nodup) {e f : Entry β}
    (here : e ∈ registry.entries) (there : f ∈ registry.entries) (same : e.path = f.path) : e = f :=
  List.inj_on_of_nodup_map paths here there same

/-- An entry is found at its path. -/
theorem Registry.get_path (paths : (registry.entries.map (·.path)).Nodup) {e : Entry β} (member : e ∈ registry.entries) :
    registry.get? e.path = some e := by
  cases found : registry.get? e.path with
  | none => exact absurd rfl (get_none found e member)
  | some f =>
    obtain ⟨there, same⟩ := get_mem found
    rw [path_unique paths there member same]

end

section

variable {names : List String} {root : NodeId} {anchors : Anchors} {s : Session}

theorem Coherent.path_unique (coherent : Coherent names root anchors s) {e f : Entry Blueprint}
    (here : e ∈ s.registry.entries) (there : f ∈ s.registry.entries) (same : e.path = f.path) : e = f :=
  Registry.path_unique coherent.paths here there same

theorem Coherent.get_path (coherent : Coherent names root anchors s) {e : Entry Blueprint}
    (member : e ∈ s.registry.entries) : s.registry.get? e.path = some e :=
  Registry.get_path coherent.paths member

end

namespace Woven

variable {names : List String} {root : NodeId} {anchors : Anchors} {s s' : Session}

theorem linked (woven : Woven names root anchors s) : Linked s.scene.store := woven.ready.linked

/-- No entry stands above an anchor. -/
theorem not_below_anchor (woven : Woven names root anchors s) {e : Entry Blueprint}
    (member : e ∈ s.registry.entries) {a : NodeId × String} (anchor : a ∈ anchors) :
    ¬ Below s.scene.store e.node a.1 := by
  intro below
  obtain ⟨p, link, _⟩ := woven.parents e member
  have root := (woven.roots a anchor).2
  rw [below_root below root, link] at root
  cases root

theorem entry_ne_anchor (woven : Woven names root anchors s) {e : Entry Blueprint}
    (member : e ∈ s.registry.entries) {a : NodeId × String} (anchor : a ∈ anchors) : e.node ≠ a.1 := fun same =>
  woven.not_below_anchor member anchor (same ▸ .top)

theorem pending {n : NodeId} {path : String} (woven : Woven names root ((n, path) :: anchors) s) :
    n < s.scene.store.size ∧ s.scene.store.parentOf n = none := woven.roots (n, path) List.mem_cons_self

theorem entry_ne_pending {n : NodeId} {path : String} (woven : Woven names root ((n, path) :: anchors) s)
    {e : Entry Blueprint} (member : e ∈ s.registry.entries) : e.node ≠ n :=
  woven.entry_ne_anchor member (List.mem_cons_self (a := (n, path)))

/-- Every entry stands below an anchor. -/
theorem entry_placed (woven : Woven names root anchors s) {e : Entry Blueprint}
    (member : e ∈ s.registry.entries) : Placed anchors s.scene.store e.node := by
  obtain ⟨rank, grounded⟩ := woven.linked.grounded
  induction height : rank e.node using Nat.strong_induction_on generalizing e with
  | _ n ih =>
    obtain ⟨p, link, stands⟩ := woven.parents e member
    rcases stands with anchor | ⟨f, there, _, rfl⟩
    · exact ⟨_, anchor, .child link .top⟩
    · obtain ⟨a, anchor, below⟩ := ih _ (height ▸ grounded _ _ link) there rfl
      exact ⟨a, anchor, .child link below⟩

end Woven

/-! ### Disposing of a subtree -/

namespace Scene.Freed

variable {n : NodeId} {scene scene' : Scene}

theorem parent_back (freed : Freed n scene scene') {x p : NodeId} (link : scene'.store.parentOf x = some p) :
    x ≠ n ∧ scene.store.parentOf x = some p := by
  rw [freed.parent] at link
  split at link
  · cases link
  · exact ⟨‹_›, link⟩

theorem below_back (freed : Freed n scene scene') {a x : NodeId} (below : Below scene'.store a x) :
    Below scene.store a x := by
  induction below with
  | top => exact .top
  | child link _ ih => exact .child (freed.parent_back link).2 ih

/-- What is left below a node outside the subtree. -/
theorem below_iff (freed : Freed n scene scene') {a x : NodeId} (outside : ¬ Below scene.store n a) :
    Below scene'.store a x ↔ Below scene.store a x ∧ ¬ Below scene.store n x := by
  constructor
  · intro below
    refine ⟨freed.below_back below, ?_⟩
    induction below with
    | top => exact outside
    | child link _ ih =>
      obtain ⟨other, before⟩ := freed.parent_back link
      exact fun inside => ih (below_parent inside before other)
  · rintro ⟨below, free⟩
    induction below with
    | top => exact .top
    | @child x p link _ ih =>
      refine .child ?_ (ih fun inside => free (.child link inside))
      rw [freed.parent, if_neg, link]
      exact fun same => free (same ▸ .top)

end Scene.Freed

/-- A node is disposed with everything below it, and the entries of these nodes are dropped. -/
structure Dropped (n : NodeId) (s s' : Session) : Prop where
  same : s' = { s with registry := s'.registry, scene := s'.scene }
  freed : s.scene.Freed n s'.scene
  entries : s'.registry.entries = s.registry.entries.filter fun e => !(s.scene.store.walk n).contains e.node

/-- The session after the node at a path is released. -/
def Session.released (path : String) (s : Session) : Session :=
  { s with
    registry := (s.registry.release path s.scene).2.1
    scene := (s.registry.release path s.scene).2.2 }

theorem ready_of_same {names : List String} {s s' : Session} (ready : Ready names s)
    (same : s' = { s with
      evaluator := s'.evaluator, registry := s'.registry, scene := s'.scene, materials := s'.materials })
    (linked : Linked s'.scene.store) (evaluator : s'.evaluator.Plain) : Ready names s' := by
  rw [same]
  exact { ready with linked := linked, evaluator := evaluator }

/-! ### What is spared -/

/-- Children in their order, all that are kept among them. -/
structure Trimmed (K : NodeId → Prop) (old new : List NodeId) : Prop where
  sublist : new.Sublist old
  kept : ∀ c ∈ old, K c → c ∈ new

/-- The nodes of `K` and their entries are as before, only that some may have lost children that are not in `K`; new
entries have one of the paths. The children of `changed` nodes are left open. -/
structure Spared (K : NodeId → Prop) (paths : List String) (changed : NodeId → Prop) (s s' : Session) : Prop where
  same : s' = { s with
    evaluator := s'.evaluator, registry := s'.registry, scene := s'.scene, materials := s'.materials,
    stored := s'.stored, globals := s'.globals }
  size : s.scene.store.size ≤ s'.scene.store.size
  bare : ∀ x, K x → s'.scene.store.bare? x = s.scene.store.bare? x
  parent : ∀ x, K x → s'.scene.store.parentOf x = s.scene.store.parentOf x
  children : ∀ x, K x → ¬ changed x → Trimmed K (s.scene.store.childrenOf x) (s'.scene.store.childrenOf x)
  materials : ∀ id : MaterialId, id < s.scene.store.materials.size →
    s'.scene.store.materials[id]? = s.scene.store.materials[id]?
  kept : ∀ e ∈ s.registry.entries, K e.node → e ∈ s'.registry.entries
  fresh : ∀ e ∈ s'.registry.entries, e ∈ s.registry.entries ∨ e.path ∈ paths ∧ ¬ K e.node

section

variable {K : NodeId → Prop} {paths : List String} {changed : NodeId → Prop} {s s' s'' : Session}

theorem trimmed_refl (K : NodeId → Prop) (list : List NodeId) : Trimmed K list list :=
  ⟨List.Sublist.refl _, fun _ member _ => member⟩

theorem trimmed_trans {a b c : List NodeId} (first : Trimmed K a b) (second : Trimmed K b c) : Trimmed K a c :=
  ⟨second.sublist.trans first.sublist, fun x member keep => second.kept x (first.kept x member keep) keep⟩

theorem trimmed_erase {n : NodeId} (free : ¬ K n) (list : List NodeId) : Trimmed K list (list.erase n) :=
  ⟨List.erase_sublist, fun c member keep => (List.mem_erase_of_ne fun same : c = n => free (same ▸ keep)).mpr member⟩

theorem spared_refl (K : NodeId → Prop) (paths : List String) (changed : NodeId → Prop) (s : Session) :
    Spared K paths changed s s :=
  ⟨rfl, Nat.le_refl _, fun _ _ => rfl, fun _ _ => rfl, fun _ _ _ => trimmed_refl K _, fun _ _ => rfl,
    fun _ member _ => member, fun _ member => Or.inl member⟩

theorem spared_trans (first : Spared K paths changed s s') (second : Spared K paths changed s' s'') :
    Spared K paths changed s s'' where
  same := by rw [second.same, first.same]
  size := first.size.trans second.size
  bare x keep := (second.bare x keep).trans (first.bare x keep)
  parent x keep := (second.parent x keep).trans (first.parent x keep)
  children x keep same := trimmed_trans (first.children x keep same) (second.children x keep same)
  materials id bound :=
    (second.materials id (bound.trans_le (materials_le_of_kept first.materials))).trans (first.materials id bound)
  kept e member keep := second.kept e (first.kept e member keep) keep
  fresh e member := (second.fresh e member).elim (first.fresh e) Or.inr

theorem spared_mono {K' : NodeId → Prop} {paths' : List String} {changed' : NodeId → Prop} (fewer : ∀ x, K' x → K x)
    (more : ∀ path ∈ paths, path ∈ paths') (wider : ∀ x, K' x → changed x → changed' x)
    (spared : Spared K paths changed s s') : Spared K' paths' changed' s s' where
  same := spared.same
  size := spared.size
  bare x keep := spared.bare x (fewer x keep)
  parent x keep := spared.parent x (fewer x keep)
  children x keep same :=
    have trimmed := spared.children x (fewer x keep) fun other => same (wider x keep other)
    ⟨trimmed.sublist, fun c member keep => trimmed.kept c member (fewer c keep)⟩
  materials := spared.materials
  kept e member keep := spared.kept e member (fewer _ keep)
  fresh e member := (spared.fresh e member).imp_right fun both =>
    ⟨more _ both.1, fun keep => both.2 (fewer _ keep)⟩

theorem upward_spared (closed : UpwardClosed s.scene.store K) (spared : Spared K paths changed s s') :
    UpwardClosed s'.scene.store K := fun child parent link keep =>
  closed child parent ((spared.parent child keep).symm.trans link) keep

end

namespace Dropped

variable {names : List String} {root : NodeId} {anchors : Anchors} {n : NodeId} {s s' : Session}

theorem mem_entries (linked : Linked s.scene.store) (dropped : Dropped n s s') {e : Entry Blueprint} :
    e ∈ s'.registry.entries ↔ e ∈ s.registry.entries ∧ ¬ Below s.scene.store n e.node := by
  rw [dropped.entries, List.mem_filter]
  simp [mem_walk linked]

theorem sublist (dropped : Dropped n s s') : s'.registry.entries.Sublist s.registry.entries :=
  dropped.entries ▸ List.filter_sublist

theorem spared (linked : Linked s.scene.store) (dropped : Dropped n s s') {K : NodeId → Prop}
    (closed : UpwardClosed s.scene.store K) (free : ¬ K n) (paths : List String) (changed : NodeId → Prop) :
    Spared K paths changed s s' where
  same := by rw [dropped.same]
  size := Nat.le_of_eq dropped.freed.size.symm
  bare x keep := dropped.freed.bare x fun below => free (upward_below closed below keep)
  parent x keep := by
    rw [dropped.freed.parent, if_neg]
    exact fun same => free (same ▸ keep)
  children x _ _ := by
    rw [dropped.freed.children]
    exact trimmed_erase free _
  materials _ _ := by rw [dropped.freed.materials]
  kept e member keep := (dropped.mem_entries linked).mpr ⟨member, fun below => free (upward_below closed below keep)⟩
  fresh e member := Or.inl ((dropped.mem_entries linked).mp member).1

theorem stands (linked : Linked s.scene.store) (dropped : Dropped n s s') {path : String} {node : NodeId}
    (outside : ¬ Below s.scene.store n node) (stands : Stands anchors s path node) : Stands anchors s' path node := by
  rcases stands with anchor | ⟨e, member, same, here⟩
  · exact Or.inl anchor
  · exact Or.inr ⟨e, (dropped.mem_entries linked).mpr ⟨member, here ▸ outside⟩, same, here⟩

theorem placed (dropped : Dropped n s s') (outside : ∀ a ∈ anchors, ¬ Below s.scene.store n a.1) {x : NodeId} :
    Placed anchors s'.scene.store x ↔ Placed anchors s.scene.store x ∧ ¬ Below s.scene.store n x := by
  constructor
  · rintro ⟨a, anchor, below⟩
    obtain ⟨before, free⟩ := (dropped.freed.below_iff (outside a anchor)).mp below
    exact ⟨⟨a, anchor, before⟩, free⟩
  · rintro ⟨⟨a, anchor, below⟩, free⟩
    exact ⟨a, anchor, (dropped.freed.below_iff (outside a anchor)).mpr ⟨below, free⟩⟩

/-- Registry, tree and account agree when a registered node is gone. -/
theorem woven {e : Entry Blueprint} (woven : Woven names root anchors s) (member : e ∈ s.registry.entries)
    (dropped : Dropped e.node s s') : Woven names root anchors s' := by
  have linked := woven.linked
  have outside : ∀ a ∈ anchors, ¬ Below s.scene.store e.node a.1 := fun a anchor => woven.not_below_anchor member anchor
  have entries := fun f => dropped.mem_entries linked (e := f)
  have same : s' = { s with
      evaluator := s'.evaluator, registry := s'.registry, scene := s'.scene, materials := s'.materials } := by
    rw [dropped.same]
  have evaluator : s'.evaluator = s.evaluator := by rw [dropped.same]
  refine
    { ready := ready_of_same woven.ready same dropped.freed.linked (evaluator ▸ woven.ready.evaluator)
      counted := dropped.freed.counted
      nodes := woven.nodes.sublist (dropped.sublist.map _)
      rooted := woven.rooted
      roots := fun a anchor => ?_
      parents := fun f there => ?_
      covered := fun c link => ?_
      builds := fun f there => woven.builds f ((entries f).mp there).1
      pristine := fun x placed => ?_
      live := fun x live => ?_ }
  · obtain ⟨bound, parentless⟩ := woven.roots a anchor
    rw [dropped.freed.size, dropped.freed.parent, parentless]
    exact ⟨bound, by split <;> rfl⟩
  · obtain ⟨before, free⟩ := (entries f).mp there
    obtain ⟨p, link, stands⟩ := woven.parents f before
    refine ⟨p, ?_, dropped.stands linked (fun below => free (.child link below)) stands⟩
    rw [dropped.freed.parent, if_neg, link]
    exact fun same => free (same ▸ .top)
  · obtain ⟨other, before⟩ := dropped.freed.parent_back link
    obtain ⟨f, there, same⟩ := woven.covered c before
    refine ⟨f, (entries f).mpr ⟨there, fun below => ?_⟩, same⟩
    exact outside _ woven.rooted (below_parent below (same ▸ before) (same ▸ other))
  · obtain ⟨before, free⟩ := (dropped.placed outside).mp placed
    exact pristine_of_bare (dropped.freed.bare x free) (woven.pristine x before)
  · obtain ⟨before, free⟩ := (dropped.freed.live x).mp live
    exact (dropped.placed outside).mpr ⟨woven.live x before, free⟩

theorem accounted {e : Entry Blueprint} (woven : Woven names root anchors s) (member : e ∈ s.registry.entries)
    (dropped : Dropped e.node s s') (accounted : Accounted anchors s) : Accounted anchors s' := by
  intro x placed live
  obtain ⟨before, free⟩ := (dropped.placed fun a anchor => woven.not_below_anchor member anchor).mp placed
  refine (dropped.freed.live x).mpr ⟨accounted x before ?_, free⟩
  rwa [live_of_bare (dropped.freed.bare x free)] at live

end Dropped

/-- Releasing a path drops the node there, if there is one. -/
theorem released_cases {s : Session} (linked : Linked s.scene.store) (counted : s.scene.Counted) (path : String) :
    (∀ e ∈ s.registry.entries, e.path ≠ path) ∧ s.released path = s ∨
      ∃ e ∈ s.registry.entries, e.path = path ∧ Dropped e.node s (s.released path) := by
  unfold Session.released Registry.release
  cases found : s.registry.get? path with
  | none => exact Or.inl ⟨Registry.get_none found, rfl⟩
  | some e =>
    obtain ⟨member, same⟩ := Registry.get_mem found
    refine Or.inr ⟨e, member, same, ?_⟩
    exact ⟨rfl, Scene.freed_dispose linked counted e.node, rfl⟩

/-- What holds when a path is released. -/
structure Released (names : List String) (root : NodeId) (anchors : Anchors) (path : String) (s s' : Session) : Prop where
  coherent : Coherent names root anchors s'
  accounted : Accounted anchors s'
  absent : ∀ e ∈ s'.registry.entries, e.path ≠ path
  spared : ∀ (K : NodeId → Prop) (paths : List String) (changed : NodeId → Prop), UpwardClosed s.scene.store K →
    (∀ e ∈ s.registry.entries, e.path = path → ¬ K e.node) → Spared K paths changed s s'

theorem released {names : List String} {root : NodeId} {anchors : Anchors} {s : Session}
    (coherent : Coherent names root anchors s) (accounted : Accounted anchors s) (path : String) :
    Released names root anchors path s (s.released path) := by
  rcases released_cases coherent.linked coherent.counted path with ⟨absent, same⟩ | ⟨e, member, here, dropped⟩
  · rw [same]
    exact ⟨coherent, accounted, absent, fun K paths changed _ _ => spared_refl K paths changed s⟩
  · have linked := coherent.linked
    refine ⟨⟨dropped.woven coherent.toWoven member, coherent.paths.sublist (dropped.sublist.map _)⟩,
      dropped.accounted coherent.toWoven member accounted, fun f there same => ?_, fun K paths changed closed free => ?_⟩
    · obtain ⟨before, other⟩ := (dropped.mem_entries linked).mp there
      exact other (coherent.path_unique member before (here.trans same.symm) ▸ .top)
    · exact dropped.spared linked closed (free e member here) paths changed

end ProceduralScene
