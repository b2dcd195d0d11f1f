import ProceduralScene.Proofs.Leaves

/-!
Placing blueprints keeps registry, tree and account in agreement, and spares every set of nodes that contains the parent
and keeps clear of the paths of the blueprints and of their intervals.
-/

set_option autoImplicit false

namespace ProceduralScene

open Store

namespace Blueprint

mutual
/-- The paths of a blueprint and of everything in it. -/
def paths : Blueprint → List String
  | ⟨path, _, _, _, _, _, _, _, children, _, _, _, _, _⟩ => path :: allPaths children

def allPaths : List Blueprint → List String
  | [] => []
  | first :: rest => paths first ++ allPaths rest
end

theorem paths_eq (b : Blueprint) : b.paths = b.path :: allPaths b.children := by
  cases b
  rw [paths]

end Blueprint

section

variable {names : List String} {root : NodeId} {anchors : Anchors} {K : NodeId → Prop} {s s' : Session}
  {parent : NodeId} {parentPath : String} {lo hi : Nat}

/-- What blueprints find that are placed under a parent: a set of nodes that is to be spared, the parent among them, and
apart from both the tree and this set an interval for their own nodes. -/
structure Room (K : NodeId → Prop) (anchors : Anchors) (s : Session) (parent : NodeId) (parentPath : String) (lo hi : Nat) :
    Prop where
  closed : UpwardClosed s.scene.store K
  bound : ∀ x, K x → x < s.scene.store.size
  inside : K parent
  aside : ∀ x, K x → ¬ Range lo hi x
  apart : ∀ a ∈ anchors, ¬ Range lo hi a.1
  high : hi ≤ s.scene.store.size
  container : s.scene.store.holds Payload.isContainer parent = true
  stands : Stands anchors s parentPath parent

/-- No entry of the spared nodes has one of the paths. -/
def Clear (K : NodeId → Prop) (paths : List String) (s : Session) : Prop :=
  ∀ e ∈ s.registry.entries, e.path ∈ paths → ¬ K e.node

theorem room_spared {paths : List String} {changed : NodeId → Prop} (room : Room K anchors s parent parentPath lo hi)
    (spared : Spared K paths changed s s') : Room K anchors s' parent parentPath lo hi where
  closed := upward_spared room.closed spared
  bound x keep := (room.bound x keep).trans_le spared.size
  inside := room.inside
  aside := room.aside
  apart := room.apart
  high := room.high.trans spared.size
  container := (holds_of_bare (spared.bare parent room.inside) bare_isContainer).trans room.container
  stands := room.stands.imp_right fun ⟨e, member, same, here⟩ =>
    ⟨e, spared.kept e member (here ▸ room.inside), same, here⟩

theorem clear_spared {paths : List String} {changed : NodeId → Prop} {list : List String} (clear : Clear K list s)
    (spared : Spared K paths changed s s') : Clear K list s' := fun e member listed =>
  (spared.fresh e member).elim (fun before => clear e before listed) And.right

theorem clear_mono {more fewer : List String} (sub : ∀ path ∈ fewer, path ∈ more) (clear : Clear K more s) : Clear K fewer s :=
  fun e member listed => clear e member (sub _ listed)

/-- Spared nodes keep their intervals. -/
theorem enclosed_spared {paths : List String} {changed : NodeId → Prop} (linked : Linked s.scene.store)
    (linked' : Linked s'.scene.store) (spared : Spared K paths changed s s')
    (all : ∀ x, Range lo hi x → K x ∧ ¬ changed x) (enclosed : Enclosed s.scene.store (Range lo hi)) :
    Enclosed s'.scene.store (Range lo hi) := by
  intro child up link
  constructor
  · intro inside
    rw [spared.parent child (all child inside).1] at link
    exact (enclosed child up link).mp inside
  · intro inside
    obtain ⟨keep, same⟩ := all up inside
    have listed := (spared.children up keep same).sublist.subset ((linked'.agree child up).mpr link)
    exact (enclosed child up ((linked.agree child up).mp listed)).mpr inside

theorem allLaid_spared {paths : List String} {changed : NodeId → Prop} {list : List Blueprint}
    (linked : Linked s.scene.store) (linked' : Linked s'.scene.store) (spared : Spared K paths changed s s')
    (all : ∀ x, Range lo hi x → K x ∧ ¬ changed x) (laid : Blueprint.AllLaid s.scene.store list lo hi) :
    Blueprint.AllLaid s'.scene.store list lo hi := by
  refine Blueprint.allLaid_mono spared.size list (fun lo' hi' low high enclosed => ?_) (fun x inside good => ?_) laid
  · exact enclosed_spared linked linked' spared (fun x inside => all x ⟨low.trans inside.1, inside.2.trans_le high⟩) enclosed
  · exact pristine_of_bare (spared.bare x (all x inside).1) good

theorem laid_spared {paths : List String} {changed : NodeId → Prop} {b : Blueprint}
    (linked : Linked s.scene.store) (linked' : Linked s'.scene.store) (spared : Spared K paths changed s s')
    (all : ∀ x, Range lo hi x → K x ∧ ¬ changed x) (laid : b.Laid s.scene.store lo hi) :
    b.Laid s'.scene.store lo hi := by
  refine Blueprint.laid_mono spared.size b (fun lo' hi' low high enclosed => ?_) (fun x inside good => ?_) laid
  · exact enclosed_spared linked linked' spared (fun x inside => all x ⟨low.trans inside.1, inside.2.trans_le high⟩) enclosed
  · exact pristine_of_bare (spared.bare x (all x inside).1) good

theorem upward_or {K' : NodeId → Prop} {store : Store} (first : UpwardClosed store K) (second : UpwardClosed store K') :
    UpwardClosed store fun x => K x ∨ K' x := fun child up link =>
  Or.imp (first child up link) (second child up link)

theorem upward_enclosed {free : NodeId → Prop} {store : Store} (enclosed : Enclosed store free) : UpwardClosed store free :=
  fun child up link => (enclosed child up link).mp

/-- An interval apart from the anchors holds no entry. -/
theorem entry_apart (coherent : Coherent names root anchors s) {free : NodeId → Prop} (enclosed : Enclosed s.scene.store free)
    (apart : ∀ a ∈ anchors, ¬ free a.1) {e : Entry Blueprint} (member : e ∈ s.registry.entries) : ¬ free e.node :=
  placed_outside enclosed apart (coherent.entry_placed member)

/-- What holds when blueprints were placed. -/
structure Filled (names : List String) (root : NodeId) (anchors : Anchors) (K : NodeId → Prop) (paths : List String)
    (parent : NodeId) (s s' : Session) : Prop where
  coherent : Coherent names root anchors s'
  accounted : Accounted anchors s'
  spared : Spared K paths (· = parent) s s'

/-- What holds when one blueprint was placed, or left out. -/
structure Done (names : List String) (root : NodeId) (anchors : Anchors) (K : NodeId → Prop) (paths : List String)
    (parent : NodeId) (s : Session) (result : Option NodeId) (s' : Session) : Prop
    extends Filled names root anchors K paths parent s s' where
  appended : Appended K (s.scene.store.childrenOf parent) result.toList (s'.scene.store.childrenOf parent)

/-- A blueprint that was left out leaves all spared nodes as they are. -/
theorem done_absent {paths : List String} (inside : K parent) (coherent : Coherent names root anchors s')
    (accounted : Accounted anchors s') (spared : Spared K paths (fun _ => False) s s') :
    Done names root anchors K paths parent s none s' where
  coherent := coherent
  accounted := accounted
  spared := spared_mono (fun _ keep => keep) (fun _ listed => listed) (fun _ _ never => never.elim) spared
  appended := ⟨_, spared.children parent inside id, (List.append_nil _).symm⟩

/-- A held node is settled at its path. -/
theorem done_settle {b : Blueprint} {n : NodeId} {paths : List String} (room : Room K anchors s parent parentPath lo hi)
    (coherent : Coherent names root ((n, b.path) :: anchors) s') (accounted : Accounted anchors s')
    (spared : Spared K paths (fun _ => False) s s') (free : ¬ K n) (new : ∀ a ∈ anchors, a.1 ≠ n)
    (rooted : (root, "") ∈ anchors) (nested : b.Nested names parentPath) (listed : b.path ∈ paths)
    (clear : Clear K [b.path] s') :
    Yields (do return some (← Place.settle b n parent parentPath)) s' fun result after =>
      Done names root anchors K paths parent s result after := by
  have here := room_spared room spared
  have above : ∀ x, ¬ K x → ¬ Below s'.scene.store x parent := fun x outside below =>
    outside (upward_below here.closed below here.inside)
  have fits : Fits anchors s' n parent parentPath := ⟨here.container, here.stands, above n free, new⟩
  have open' : ∀ e ∈ s'.registry.entries, e.path = b.path → ¬ K e.node := fun e member same =>
    clear e member (List.mem_singleton.mpr same)
  refine yields_bind (yields_settle coherent accounted fits rooted nested fun e member same =>
    above _ (open' e member same)) ?_
  rintro _ after ⟨rfl, done⟩
  obtain ⟨further, rest, trimmed, same⟩ := done.spared K paths here.closed free listed open'
  refine yields_pure ⟨⟨done.coherent, done.accounted, ?_⟩, rest, ?_, same⟩
  · refine spared_trans (spared_mono (fun _ keep => keep) (fun _ listed => listed) ?_ spared) further
    exact fun _ _ never => never.elim
  · exact trimmed_trans (spared.children parent room.inside id) trimmed

theorem done_later {paths : List String} {s₁ : Session} {result : Option NodeId} (inside : K parent)
    (before : Spared K paths (fun _ => False) s s₁) (done : Done names root anchors K paths parent s₁ result s') :
    Done names root anchors K paths parent s result s' where
  coherent := done.coherent
  accounted := done.accounted
  spared := by
    refine spared_trans (spared_mono (fun _ keep => keep) (fun _ listed => listed) ?_ before) done.spared
    exact fun _ _ never => never.elim
  appended := by
    obtain ⟨rest, trimmed, same⟩ := done.appended
    exact ⟨rest, trimmed_trans (before.children parent inside id) trimmed, same⟩

/-! ### Leaves -/

/-- The nodes of an interval and all nodes to come. -/
def Own (lo hi : Nat) (store : Store) (x : NodeId) : Prop := Range lo hi x ∨ store.New x

theorem workplace_own (coherent : Coherent names root anchors s) (accounted : Accounted anchors s)
    (apart : Apart s.scene.store lo hi) (aside : ∀ a ∈ anchors, ¬ Range lo hi a.1) :
    Workplace names root anchors (Own lo hi s.scene.store) s where
  coherent := coherent
  accounted := accounted
  enclosed := enclosed_or apart.enclosed (enclosed_new coherent.linked)
  wide _ fresh := Or.inr fresh
  pristine id inside := inside.elim (apart.pristine id) ((workplace_new coherent accounted).pristine id)
  apart a anchor inside := inside.elim (aside a anchor) ((workplace_new coherent accounted).apart a anchor)

theorem own_spared (room : Room K anchors s parent parentPath lo hi) (x : NodeId) (keep : K x) :
    ¬ Own lo hi s.scene.store x := fun own =>
  own.elim (room.aside x keep) (Nat.not_le_of_lt (room.bound x keep))

/-- A node that is held beside all spared nodes is settled at its path. -/
theorem done_held {b : Blueprint} {n : NodeId} {paths : List String} {free : NodeId → Prop}
    (room : Room K anchors s parent parentPath lo hi) (apart : ∀ x, K x → ¬ free x) (aside : ∀ a ∈ anchors, ¬ free a.1)
    (rooted : (root, "") ∈ anchors) (absent : ∀ e ∈ s.registry.entries, e.path ≠ b.path)
    (nested : b.Nested names parentPath) (listed : b.path ∈ paths)
    (held : Place.Held names root anchors free b.path n s s') :
    Yields (do return some (← Place.settle b n parent parentPath)) s' fun result after =>
      Done names root anchors K paths parent s result after := by
  have registry : s'.registry = s.registry := by rw [held.beside.same]
  refine done_settle room held.coherent held.accounted (spared_beside held.beside apart paths _)
    (fun keep => apart n keep held.inside) (fun a anchor same => aside a anchor (same ▸ held.inside)) rooted nested listed ?_
  intro e member same
  rw [registry] at member
  exact absurd (List.mem_singleton.mp same) (absent e member)

theorem done_leaf {b : Blueprint} {paths : List String} {free : NodeId → Prop}
    (work : Workplace names root anchors free s) (room : Room K anchors s parent parentPath lo hi)
    (apart : ∀ x, K x → ¬ free x) (absent : ∀ e ∈ s.registry.entries, e.path ≠ b.path)
    (nested : b.Nested names parentPath) (listed : b.path ∈ paths) (verb : String) {result : Value}
    (among : result.Among free s.scene.store) :
    Yields (Place.leaf b verb result parent parentPath) s fun result after =>
      Done names root anchors K paths parent s result after := by
  obtain ⟨_, _, _, plain, _⟩ := (Blueprint.nested_iff names parentPath b).mp nested
  refine Place.held_result work b plain verb among (fun after aside => ?_) fun n after held => ?_
  · have work' := workplace_aside work aside
    exact done_absent room.inside work'.coherent work'.accounted (spared_beside aside.toBeside apart paths _)
  · exact done_held room apart work.apart work.coherent.rooted absent nested listed held

theorem done_deferred {b : Blueprint} {paths : List String} {free : NodeId → Prop}
    (work : Workplace names root anchors free s) (room : Room K anchors s parent parentPath lo hi)
    (apart : ∀ x, K x → ¬ free x) (absent : ∀ e ∈ s.registry.entries, e.path ≠ b.path)
    (nested : b.Nested names parentPath) (listed : b.path ∈ paths) (verb : String) {params : Value}
    (children : verb = "group" → Factory.ChildrenAmong free s.scene.store params) :
    Yields (do Place.leaf b verb (← Place.runDeferred b verb params parentPath) parent parentPath) s fun result after =>
      Done names root anchors K paths parent s result after := by
  refine yields_bind (yields_of_within (Place.aside_runDeferred work b verb children parentPath)) ?_
  rintro result middle ⟨aside, among⟩
  have spared := spared_beside aside.toBeside apart paths fun _ => False
  have registry : middle.registry = s.registry := by rw [aside.same]
  refine yields_mono (done_leaf (workplace_aside work aside) (room_spared room spared) apart ?_ nested listed verb among) ?_
  · rwa [registry]
  · exact fun result after done => done_later room.inside spared done

theorem done_reference {b : Blueprint} {paths : List String}
    (coherent : Coherent names root anchors s) (accounted : Accounted anchors s)
    (room : Room K anchors s parent parentPath lo hi) (absent : ∀ e ∈ s.registry.entries, e.path ≠ b.path)
    (nested : b.Nested names parentPath) (listed : b.path ∈ paths) (target : String) :
    Yields (Place.reference b target parent parentPath) s fun result after =>
      Done names root anchors K paths parent s result after := by
  obtain ⟨_, _, _, plain, _⟩ := (Blueprint.nested_iff names parentPath b).mp nested
  have work := workplace_new coherent accounted
  have apart : ∀ x, K x → ¬ s.scene.store.New x := fun x keep => Nat.not_le_of_lt (room.bound x keep)
  have finish : ∀ n after, Place.Held names root anchors s.scene.store.New b.path n s after →
      Yields (do return some (← Place.settle b n parent parentPath)) after fun result after =>
        Done names root anchors K paths parent s result after := fun n after held =>
    done_held room apart work.apart coherent.rooted absent nested listed held
  refine yields_bind (yields_of_within (Place.aside_resolveTarget work target parentPath b.path)) ?_
  rintro found first ⟨aside, bounds⟩
  have work' := workplace_aside work aside
  split
  · exact yields_pure (done_absent room.inside work'.coherent work'.accounted (spared_beside aside.toBeside apart paths _))
  · rename_i id
    have copied := Place.held_copy work' (bounds id rfl) b.path
    refine yields_bind copied fun n after held => ?_
    have held : Place.Held names root anchors s.scene.store.New b.path n s after :=
      ⟨beside_trans aside.toBeside held.beside, held.coherent, held.accounted, held.inside⟩
    split
    · refine yields_bind (Place.held_material held b plain) fun material after held => ?_
      refine yields_bind (Place.held_paint held work.enclosed coherent.linked true material) fun _ after held => ?_
      exact finish n after held
    · exact finish n after held

/-! ### Blueprints -/

/-- What blueprints find when the path of one of them was released. -/
theorem released_room {path : String} {s₁ : Session} (paths : List String) (room : Room K anchors s parent parentPath lo hi)
    (coherent : Coherent names root anchors s) (apart : Apart s.scene.store lo hi) (clear : Clear K [path] s)
    (released : Released names root anchors path s s₁) :
    Spared (fun x => K x ∨ Range lo hi x) paths (fun _ => False) s s₁ := by
  refine released.spared _ paths _ (upward_or room.closed (upward_enclosed apart.enclosed)) fun e member same => ?_
  rintro (keep | inside)
  · exact clear e member (List.mem_singleton.mpr same) keep
  · exact entry_apart coherent apart.enclosed room.apart member inside

/-- A group is placed when its children can be placed into its container. -/
theorem done_group {b : Blueprint} (coherent : Coherent names root anchors s) (accounted : Accounted anchors s)
    (room : Room K anchors s parent parentPath lo hi) (laid : Blueprint.AllLaid s.scene.store b.children lo hi)
    (absent : ∀ e ∈ s.registry.entries, e.path ≠ b.path) (nested : b.Nested names parentPath) (clear : Clear K b.paths s)
    (fill : ∀ (c : NodeId) (s : Session), Coherent names root ((c, b.path) :: anchors) s →
      Accounted ((c, b.path) :: anchors) s → Room (fun x => K x ∨ x = c) ((c, b.path) :: anchors) s c b.path lo hi →
      Blueprint.AllLaid s.scene.store b.children lo hi →
      Clear (fun x => K x ∨ x = c) (Blueprint.allPaths b.children) s →
      Yields (Place.placeAll c b.path b.children) s fun _ after => Filled names root ((c, b.path) :: anchors)
        (fun x => K x ∨ x = c) (Blueprint.allPaths b.children) c s after) :
    Yields (do
      let container ← SessionAction.onScene (SceneAction.createContainer b.name)
      Place.placeAll container b.path b.children
      return some (← Place.settle b container parent parentPath)) s fun result after =>
        Done names root anchors K b.paths parent s result after := by
  have work := workplace_new coherent accounted
  have made : Yields (SessionAction.onScene (SceneAction.createContainer b.name)) s fun c after =>
      c = s.scene.store.size ∧
        ∃ scene, Place.Filling names root anchors s.scene.store.New b.path c s scene ∧ after = { s with scene := scene } :=
    SessionAction.ends_onScene (yields_mono (Place.filling_create work b.name b.path) fun c scene both =>
      ⟨both.1, scene, both.2, rfl⟩)
  refine yields_bind made ?_
  rintro _ _ ⟨rfl, scene, filling, rfl⟩
  have beside : Beside s.scene.store.New s { s with scene := scene } := ⟨rfl, filling.confined⟩
  have old : ∀ x, K x ∨ Range lo hi x → ¬ s.scene.store.New x := fun x inside =>
    Nat.not_le_of_lt (inside.elim (room.bound x) fun range => range.2.trans_le room.high)
  have created : Spared (fun x => K x ∨ Range lo hi x) b.paths (fun _ => False) s { s with scene := scene } :=
    spared_beside beside old _ _
  have spared := spared_mono (fun _ => Or.inl) (fun _ listed => listed) (fun _ _ never => never) created
  have here := room_spared room spared
  have fresh : ¬ K s.scene.store.size := fun keep => old _ (Or.inl keep) (Nat.le_refl _)
  have high : ∀ x, Range lo hi x → x ≠ s.scene.store.size := fun x inside => Nat.ne_of_lt (inside.2.trans_le room.high)
  have room' : Room (fun x => K x ∨ x = s.scene.store.size) ((s.scene.store.size, b.path) :: anchors)
      { s with scene := scene } s.scene.store.size b.path lo hi :=
    { closed := upward_or here.closed fun child up link same => by
        rw [same, filling.coherent.pending.2] at link
        cases link
      bound := fun x inside => inside.elim (here.bound x) fun same => same ▸ filling.coherent.pending.1
      inside := Or.inr rfl
      aside := fun x inside range => inside.elim (fun keep => room.aside x keep range) (high x range)
      apart := fun a anchor range => by
        rcases List.mem_cons.mp anchor with rfl | before
        · exact high _ range rfl
        · exact room.apart a before range
      high := here.high
      container := filling.holds
      stands := Or.inl List.mem_cons_self }
  have laid' := allLaid_spared coherent.linked filling.coherent.linked created (fun x inside => ⟨Or.inr inside, id⟩) laid
  have clear' : Clear (fun x => K x ∨ x = s.scene.store.size) (Blueprint.allPaths b.children) { s with scene := scene } := by
    rintro e member listed (keep | same)
    · exact clear e member (by rw [Blueprint.paths_eq]; exact List.mem_cons_of_mem _ listed) keep
    · exact filling.coherent.entry_ne_pending member same
  refine yields_bind (fill _ _ filling.coherent filling.accounted room' laid' clear') ?_
  rintro _ after filled
  have further : Spared K b.paths (fun _ => False) { s with scene := scene } after := by
    refine spared_mono (fun _ => Or.inl) (fun path listed => ?_) (fun x keep same => ?_) filled.spared
    · rw [Blueprint.paths_eq]
      exact List.mem_cons_of_mem _ listed
    · exact fresh (same ▸ keep)
  refine done_settle room filled.coherent (Place.accounted_tail filled.accounted) (spared_trans spared further) fresh
    (fun a anchor same => ?_) coherent.rooted nested (by rw [Blueprint.paths_eq]; exact List.mem_cons_self) ?_
  · exact Nat.ne_of_lt (coherent.roots a anchor).1 same
  · intro e member same keep
    rcases filled.spared.fresh e member with before | ⟨_, free⟩
    · exact absent e before (List.mem_singleton.mp same)
    · exact free (Or.inl keep)

end

section

variable {names : List String} {root : NodeId}

mutual
/-- Placing a blueprint keeps the agreement, and spares what it finds. -/
theorem done_place : ∀ (b : Blueprint) (parent : NodeId) (parentPath : String) {anchors : Anchors} {K : NodeId → Prop}
    {s : Session} {lo hi : Nat}, Coherent names root anchors s → Accounted anchors s →
    Room K anchors s parent parentPath lo hi → b.Laid s.scene.store lo hi → b.Nested names parentPath → Clear K b.paths s →
    Yields (Place.place parent parentPath b) s fun result after =>
      Done names root anchors K b.paths parent s result after
  | ⟨path, name, content, position, rotation, scale, visible, material, children, context, scope, source, index, anchor⟩,
    parent, parentPath, anchors, K, s, lo, hi, coherent, accounted, room, laid, nested, clear => by
    rw [Place.place.eq_def]
    have fill := fun (c : NodeId) {anchors : Anchors} {K : NodeId → Prop} {s : Session} =>
      @filled_placeAll children c path anchors K s lo hi
    have paths := Blueprint.paths_eq ⟨path, name, content, position, rotation, scale, visible, material, children, context,
      scope, source, index, anchor⟩
    have inner := (Blueprint.nested_iff names parentPath _).mp nested
    dsimp only at paths inner ⊢
    have listed : path ∈ Blueprint.paths ⟨path, name, content, position, rotation, scale, visible, material, children, context,
        scope, source, index, anchor⟩ := by
      rw [paths]
      exact List.mem_cons_self
    have releasing : Yields (SessionAction.releasePath path) s fun _ after => after = s.released path := ends_modifyGet rfl
    refine yields_bind releasing ?_
    rintro _ _ rfl
    have done := released coherent accounted path
    have wide := released_room (Blueprint.paths ⟨path, name, content, position, rotation, scale, visible, material,
      children, context, scope, source, index, anchor⟩) room coherent (Blueprint.laid_apart laid)
      (clear_mono (fun _ single => List.mem_singleton.mp single ▸ listed) clear) done
    have spared := spared_mono (fun _ => Or.inl) (fun _ listed => listed) (fun _ _ never => never) wide
    have room' := room_spared room spared
    have laid' := laid_spared coherent.linked done.coherent.linked wide (fun x inside => ⟨Or.inr inside, id⟩) laid
    have clear' := clear_spared clear spared
    have own := workplace_own done.coherent done.accounted (Blueprint.laid_apart laid') room.apart
    have apart := own_spared room'
    refine yields_mono ?_ fun result after placed => done_later room.inside spared placed
    cases content with
    | group =>
      rw [Blueprint.laid_group rfl] at laid'
      refine done_group done.coherent done.accounted room' laid' done.absent nested clear' ?_
      exact fun c s coherent accounted room laid clear => fill c coherent accounted room laid inner.2.2.2.2.2 clear
    | reference target =>
      exact done_reference done.coherent done.accounted room' done.absent nested listed target
    | call verb params result =>
      have leaf : BlueprintContent.call verb params result ≠ .group := fun same => by cases same
      obtain ⟨_, holds⟩ := (Blueprint.laid_leaf leaf lo hi).mp laid'
      cases result with
      | none =>
        refine done_deferred own room' apart done.absent nested listed verb fun group entries same => ?_
        exact among_mono (fun _ => Or.inl) (Nat.le_refl _) (holds group entries same)
      | some result =>
        exact done_leaf own room' apart done.absent nested listed verb (among_mono (fun _ => Or.inl) (Nat.le_refl _) holds)
    | shape verb params result =>
      have leaf : BlueprintContent.shape verb params result ≠ .group := fun same => by cases same
      obtain ⟨_, holds⟩ := (Blueprint.laid_leaf leaf lo hi).mp laid'
      exact done_leaf own room' apart done.absent nested listed verb (among_mono (fun _ => Or.inl) (Nat.le_refl _) holds)

theorem filled_placeAll : ∀ (list : List Blueprint) (parent : NodeId) (parentPath : String) {anchors : Anchors}
    {K : NodeId → Prop} {s : Session} {lo hi : Nat}, Coherent names root anchors s → Accounted anchors s →
    Room K anchors s parent parentPath lo hi → Blueprint.AllLaid s.scene.store list lo hi →
    Blueprint.AllNested names parentPath list → Clear K (Blueprint.allPaths list) s →
    Yields (Place.placeAll parent parentPath list) s fun _ after =>
      Filled names root anchors K (Blueprint.allPaths list) parent s after
  | [], parent, parentPath, anchors, K, s, lo, hi, coherent, accounted, _, _, _, _ => by
    rw [Place.placeAll]
    exact yields_pure ⟨coherent, accounted, spared_refl _ _ _ _⟩
  | first :: rest, parent, parentPath, anchors, K, s, lo, hi, coherent, accounted, room, laid, nested, clear => by
    rw [Place.placeAll]
    rw [Blueprint.AllLaid] at laid
    rw [Blueprint.AllNested] at nested
    obtain ⟨_, start, mid, low, here, later⟩ := laid
    have upper := Blueprint.allLaid_apart later
    have lower := Blueprint.laid_apart here
    have inRest : ∀ x, Range mid hi x → Range lo hi x := fun x inside =>
      ⟨low.trans (lower.ordered.trans inside.1), inside.2⟩
    have inFirst : ∀ x, Range start mid x → Range lo hi x := fun x inside =>
      ⟨low.trans inside.1, inside.2.trans_le upper.ordered⟩
    -- what the rest is made of is spared as well while the first one is placed
    have wide : Room (fun x => K x ∨ Range mid hi x) anchors s parent parentPath start mid :=
      { room with
        closed := upward_or room.closed (upward_enclosed upper.enclosed)
        bound := fun x inside => inside.elim (room.bound x) fun range => range.2.trans_le room.high
        inside := Or.inl room.inside
        aside := fun x inside range => inside.elim (fun keep => room.aside x keep (inFirst x range))
          fun above => Nat.not_le_of_lt range.2 above.1
        apart := fun a anchor range => room.apart a anchor (inFirst _ range)
        high := upper.ordered.trans room.high }
    have open' : Clear (fun x => K x ∨ Range mid hi x) first.paths s := by
      rintro e member listed (keep | range)
      · exact clear e member (List.mem_append.mpr (Or.inl listed)) keep
      · exact entry_apart coherent upper.enclosed (fun a anchor range => room.apart a anchor (inRest _ range)) member range
    refine yields_bind (done_place first parent parentPath coherent accounted wide here nested.1 open') ?_
    intro result middle done
    have spared : Spared K (Blueprint.allPaths (first :: rest)) (· = parent) s middle :=
      spared_mono (fun _ => Or.inl) (fun path listed => List.mem_append.mpr (Or.inl listed)) (fun _ _ same => same) done.spared
    have laid' := allLaid_spared coherent.linked done.coherent.linked done.spared
      (fun x inside => ⟨Or.inr inside, fun same => room.aside x (same ▸ room.inside) (inRest x inside)⟩) later
    have room' : Room K anchors middle parent parentPath mid hi :=
      { room_spared room spared with
        aside := fun x keep range => room.aside x keep (inRest x range)
        apart := fun a anchor range => room.apart a anchor (inRest _ range) }
    have clear' := clear_mono (fun path listed => List.mem_append.mpr (Or.inr listed)) (clear_spared clear spared)
    refine yields_mono (filled_placeAll rest parent parentPath done.coherent done.accounted room' laid' nested.2 clear') ?_
    intro _ after filled
    refine ⟨filled.coherent, filled.accounted, spared_trans spared ?_⟩
    exact spared_mono (fun _ keep => keep) (fun path listed => List.mem_append.mpr (Or.inr listed)) (fun _ _ same => same)
      filled.spared
end

end

end ProceduralScene
