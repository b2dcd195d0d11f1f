import ProceduralScene.Proofs.Settling
import ProceduralScene.Proofs.Walks

/-!
How the node of a leaf comes about: references are resolved to copies, a factory may run, and what it made is copied
where it stands elsewhere already. All of this happens aside from the tree.
-/

set_option autoImplicit false

namespace ProceduralScene

open Store

section

variable {names : List String} {root : NodeId} {anchors : Anchors} {free : NodeId → Prop} {s s' : Session}

/-- A session with a part of its store that stands apart from the tree, with all nodes to come. -/
structure Workplace (names : List String) (root : NodeId) (anchors : Anchors) (free : NodeId → Prop) (s : Session) :
    Prop where
  coherent : Coherent names root anchors s
  accounted : Accounted anchors s
  enclosed : Enclosed s.scene.store free
  wide : ∀ id, s.scene.store.New id → free id
  pristine : ∀ id, free id → s.scene.store.PristineAt id
  apart : ∀ a ∈ anchors, ¬ free a.1

theorem workplace_aside (work : Workplace names root anchors free s) (aside : Aside free s s') :
    Workplace names root anchors free s' where
  coherent := coherent_aside work.enclosed aside work.coherent work.apart
  accounted := accounted_aside work.enclosed aside work.coherent.linked work.apart work.accounted
  enclosed := enclosed_confined work.coherent.linked work.enclosed aside.confined
  wide id fresh := work.wide id (aside.confined.size.trans fresh)
  pristine := aside.confined.pristine work.pristine
  apart := work.apart

/-- The new nodes are a workplace always. -/
theorem workplace_new (coherent : Coherent names root anchors s) (accounted : Accounted anchors s) :
    Workplace names root anchors s.scene.store.New s where
  coherent := coherent
  accounted := accounted
  enclosed := enclosed_new coherent.linked
  wide _ fresh := fresh
  pristine _ fresh _ found := absurd (get_some_lt found) (Nat.not_lt_of_ge fresh)
  apart a anchor fresh := Nat.not_lt_of_ge fresh (coherent.roots a anchor).1

theorem aside_mono {more : NodeId → Prop} (wider : ∀ id, free id → more id) (aside : Aside free s s') : Aside more s s' :=
  { aside with confined := confined_mono wider aside.confined }

theorem among_aside {value : Value} (aside : Aside free s s') (among : value.Among free s.scene.store) :
    value.Among free s'.scene.store := among_mono (fun _ inside => inside) aside.confined.size among

end

namespace Place

open SessionAction

section

variable {names : List String} {root : NodeId} {anchors : Anchors} {free : NodeId → Prop} {s : Session}

theorem aside_record (code text : String) (path : Option String) :
    Within (Aside free) (record code text path) s fun _ _ => True :=
  within_modify ⟨⟨rfl, confined_refl _ _⟩, rfl, fun plain => ⟨plain.functions, plain.memo⟩⟩ trivial

theorem aside_onScene {α : Type} {action : SceneAction α} {post : α → Scene → Prop}
    (body : Within (SceneConfined free) action s.scene post) :
    Within (Aside free) (onScene action) s fun value after => post value after.scene := by
  have aside : ∀ scene, SceneConfined free s.scene scene → Aside free s { s with scene := scene } :=
    fun scene confined => ⟨⟨rfl, confined.store⟩, confined.live, id⟩
  refine ends_onScene (ends_mono body ?_ ?_)
  · exact fun value scene both => ⟨aside scene both.1, both.2⟩
  · exact fun scene confined => aside scene confined

/-- A copy is new and has no parent. -/
theorem confined_clone {scene : Scene} (linked : Linked scene.store) {id : NodeId} (bound : id < scene.store.size) :
    Within (SceneConfined scene.store.New) (SceneAction.clone id) scene fun copy after =>
      scene.store.New copy ∧ copy < after.store.size ∧ after.store.parentOf copy = none := by
  have copied := clone_copied linked bound
  refine ends_modifyGet ⟨⟨copied.confined, rfl, rfl⟩, ?_⟩
  exact ⟨Nat.le_of_eq copied.id.symm, copied.id ▸ copied.made, copied.root⟩

theorem aside_clone (work : Workplace names root anchors free s) {id : NodeId} (bound : id < s.scene.store.size) :
    Within (Aside free) (onScene (SceneAction.clone id)) s fun copy after =>
      free copy ∧ copy < after.scene.store.size ∧ after.scene.store.parentOf copy = none := by
  refine within_mono (aside_onScene (confined_clone work.coherent.linked bound)) (fun _ aside => aside_mono work.wide aside) ?_
  exact fun copy after _ made => ⟨work.wide copy made.1, made.2⟩

/-- The node that a target means is registered. -/
theorem aside_resolveTarget (work : Workplace names root anchors free s) (target scope path : String) :
    Within (Aside free) (resolveTarget target scope path) s fun found after =>
      ∀ id, found = some id → id < after.scene.store.size := by
  refine within_get ?_
  split
  · rename_i entry found
    obtain ⟨path, _, read⟩ := Option.bind_eq_some_iff.mp found
    have member : entry ∈ s.registry.entries := List.mem_of_find?_eq_some read
    obtain ⟨p, link, _⟩ := work.coherent.parents entry member
    exact within_pure (steady_aside free) fun id same => Option.some.inj same ▸ parent_lt link
  · refine within_seq (steady_aside free) (aside_record _ _ _) fun _ after _ => ?_
    exact within_pure (steady_aside free) fun _ same => by cases same

/-! ### Resolved parameters -/

/-- Each entry of the first map has its counterpart in the second one, which holds free nodes if it does. -/
def Resolved (free : NodeId → Prop) (store store' : Store) : List (Key × Value) → List (Key × Value) → Prop
  | [], [] => True
  | (key, x) :: rest, (key', x') :: rest' =>
    key = key' ∧ (x.Among free store → x'.Among free store') ∧ Resolved free store store' rest rest'
  | _, _ => False

theorem resolved_mono {store store' store'' : Store} (size : store'.size ≤ store''.size) :
    ∀ {entries results : List (Key × Value)}, Resolved free store store' entries results →
      Resolved free store store'' entries results
  | [], [], _ => trivial
  | (_, _) :: _, (_, _) :: _, ⟨same, among, rest⟩ =>
    ⟨same, fun before => among_mono (fun _ inside => inside) size (among before), resolved_mono size rest⟩

theorem resolved_earlier {earlier store store' : Store} (size : earlier.size ≤ store.size) :
    ∀ {entries results : List (Key × Value)}, Resolved free store store' entries results →
      Resolved free earlier store' entries results
  | [], [], _ => trivial
  | (_, _) :: _, (_, _) :: _, ⟨same, among, rest⟩ =>
    ⟨same, fun before => among (among_mono (fun _ inside => inside) size before), resolved_earlier size rest⟩

theorem resolved_among {store store' : Store} : ∀ {entries results : List (Key × Value)},
    Resolved free store store' entries results → (∀ entry ∈ entries, entry.2.Among free store) →
      ∀ entry ∈ results, entry.2.Among free store'
  | [], [], _, _, _, member => nomatch member
  | (_, _) :: _, (_, _) :: _, ⟨_, among, rest⟩, all, entry, member => by
    rcases List.mem_cons.mp member with rfl | later
    · exact among (all _ List.mem_cons_self)
    · exact resolved_among rest (fun e inside => all e (List.mem_cons_of_mem _ inside)) entry later

theorem resolved_entry {store store' : Store} (name : String) : ∀ {entries results : List (Key × Value)},
    Resolved free store store' entries results →
      (((Value.entry? name entries).getD .null).Among free store →
        ((Value.entry? name results).getD .null).Among free store')
  | [], [], _, _ => fun _ member => nomatch member
  | (key, x) :: rest, (key', x') :: rest', ⟨same, among, others⟩, before => by
    subst same
    by_cases here : key = .text name
    · subst here
      simp only [Value.entry?, List.lookup_cons_self, Option.getD_some] at before ⊢
      exact among before
    · have other : (Key.text name == key) = false := by simpa using Ne.symm here
      simp only [Value.entry?, List.lookup_cons, other] at before ⊢
      exact resolved_entry name others before

/-- What is known about a value with its references resolved. -/
structure Copied (free : NodeId → Prop) (store store' : Store) (value result : Value) : Prop where
  nodes : value.Among free store → result.Among free store'
  children : Factory.ChildrenAmong free store value → Factory.ChildrenAmong free store' result

theorem copied_refl {store store' : Store} (size : store.size ≤ store'.size) (value : Value) :
    Copied free store store' value value where
  nodes := among_mono (fun _ inside => inside) size
  children all entries same := among_mono (fun _ inside => inside) size (all entries same)

mutual
theorem aside_resolveMarkers (scope path : String) : ∀ (value : Value) (s : Session),
    Workplace names root anchors free s → Within (Aside free) (resolveMarkers scope path value) s fun result after =>
      Copied free s.scene.store after.scene.store value result
  | .marker target, s, work => by
    have steady := steady_aside free
    rw [resolveMarkers]
    refine within_bind steady (aside_resolveTarget work target scope path) fun found first aside bounds => ?_
    split
    · rename_i id
      refine within_bind steady (aside_clone (workplace_aside work aside) (bounds id rfl)) ?_
      rintro copy after _ ⟨inside, bound, _⟩
      refine within_pure steady ⟨fun _ x member => ?_, fun _ entries same => by cases same⟩
      exact List.mem_singleton.mp member ▸ ⟨inside, bound⟩
    · exact within_pure steady ⟨fun _ x member => (by cases member), fun _ entries same => by cases same⟩
  | .list items, s, work => by
    rw [resolveMarkers]
    refine within_bind (steady_aside free) (aside_resolveItems scope path items s work) fun results after _ all => ?_
    refine within_pure (steady_aside free) ⟨fun before => ?_, fun _ entries same => by cases same⟩
    exact SessionAction.among_list.mpr (all (SessionAction.among_list.mp before))
  | .map entries, s, work => by
    rw [resolveMarkers]
    refine within_bind (steady_aside free) (aside_resolveEntries scope path entries s work) fun results after _ all => ?_
    refine within_pure (steady_aside free) ⟨fun before => ?_, fun children found same => ?_⟩
    · exact SessionAction.among_map.mpr (resolved_among all (SessionAction.among_map.mp before))
    · cases same
      exact resolved_entry "children" all (children entries rfl)
  | .null, s, work | .bool _, s, work | .int _, s, work | .float _, s, work | .complex _ _, s, work
  | .text _, s, work | .node _, s, work => by
    rw [resolveMarkers] <;> first
      | exact within_pure (steady_aside free) (copied_refl (Nat.le_refl _) _)
      | (intros; contradiction)

theorem aside_resolveItems (scope path : String) : ∀ (items : List Value) (s : Session),
    Workplace names root anchors free s → Within (Aside free) (resolveItems scope path items) s fun results after =>
      (∀ x ∈ items, x.Among free s.scene.store) → ∀ x ∈ results, x.Among free after.scene.store
  | [], s, _ => by
    rw [resolveItems]
    exact within_pure (steady_aside free) fun _ x member => by cases member
  | x :: rest, s, work => by
    have steady := steady_aside free
    rw [resolveItems]
    refine within_bind steady (aside_resolveMarkers scope path x s work) fun value middle aside here => ?_
    refine within_bind steady (aside_resolveItems scope path rest middle (workplace_aside work aside)) ?_
    intro values after further later
    refine within_pure steady fun before y member => ?_
    rcases List.mem_cons.mp member with rfl | inside
    · exact among_aside further (here.nodes (before x List.mem_cons_self))
    · exact later (fun z listed => among_aside aside (before z (List.mem_cons_of_mem _ listed))) y inside

theorem aside_resolveEntries (scope path : String) : ∀ (entries : List (Key × Value)) (s : Session),
    Workplace names root anchors free s → Within (Aside free) (resolveEntries scope path entries) s fun results after =>
      Resolved free s.scene.store after.scene.store entries results
  | [], s, _ => by
    rw [resolveEntries]
    exact within_pure (steady_aside free) trivial
  | (key, x) :: rest, s, work => by
    have steady := steady_aside free
    rw [resolveEntries]
    refine within_bind steady (aside_resolveMarkers scope path x s work) fun value middle aside here => ?_
    refine within_bind steady (aside_resolveEntries scope path rest middle (workplace_aside work aside)) ?_
    intro values after further later
    refine within_pure steady ⟨rfl, fun before => among_aside further (here.nodes before), ?_⟩
    exact resolved_earlier aside.confined.size later
end

/-- A factory runs with its references resolved; what it makes is free. -/
theorem aside_runDeferred (work : Workplace names root anchors free s) (b : Blueprint) (verb : String) {params : Value}
    (children : verb = "group" → Factory.ChildrenAmong free s.scene.store params) (parentPath : String) :
    Within (Aside free) (runDeferred b verb params parentPath) s fun result after => result.Among free after.scene.store := by
  have steady := steady_aside free
  have nothing : ∀ (code text : String) (s : Session), Within (Aside free) (do
      record code text (some b.path)
      return .null : SessionAction Value) s fun result after => result.Among free after.scene.store := fun code text s =>
    within_seq steady (aside_record code text _) fun _ _ _ => within_pure steady fun _ member => by cases member
  refine within_bind steady (aside_resolveMarkers parentPath b.path params s work) fun params first aside copied => ?_
  have work := workplace_aside work aside
  have sought : Within (Aside free) (attempt (findFactory (.text verb))) first fun result after => after = first ∧
      ∀ entry, result = .ok entry → verb = entry.1 ∧ FactoryTable.SoundEntry entry.1 entry.2 := by
    refine ends_attempt (ends_mono (findFactory_sound work.coherent.ready.factories (.text verb)) ?_ ?_)
    · rintro entry _ ⟨rfl, named, sound⟩
      refine ⟨steady.refl first, rfl, fun found same => ?_⟩
      cases same
      exact ⟨Value.text.inj named, sound⟩
    · rintro _ rfl failure
      exact ⟨steady.refl first, rfl, fun _ same => by cases same⟩
  refine within_bind steady sought ?_
  rintro result _ _ ⟨rfl, good⟩
  split
  · exact nothing _ _ _
  · rename_i name factory
    obtain ⟨rfl, sound⟩ := good _ rfl
    have body := FactoryTable.invoke_confined sound params work.coherent.linked work.enclosed work.wide fun group =>
      copied.children (children group)
    refine within_bind steady (within_attempt (aside_onScene body)) fun result after _ good => ?_
    split
    · exact within_pure steady (good _ rfl)
    · exact nothing _ _ after

/-! ### The node of a result -/

/-- A free node that was brought about as an anchor for a path. -/
structure Held (names : List String) (root : NodeId) (anchors : Anchors) (free : NodeId → Prop) (path : String) (n : NodeId)
    (s s' : Session) : Prop where
  beside : Beside free s s'
  coherent : Coherent names root ((n, path) :: anchors) s'
  accounted : Accounted anchors s'
  inside : free n

theorem accounted_tail {a : NodeId × String} (accounted : Accounted (a :: anchors) s) : Accounted anchors s :=
  fun x ⟨b, anchor, below⟩ => accounted x ⟨b, List.mem_cons_of_mem _ anchor, below⟩

/-- A free node without a parent is held. -/
theorem held_of_aside (work : Workplace names root anchors free s) {s' : Session} (aside : Aside free s s') {n : NodeId}
    (inside : free n) (bound : n < s'.scene.store.size) (parentless : s'.scene.store.parentOf n = none) (path : String) :
    Held names root anchors free path n s s' where
  beside := aside.toBeside
  coherent :=
    have work' := workplace_aside work aside
    coherent_enter work'.coherent bound parentless
      (fun x below => work'.pristine x ((enclosed_below work'.enclosed below).mp inside)) path
  accounted := (workplace_aside work aside).accounted
  inside := inside

/-- A node without a parent that was not disposed is taken, any other one copied. -/
theorem confined_fresh_node {scene : Scene} (linked : Linked scene.store) {id : NodeId} (bound : id < scene.store.size) :
    Within (SceneConfined scene.store.New) (fresh id) scene fun n after =>
      (scene.store.New n ∨ n = id) ∧ n < after.store.size ∧ after.store.parentOf n = none := by
  refine within_get (within_pure_bind (within_ite (fun _ => ?_) fun taken => ?_))
  · exact within_weaken (confined_clone linked bound) fun n _ _ made => ⟨Or.inl made.1, made.2⟩
  · refine within_pure (steady_confined _) ⟨Or.inr rfl, bound, ?_⟩
    simp only [Bool.or_eq_true, not_or] at taken
    simpa using taken.2

theorem held_fresh (work : Workplace names root anchors free s) {id : NodeId} (inside : free id)
    (bound : id < s.scene.store.size) (path : String) :
    Yields (onScene (fresh id)) s fun n after => Held names root anchors free path n s after := by
  refine yields_mono (yields_of_within (aside_onScene (confined_fresh_node work.coherent.linked bound))) ?_
  rintro n after ⟨aside, new, bound, parentless⟩
  refine held_of_aside work (aside_mono work.wide aside) ?_ bound parentless path
  rcases new with new | rfl
  · exact work.wide n new
  · exact inside

/-- While a container is filled it stands as an anchor, and everything that goes into it is free. -/
structure Filling (names : List String) (root : NodeId) (anchors : Anchors) (free : NodeId → Prop) (path : String)
    (container : NodeId) (s : Session) (scene : Scene) : Prop where
  coherent : Coherent names root ((container, path) :: anchors) { s with scene := scene }
  accounted : Accounted ((container, path) :: anchors) { s with scene := scene }
  confined : Confined free s.scene.store scene.store
  enclosed : Enclosed scene.store free
  wide : ∀ id, scene.store.New id → free id
  pristine : ∀ id, free id → scene.store.PristineAt id
  rooted : (root, "") ∈ anchors
  apart : ∀ a ∈ anchors, ¬ free a.1
  inside : free container
  holds : scene.store.holds Payload.isContainer container = true

theorem filling_aside {path : String} {container : NodeId} {scene scene' : Scene}
    (filling : Filling names root anchors free path container s scene)
    (confined : SceneConfined scene.store.New scene scene') :
    Filling names root anchors free path container s scene' := by
  have work := workplace_new filling.coherent filling.accounted
  have aside : Aside scene.store.New { s with scene := scene } { s with scene := scene' } :=
    ⟨⟨rfl, confined.store⟩, confined.live, id⟩
  have work' := workplace_aside work aside
  have grown := confined_mono filling.wide confined.store
  have bound : container < scene.store.size := filling.coherent.pending.1
  exact
    { filling with
      coherent := work'.coherent
      accounted := work'.accounted
      confined := confined_trans filling.confined grown
      enclosed := enclosed_confined filling.coherent.linked filling.enclosed grown
      wide := fun id fresh => filling.wide id (confined.store.size.trans fresh)
      pristine := grown.pristine filling.pristine
      holds := by
        have same := confined.store.old container (Nat.not_le_of_lt bound)
        exact (holds_of_bare (bare_of_get same) bare_isContainer).trans filling.holds }

theorem filling_attach {path : String} {container n : NodeId} {scene : Scene}
    (filling : Filling names root anchors free path container s scene) (inside : free n) (bound : n < scene.store.size)
    (parentless : scene.store.parentOf n = none) (other : n ≠ container) :
    Filling names root anchors free path container s (scene.attach container n) := by
  have coherent := filling.coherent
  have rootless : scene.store.parentOf container = none := coherent.pending.2
  have apart : ¬ Below scene.store n container := fun below => other (below_root below rootless).symm
  have new : ∀ a ∈ (container, path) :: anchors, a.1 ≠ n := by
    intro a anchor same
    rcases List.mem_cons.mp anchor with rfl | before
    · exact other same.symm
    · exact filling.apart a before (same ▸ inside)
  have fits : Fits ((container, path) :: anchors) { s with scene := scene } n container path :=
    ⟨filling.holds, Or.inl List.mem_cons_self, apart, new⟩
  have entered := coherent_enter coherent bound parentless
    (fun x below => filling.pristine x ((enclosed_below filling.enclosed below).mp inside)) ""
  have enters : Enters names root { s with scene := scene } n container "" path [] :=
    { single := List.nodup_nil
      made := fun _ member => by cases member
      settled := Or.inr fun e member link => by
        obtain ⟨a, anchor, below⟩ := coherent.entry_placed member
        have other := coherent.entry_ne_anchor member anchor
        exact new a anchor (below_root (below_parent below link other) parentless).symm
      covers := fun same => False.elim <| filling.apart _ filling.rooted (same ▸ filling.inside) }
  have woven := woven_attach entered fits coherent.rooted enters
  have accounted := accounted_attach entered fits filling.accounted []
  rw [entered_nil] at woven accounted
  have added := confined_add filling.enclosed filling.inside inside bound filling.holds apart
  have store : (scene.attach container n).store = scene.store.add container n := Scene.attach_store container n scene
  generalize scene.attach container n = scene' at *
  exact
    { filling with
      coherent := ⟨woven, coherent.paths⟩
      accounted := accounted
      confined := confined_trans filling.confined (store ▸ added)
      enclosed := store ▸ enclosed_confined coherent.linked filling.enclosed added
      wide := fun id fresh => filling.wide id (by rwa [New, store, size_add] at fresh)
      pristine := fun id inside => store ▸ added.pristine filling.pristine id inside
      holds := by
        rw [store]
        exact (holds_of_bare (bare_add _ _ _) bare_isContainer).trans filling.holds }

/-- A new container has nothing to hold yet. -/
theorem filling_create (work : Workplace names root anchors free s) (name path : String) :
    Yields (SceneAction.createContainer name) s.scene fun container scene => container = s.scene.store.size ∧
      Filling names root anchors free path container s scene := by
  have made : Within (SceneConfined s.scene.store.New) (SceneAction.createContainer name) s.scene fun id after =>
      id = s.scene.store.size ∧ after.store = (s.scene.store.create (Node.ofPayload name (.container []))).2 :=
    Factory.builds_create rfl rfl ⟨rfl, fun _ same => by cases same⟩
  refine yields_mono (yields_of_within made) ?_
  rintro _ scene ⟨confined, rfl, store⟩
  refine ⟨rfl, ?_⟩
  have read : scene.store.get? s.scene.store.size = some (Node.ofPayload name (.container [])) := by
    rw [store, get_create, if_pos rfl]
  have aside : Aside s.scene.store.New s { s with scene := scene } := ⟨⟨rfl, confined.store⟩, confined.live, id⟩
  have parentless : scene.store.parentOf s.scene.store.size = none := by rw [parentOf, read]; rfl
  have new := workplace_new work.coherent work.accounted
  have held := held_of_aside new aside (Nat.le_refl _) (get_some_lt read) parentless path
  have work' := workplace_aside work (aside_mono work.wide aside)
  refine
    { coherent := held.coherent
      accounted := ?_
      confined := confined_mono work.wide confined.store
      enclosed := work'.enclosed
      wide := work'.wide
      pristine := work'.pristine
      rooted := work.coherent.rooted
      apart := work.apart
      inside := work.wide _ (Nat.le_refl _)
      holds := by rw [holds, read]; rfl }
  rintro x ⟨a, anchor, below⟩ live
  rcases List.mem_cons.mp anchor with rfl | before
  · -- below the container there is only the container itself, which has no geometry
    have fresh : s.scene.store.New x :=
      (enclosed_below (workplace_aside new aside).enclosed below).mp (Nat.le_refl _)
    have last : x < s.scene.store.size + 1 := by
      have bound := live_lt live
      rwa [store, size_create] at bound
    obtain rfl : x = s.scene.store.size := Nat.le_antisymm (Nat.le_of_lt_succ last) fresh
    rw [hasLiveGeometry, read] at live
    cases live
  · exact work'.accounted x ⟨a, before, below⟩ live

theorem filling_one {path : String} {container node : NodeId} {scene : Scene}
    (filling : Filling names root anchors free path container s scene) (inside : free node) (before : node < container) :
    Yields (do
      let node ← fresh node
      modify fun scene => scene.attach container node) scene fun _ after =>
        Filling names root anchors free path container s after := by
  have bound : container < scene.store.size := filling.coherent.pending.1
  have linked : Linked scene.store := filling.coherent.linked
  refine yields_bind (yields_of_within (confined_fresh_node linked (before.trans bound))) ?_
  rintro n after ⟨confined, new, last, parentless⟩
  refine yields_modify (filling_attach (filling_aside filling confined) ?_ last parentless ?_)
  · exact new.elim (filling.wide n) fun same => same ▸ inside
  · rcases new with new | rfl
    · exact (Nat.ne_of_lt (bound.trans_le new)).symm
    · exact Nat.ne_of_lt before

theorem filling_all {path : String} {container : NodeId} (nodes : List NodeId) : ∀ scene,
    Filling names root anchors free path container s scene → (∀ node ∈ nodes, free node ∧ node < container) →
    Yields (nodes.forM fun node => do
      let node ← fresh node
      modify fun scene => scene.attach container node) scene fun _ after =>
        Filling names root anchors free path container s after := by
  induction nodes with
  | nil => exact fun scene filling _ => yields_pure filling
  | cons node rest ih =>
    intro scene filling all
    obtain ⟨inside, before⟩ := all node List.mem_cons_self
    rw [List.forM]
    refine yields_bind (filling_one filling inside before) fun _ after filling => ?_
    exact ih after filling fun other member => all other (List.mem_cons_of_mem _ member)

theorem held_gather (work : Workplace names root anchors free s) (name : String) {nodes : List NodeId}
    (all : ∀ node ∈ nodes, free node ∧ node < s.scene.store.size) (path : String) :
    Yields (onScene (gather name nodes)) s fun n after => Held names root anchors free path n s after := by
  have body : Yields (gather name nodes) s.scene fun n scene => Held names root anchors free path n s { s with scene := scene } := by
    refine yields_bind (filling_create work name path) ?_
    rintro _ scene ⟨rfl, filling⟩
    refine yields_bind (filling_all nodes scene filling all) fun _ after filling => yields_pure ?_
    exact ⟨⟨rfl, filling.confined⟩, filling.coherent, accounted_tail filling.accounted, filling.inside⟩
  exact ends_onScene body

theorem nodesOf_nodes {values : List Value} {id : NodeId} (member : id ∈ nodesOf values) : id ∈ Value.nodesOfItems values := by
  obtain ⟨value, listed, found⟩ := List.mem_filterMap.mp member
  refine (Value.mem_nodesOfItems values).mpr ⟨value, listed, ?_⟩
  split at found
  · exact List.mem_singleton.mpr (Option.some.inj found).symm
  · cases found

/-- A result stands for no node, and then nothing was placed, or for one that is held now. -/
theorem yields_nodeOfResult (work : Workplace names root anchors free s) (b : Blueprint) (verb : String) {result : Value}
    (among : result.Among free s.scene.store) (path : String) :
    Yields (nodeOfResult b verb result) s fun found after =>
      match found with
      | none => Aside free s after
      | some n => Held names root anchors free path n s after := by
  have noted : ∀ code text : String, Yields (do
      record code text (some b.path)
      return none : SessionAction (Option NodeId)) s fun found after =>
        match found with
        | none => Aside free s after
        | some n => Held names root anchors free path n s after := fun code text =>
    yields_bind (yields_of_within (aside_record code text _)) fun _ after both => yields_pure both.1
  unfold nodeOfResult
  split
  · exact yields_pure ((steady_aside free).refl s)
  · rename_i items
    have all : ∀ node ∈ nodesOf items, free node ∧ node < s.scene.store.size := fun node member =>
      among node (nodesOf_nodes member)
    split
    · exact noted _ _
    · exact yields_bind (held_gather work b.name all path) fun n after held => yields_pure held
  · rename_i id
    obtain ⟨inside, bound⟩ := among id (List.mem_singleton_self id)
    exact yields_bind (held_fresh work inside bound path) fun n after held => yields_pure held
  · exact yields_reads reads_store fun store => noted _ _

/-! ### Materials -/

theorem confined_material (material : Material) (store : Store) :
    Confined (fun _ => False) store (store.createMaterial material).2 where
  size := Nat.le_refl _
  old _ _ := rfl
  materials id bound := by
    simp only [createMaterial, Array.getElem?_push]
    rw [if_neg (Nat.ne_of_lt bound)]
  linked linked := linked_of_same linked (fun _ => rfl) fun _ => rfl
  pristine _ _ never := never.elim

theorem aside_takeMaterial (value : Value) (s : Session) :
    Within (Aside fun _ => False) (takeMaterial value) s fun _ _ => True := by
  refine ends_modifyGet ⟨⟨⟨rfl, ?_⟩, rfl, id⟩, trivial⟩
  show Confined (fun _ => False) s.scene.store (s.materials.get value s.scene.store).2.2
  unfold MaterialTable.get
  split
  · split
    · exact confined_refl _ _
    · split
      · exact confined_material _ _
      · exact confined_refl _ _
  · exact confined_refl _ _

theorem aside_material (b : Blueprint) (plain : b.context.Plain) (evaluator : s.evaluator.Plain) :
    Within (Aside fun _ => False) (materialOf b) s fun _ _ => True := by
  have steady := steady_aside fun _ : NodeId => False
  have rendered : ∀ label : Value, Within (Aside fun _ => False) (render label b.context (some b.path)) s fun _ _ => True := by
    intro label
    refine within_reads steady reads_store fun store => ?_
    have body := Evaluator.kept_render store.describe label plain (some b.path) s.evaluator evaluator
    have aside : ∀ evaluator, Evaluator.Kept s.evaluator evaluator → Aside (fun _ => False) s { s with evaluator := evaluator } :=
      fun evaluator kept => ⟨⟨rfl, confined_refl _ _⟩, rfl, fun plain => Evaluator.plain_kept kept plain⟩
    refine ends_onEvaluator (ends_mono body ?_ ?_)
    · exact fun _ evaluator both => ⟨aside evaluator both.1, trivial⟩
    · exact fun evaluator kept => aside evaluator kept
  unfold materialOf
  split
  · exact within_seq steady (rendered _) fun value after _ => aside_takeMaterial value after
  · exact within_pure_bind (aside_takeMaterial _ s)

/-- What happens aside from everything keeps a node held. -/
theorem held_nowhere {path : String} {n : NodeId} {s₁ s₂ : Session} (held : Held names root anchors free path n s s₁)
    (aside : Aside (fun _ => False) s₁ s₂) : Held names root anchors free path n s s₂ where
  beside := beside_trans held.beside ⟨aside.same, confined_mono (fun _ never => never.elim) aside.confined⟩
  coherent := coherent_aside (fun _ _ _ => Iff.rfl) aside held.coherent fun _ _ never => never
  accounted := accounted_aside (fun _ _ _ => Iff.rfl) aside held.coherent.linked (fun _ _ never => never) held.accounted
  inside := held.inside

theorem held_material {path : String} {n : NodeId} {s₁ : Session} (held : Held names root anchors free path n s s₁)
    (b : Blueprint) (plain : b.context.Plain) :
    Yields (materialOf b) s₁ fun _ s₂ => Held names root anchors free path n s s₂ :=
  yields_mono (yields_of_within (aside_material b plain held.coherent.ready.evaluator)) fun _ _ both =>
    held_nowhere held both.1

theorem held_paint {path : String} {n : NodeId} {s₁ : Session} (held : Held names root anchors free path n s s₁)
    (enclosed : Enclosed s.scene.store free) (linked : Linked s.scene.store) (always : Bool) (material : MaterialId) :
    Yields (onScene (modify fun scene => scene.paint always material n : SceneAction PUnit)) s₁
      fun _ s₂ => Held names root anchors free path n s s₂ := by
  have coherent := held.coherent
  have inside : ∀ x ∈ s₁.scene.store.walk n, Below s₁.scene.store n x := fun x member =>
    (mem_walk coherent.linked).mp member
  obtain ⟨confined, live, parents, children, geometries⟩ := Scene.paint_links always material n s₁.scene inside
  refine ends_onScene (ends_modify ?_)
  generalize s₁.scene.paint always material n = scene at *
  have placed : ∀ (anchors : Anchors) x, Placed anchors scene.store x ↔ Placed anchors s₁.scene.store x :=
    fun _ x => placed_alike parents x
  have linked' := linked_of_same coherent.linked parents children
  have pristine := confined.pristine fun x below => coherent.pristine x ⟨_, List.mem_cons_self, below⟩
  refine
    { beside := beside_trans held.beside ⟨rfl, confined_mono (fun x below => ?_) confined⟩
      coherent := ⟨woven_unmoved coherent.toWoven rfl { coherent.ready with linked := linked' } confined.size live
        (placed _) (fun x _ => parents x) (fun x _ => geometries x) fun x _ good => ?_, coherent.paths⟩
      accounted := accounted_unmoved held.accounted live (placed _) fun x _ => geometries x
      inside := held.inside }
  · exact (enclosed_below (enclosed_confined linked enclosed held.beside.confined) below).mp held.inside
  · by_cases below : Below s₁.scene.store n x
    · exact pristine x below
    · intro node found
      exact good node ((confined.old x below).symm.trans found)

/-- What a helper made becomes a held node, painted as its blueprint asks. -/
theorem held_result (work : Workplace names root anchors free s) (b : Blueprint) (plain : b.context.Plain) (verb : String)
    {result : Value} (among : result.Among free s.scene.store) {next : NodeId → SessionAction (Option NodeId)}
    {post : Option NodeId → Session → Prop} (absent : ∀ after, Aside free s after → post none after)
    (present : ∀ n after, Held names root anchors free b.path n s after → Yields (next n) after post) :
    Yields (do
      match ← nodeOfResult b verb result with
      | none => return none
      | some node =>
        let material ← materialOf b
        onScene (modify fun scene => scene.paint (!b.material.isNull) material node)
        next node) s post := by
  refine yields_bind (yields_nodeOfResult work b verb among b.path) fun found after holds => ?_
  split
  · exact yields_pure (absent after holds)
  · rename_i n
    refine yields_bind (held_material holds b plain) fun material after holds => ?_
    refine yields_bind (held_paint holds work.enclosed work.coherent.linked _ material) fun _ after holds => ?_
    exact present n after holds

/-- A copy of a registered node becomes a held node. -/
theorem held_copy (work : Workplace names root anchors free s) {id : NodeId} (bound : id < s.scene.store.size)
    (path : String) :
    Yields (onScene (SceneAction.clone id)) s fun n after => Held names root anchors free path n s after :=
  yields_mono (yields_of_within (aside_clone work bound)) fun _ _ both =>
    held_of_aside work both.1 both.2.1 both.2.2.1 both.2.2.2 path

end

end Place

end ProceduralScene
