import ProceduralScene.Proofs.Depiction

/-!
How the node of one blueprint is formed aside from the tree. Results that stand nowhere and were not disposed are taken
as they are, all others are copied; what is not among the new nodes or the taken ones stays as it was.
-/

set_option autoImplicit false

namespace ProceduralScene

open Store

namespace Store

/-- A node that is taken as it is: it stands in no container, and it was not disposed. -/
def Usable (store : Store) (id : NodeId) : Prop := store.parentOf id = none ∧ store.isDisposed id = false

/-- At or below one of the given nodes that are taken as they are. -/
def Used (store : Store) (given : List NodeId) (x : NodeId) : Prop :=
  ∃ id ∈ given, store.Usable id ∧ Below store id x

/-- New or used. -/
def Own (store : Store) (given : List NodeId) (x : NodeId) : Prop := store.New x ∨ store.Used given x

section

variable {store store' : Store} {given : List NodeId}

theorem usable_of_get {id : NodeId} (same : store'.get? id = store.get? id) : store'.Usable id ↔ store.Usable id := by
  unfold Usable isDisposed
  rw [parent_of_get same, same]

theorem used_enclosed (store : Store) (given : List NodeId) : Enclosed store (store.Used given) := by
  intro child parent link
  constructor
  · rintro ⟨id, member, usable, below⟩
    refine ⟨id, member, usable, below_parent below link ?_⟩
    rintro rfl
    rw [usable.1] at link
    cases link
  · rintro ⟨id, member, usable, below⟩
    exact ⟨id, member, usable, .child link below⟩

theorem own_enclosed (linked : Linked store) (given : List NodeId) : Enclosed store (store.Own given) :=
  enclosed_or (enclosed_new linked) (used_enclosed store given)

theorem used_append {more : List NodeId} {x : NodeId} :
    store.Used (given ++ more) x ↔ store.Used given x ∨ store.Used more x := by
  simp only [Used, List.mem_append]
  constructor
  · rintro ⟨id, member | member, rest⟩
    · exact .inl ⟨id, member, rest⟩
    · exact .inr ⟨id, member, rest⟩
  · rintro (⟨id, member, rest⟩ | ⟨id, member, rest⟩)
    · exact ⟨id, .inl member, rest⟩
    · exact ⟨id, .inr member, rest⟩

theorem used_mono {fewer : List NodeId} (sub : fewer ⊆ given) {x : NodeId} (used : store.Used fewer x) :
    store.Used given x := by
  obtain ⟨id, member, rest⟩ := used
  exact ⟨id, sub member, rest⟩

theorem own_mono {fewer : List NodeId} (sub : fewer ⊆ given) {x : NodeId} (own : store.Own fewer x) :
    store.Own given x := own.imp_right (used_mono sub)

/-- Below a node whose subtree did not change stands what stood there before. -/
theorem below_undisturbed (linked : Linked store) (linked' : Linked store') {a : NodeId}
    (same : ∀ x, Below store a x → store'.get? x = store.get? x) (x : NodeId) :
    Below store' a x ↔ Below store a x := by
  constructor
  · intro below
    induction below with
    | top => exact .top
    | @child y parent link _ ih =>
      -- the children of a node that did not change are its old ones
      have listed := (linked'.agree y parent).mpr link
      rw [children_of_get (same parent ih)] at listed
      exact .child ((linked.agree y parent).mp listed) ih
  · intro below
    induction below with
    | top => exact .top
    | child link above ih => exact .child ((parent_of_get (same _ (.child link above))).trans link) ih

theorem below_grown (parents : ∀ x p, store.parentOf x = some p → store'.parentOf x = some p) {a x : NodeId}
    (below : Below store a x) : Below store' a x := by
  induction below with
  | top => exact .top
  | child link _ ih => exact .child (parents _ _ link) ih

end

end Store

/-- Only free nodes changed, no node was taken out of a container, and what is live or registered since is free. -/
structure Worked (free : NodeId → Prop) (s s' : Session) (added : List (Entry Blueprint)) : Prop where
  confined : Confined free s.scene.store s'.scene.store
  parents : ∀ x p, s.scene.store.parentOf x = some p → s'.scene.store.parentOf x = some p
  counted : s'.scene.Counted
  recalls : s.Recalls s'
  entries : s'.registry.entries = s.registry.entries ++ added
  kept : ∀ x ∈ s.scene.live, x ∈ s'.scene.live
  alive : ∀ x ∈ s'.scene.live, x ∈ s.scene.live ∨ free x
  listed : ∀ e ∈ added, free e.node ∧ e.node < s'.scene.store.size

section

variable {free : NodeId → Prop} {s s' s'' : Session} {added more : List (Entry Blueprint)}

theorem worked_mono {wider : NodeId → Prop} (wide : ∀ x, free x → wider x) (worked : Worked free s s' added) :
    Worked wider s s' added :=
  { worked with
    confined := confined_mono wide worked.confined
    alive := fun x member => (worked.alive x member).imp_right (wide x)
    listed := fun e member => ⟨wide _ (worked.listed e member).1, (worked.listed e member).2⟩ }

theorem worked_trans (first : Worked free s s' added) (second : Worked free s' s'' more) :
    Worked free s s'' (added ++ more) where
  confined := confined_trans first.confined second.confined
  parents x p link := second.parents x p (first.parents x p link)
  counted := second.counted
  recalls := recalls_trans first.recalls second.recalls
  entries := by rw [second.entries, first.entries, List.append_assoc]
  kept x member := second.kept x (first.kept x member)
  alive x member := (second.alive x member).elim (first.alive x) .inr
  listed e member := by
    rcases List.mem_append.mp member with before | after
    · exact ⟨(first.listed e before).1, (first.listed e before).2.trans_le second.confined.size⟩
    · exact second.listed e after

theorem worked_silent (confined : Confined free s.scene.store s'.scene.store)
    (parents : ∀ x p, s.scene.store.parentOf x = some p → s'.scene.store.parentOf x = some p)
    (geometries : ∀ x ∈ s.scene.live, s'.scene.store.hasLiveGeometry x = s.scene.store.hasLiveGeometry x)
    (counted : s.scene.Counted) (recalls : s.Recalls s') (registry : s'.registry = s.registry)
    (live : s'.scene.live = s.scene.live) : Worked free s s' [] where
  confined := confined
  parents := parents
  counted := ⟨live ▸ counted.distinct, fun x member => by
    rw [live] at member
    exact (geometries x member).trans (counted.sound x member)⟩
  recalls := recalls
  entries := by rw [registry, List.append_nil]
  kept x member := live ▸ member
  alive x member := .inl (live ▸ member)
  listed _ member := nomatch member

theorem worked_refl (free : NodeId → Prop) (counted : s.scene.Counted) : Worked free s s [] :=
  worked_silent (confined_refl free _) (fun _ _ link => link) (fun _ _ => rfl) counted (recalls_refl s) rfl rfl

theorem worked_new {scene : Scene} (later : Confined s.scene.store.New s.scene.store scene.store)
    (counted : s.scene.Counted) (live : scene.live = s.scene.live) :
    Worked s.scene.store.New s { s with scene := scene } [] := by
  have old : ∀ x, x < s.scene.store.size → scene.store.get? x = s.scene.store.get? x := fun x made =>
    later.old x (Nat.not_le_of_lt made)
  refine worked_silent later (fun x p link => ?_) (fun x member => ?_) counted
    (recalls_elsewhere s _ _) rfl live
  · exact (parent_of_get (old x (parent_lt link))).trans link
  · exact live_of_bare (bare_of_get (old x (live_lt (counted.sound x member))))

end

/-- What a leaf finds: its results exist, and those that it takes as they are hold nothing that was disposed. -/
structure Stock (s : Session) (given : List NodeId) : Prop where
  linked : Linked s.scene.store
  counted : s.scene.Counted
  made : ∀ id ∈ given, id < s.scene.store.size
  pristine : ∀ x, s.scene.store.Used given x → s.scene.store.PristineAt x

section

variable {s s' : Session} {given : List NodeId}

theorem stock_mono {fewer : List NodeId} (sub : fewer ⊆ given) (stock : Stock s given) : Stock s fewer :=
  { stock with
    made := fun id member => stock.made id (sub member)
    pristine := fun x used => stock.pristine x (used_mono sub used) }

theorem pristine_own (stock : Stock s given) (x : NodeId) (own : s.scene.store.Own given x) :
    s.scene.store.PristineAt x := by
  rcases own with new | used
  · exact fun node found => absurd (get_some_lt found) (Nat.not_lt_of_ge new)
  · exact stock.pristine x used

/-- A given node that can still be taken as it is could be so from the start. -/
theorem usable_before {added : List (Entry Blueprint)} (stock : Stock s given)
    (worked : Worked (s.scene.store.Own given) s s' added) {id : NodeId} (usable : s'.scene.store.Usable id) :
    s.scene.store.Usable id := by
  constructor
  · cases link : s.scene.store.parentOf id with
    | none => rfl
    | some parent =>
      have parentless := usable.1
      rw [worked.parents id parent link] at parentless
      cases parentless
  · by_contra disposed
    -- a disposed node is not used, so it did not change
    have outside : ¬ s.scene.store.Own given id := fun own => disposed (pristine_undisposed (pristine_own stock id own))
    rw [isDisposed, ← worked.confined.old id outside] at disposed
    exact disposed usable.2

theorem used_before {added : List (Entry Blueprint)} (stock : Stock s given)
    (worked : Worked (s.scene.store.Own given) s s' added) {x : NodeId} (used : s'.scene.store.Used given x) :
    s.scene.store.Own given x := by
  obtain ⟨id, member, usable, below⟩ := used
  have own : s.scene.store.Own given id := .inr ⟨id, member, usable_before stock worked usable, .top⟩
  have enclosed := enclosed_confined stock.linked (own_enclosed stock.linked given) worked.confined
  exact (enclosed_below enclosed below).mp own

end

/-- A node was formed from given nodes; it stands nowhere yet, and the entries that were added stand below it. -/
structure Formed (given : List NodeId) (s : Session) (n : NodeId) (p : Picture) (s' : Session)
    (added : List (Entry Blueprint)) (more : Gallery) : Prop extends
    Worked (s.scene.store.Own given) s s' added where
  made : n < s'.scene.store.size
  parentless : s'.scene.store.parentOf n = none
  own : s.scene.store.Own given n
  shown : Shows s'.scene.store n p
  taken : ∀ x, s.scene.store.Used given x → Below s'.scene.store n x
  below : ∀ x ∈ s'.scene.live, x ∈ s.scene.live ∨ Below s'.scene.store n x
  inside : ∀ e ∈ added, e.node ≠ n ∧ Below s'.scene.store n e.node
  hung : Hung s'.scene.store added more

section

variable {given : List NodeId} {s s' s'' : Session} {n : NodeId} {p p' : Picture} {added : List (Entry Blueprint)}
  {more : Gallery}

theorem Formed.linked (formed : Formed given s n p s' added more) (stock : Stock s given) : Linked s'.scene.store :=
  formed.confined.linked stock.linked

theorem Formed.own_below (formed : Formed given s n p s' added more) (stock : Stock s given) {x : NodeId}
    (below : Below s'.scene.store n x) : s.scene.store.Own given x := by
  have enclosed := enclosed_confined stock.linked (own_enclosed stock.linked given) formed.confined
  exact (enclosed_below enclosed below).mp formed.own

theorem Formed.pristine (formed : Formed given s n p s' added more) (stock : Stock s given) {x : NodeId}
    (below : Below s'.scene.store n x) : s'.scene.store.PristineAt x :=
  formed.confined.pristine (pristine_own stock) x (formed.own_below stock below)

/-- A formed node was changed without moving anything. -/
structure Adorned (n : NodeId) (s s' : Session) : Prop where
  confined : Confined (Below s.scene.store n) s.scene.store s'.scene.store
  parents : ∀ x, s'.scene.store.parentOf x = s.scene.store.parentOf x
  geometries : ∀ x, s'.scene.store.hasLiveGeometry x = s.scene.store.hasLiveGeometry x
  recalls : s.Recalls s'
  registry : s'.registry = s.registry
  live : s'.scene.live = s.scene.live

theorem formed_adorned (stock : Stock s given) (formed : Formed given s n p s' added more) (adorned : Adorned n s' s'')
    (shown : Shows s''.scene.store n p') (hung : Hung s''.scene.store added more) :
    Formed given s n p' s'' added more := by
  have inTree : ∀ x, Below s''.scene.store n x ↔ Below s'.scene.store n x := fun x => below_alike adorned.parents
  have own : ∀ x, Below s'.scene.store n x → s.scene.store.Own given x := fun x below => formed.own_below stock below
  have silent : Worked (s.scene.store.Own given) s' s'' [] :=
    worked_silent (confined_mono own adorned.confined) (fun x p link => (adorned.parents x).trans link)
      (fun x _ => adorned.geometries x) formed.counted adorned.recalls adorned.registry adorned.live
  have worked := worked_trans formed.toWorked silent
  rw [List.append_nil] at worked
  exact
    { worked with
      made := formed.made.trans_le adorned.confined.size
      parentless := (adorned.parents n).trans formed.parentless
      own := formed.own
      shown := shown
      taken := fun x used => (inTree x).mpr (formed.taken x used)
      below := fun x member => (formed.below x (adorned.live ▸ member)).imp_right (inTree x).mpr
      inside := fun e member => ⟨(formed.inside e member).1, (inTree e.node).mpr (formed.inside e member).2⟩
      hung := hung }

theorem formed_tinted {b : Blueprint} {material : MaterialId} (stock : Stock s given)
    (formed : Formed given s n p s' added more) (tinted : Place.Tinted b material s' s'') :
    Formed given s n p s'' added more := by
  have same : ∀ x, s''.scene.store.get? x = s'.scene.store.get? x := fun x => tinted.confined.old x id
  have linked := formed.linked stock
  refine formed_adorned stock formed ?_ (shows_of_get linked (fun x _ => same x) formed.shown)
    (hung_each formed.hung fun e _ p shown => shows_of_get linked (fun x _ => same x) shown)
  exact
    { confined := confined_mono (fun _ => False.elim) tinted.confined
      parents := fun x => parent_of_get (same x)
      geometries := fun x => live_of_bare (bare_of_get (same x))
      recalls := tinted.recalls
      registry := tinted.registry
      live := tinted.live }

/-- The session once the material was given to what is below a node. -/
def Session.painted (always : Bool) (material : MaterialId) (n : NodeId) (s : Session) : Session :=
  { s with scene := s.scene.paint always material n }

/-- The session once a node has the name and the transform of a blueprint. -/
def Session.styled (b : Blueprint) (n : NodeId) (s : Session) : Session :=
  { s with scene := s.scene.onStore (·.modify n b.styled) }

theorem formed_painted (always : Bool) (material : MaterialId) (stock : Stock s given)
    (formed : Formed given s n p s' [] []) :
    Formed given s n (p.map (Scene.painted always material)) (s'.painted always material n) [] [] := by
  have linked := formed.linked stock
  obtain ⟨confined, live, parents, _, geometries⟩ := Scene.paint_links always material n s'.scene fun x member =>
    (mem_walk linked).mp member
  refine formed_adorned stock formed ?_ (Scene.shows_paint linked .top formed.shown) .nil
  exact
    { confined := confined
      parents := parents
      geometries := geometries
      recalls := recalls_elsewhere _ _ _
      registry := rfl
      live := live }

theorem formed_styled (b : Blueprint) (stock : Stock s given) (formed : Formed given s n p s' added more) :
    Formed given s n (p.onTop b.styled) (s'.styled b n) added more := by
  have linked := formed.linked stock
  have cosmetic : Cosmetic b.styled := cosmetic_of_payload (fun _ => rfl) (fun _ => rfl) fun _ => rfl
  have alike : Alike n s'.scene (s'.styled b n).scene := alike_cosmetic cosmetic
  refine formed_adorned stock formed ?_ ?_ ?_
  · exact
      { confined := confined_cosmetic cosmetic .top
        parents := alike.parent
        geometries := alike.geometry
        recalls := recalls_elsewhere _ _ _
        registry := rfl
        live := alike.live }
  · exact shows_modify linked (cosmetic_links cosmetic) (b.styled_copy) formed.shown
  · -- the entries stand below the node, so it is in none of their pictures
    apply hung_each formed.hung
    intro e member q shown
    apply shows_of_get linked _ shown
    intro x inside
    apply alike.elsewhere
    rintro rfl
    exact (formed.inside e member).1 (below_antisymm linked inside (formed.inside e member).2)

/-! ### Copies and results -/

theorem formed_new {scene : Scene} (stock : Stock s given) (unused : ∀ x, ¬ s.scene.store.Used given x)
    (later : Confined s.scene.store.New s.scene.store scene.store) (live : scene.live = s.scene.live)
    (new : s.scene.store.New n) (made : n < scene.store.size) (parentless : scene.store.parentOf n = none)
    (shown : Shows scene.store n p) : Formed given s n p { s with scene := scene } [] [] :=
  { worked_mono (fun _ => .inl) (worked_new later stock.counted live) with
    made := made
    parentless := parentless
    own := .inl new
    shown := shown
    taken := fun x used => absurd used (unused x)
    below := fun _ member => .inl (live ▸ member)
    inside := fun _ member => nomatch member
    hung := .nil }

theorem formed_clone (stock : Stock s given) (unused : ∀ x, ¬ s.scene.store.Used given x) {id : NodeId}
    (shown : Shows s.scene.store id p) : Returns (SceneAction.clone id) s.scene fun n scene =>
      Formed given s n p { s with scene := scene } [] [] ∧
        Confined s.scene.store.New s.scene.store scene.store := by
  have copied := clone_copied stock.linked (shows_lt shown)
  refine returns_modifyGet ⟨formed_new stock unused copied.confined rfl ?_ ?_ copied.root
    (shows_clone stock.linked shown), copied.confined⟩
  · exact Nat.le_of_eq copied.id.symm
  · exact copied.id ▸ copied.made

/-- A given node was taken as it is, or copied. -/
theorem formed_fresh {id : NodeId} (stock : Stock s [id]) (shown : Shows s.scene.store id p) :
    Returns (Place.fresh id) s.scene fun n scene =>
      Formed [id] s n p { s with scene := scene } [] [] ∧
        Confined s.scene.store.New s.scene.store scene.store := by
  have read : Returns SceneAction.store s.scene fun store after => store = s.scene.store ∧ after = s.scene :=
    returns_get (returns_pure ⟨rfl, rfl⟩)
  unfold Place.fresh
  refine returns_bind read ?_
  rintro _ _ ⟨rfl, rfl⟩
  split
  · -- a node that stands somewhere or was disposed is copied, so none of the given ones is used
    rename_i taken
    refine formed_clone stock ?_ shown
    rintro x ⟨other, member, usable, _⟩
    rw [List.mem_singleton.mp member] at usable
    simp [usable.1, usable.2] at taken
  · -- otherwise it is taken, with everything below it
    rename_i free
    have usable : s.scene.store.Usable id := by
      simpa [Usable, and_comm] using free
    refine returns_pure ⟨?_, confined_refl _ _⟩
    exact
      { worked_refl _ stock.counted with
        made := shows_lt shown
        parentless := usable.1
        own := .inr ⟨id, by simp, usable, .top⟩
        shown := shown
        taken := fun x used => by
          obtain ⟨other, member, _, below⟩ := used
          exact List.mem_singleton.mp member ▸ below
        below := fun _ member => .inl member
        inside := fun _ member => nomatch member
        hung := .nil }

end

/-! ### Going into a container -/

section

variable {s : Session} {container n : NodeId} {free : NodeId → Prop}

/-- A node that stands nowhere can go into a container. -/
structure Attachable (s : Session) (container n : NodeId) : Prop where
  linked : Linked s.scene.store
  counted : s.scene.Counted
  holds : s.scene.store.holds Payload.isContainer container = true
  made : n < s.scene.store.size
  parentless : s.scene.store.parentOf n = none
  apart : ¬ Below s.scene.store n container

theorem Attachable.linked_add (attachable : Attachable s container n) : Linked (s.scene.store.add container n) :=
  Store.linked_add attachable.linked attachable.made attachable.holds attachable.apart

/-- What stands below the node does not change, and below others it is added. -/
theorem Attachable.below (attachable : Attachable s container n) (x : NodeId) :
    Below (s.scene.store.add container n) n x ↔ Below s.scene.store n x :=
  ⟨fun below => (below_add_back attachable.made below).elim id id,
    fun below => below_add attachable.parentless attachable.made below⟩

theorem Attachable.live (attachable : Attachable s container n) (x : NodeId) : x ∈ (s.scene.attach container n).live ↔
    x ∈ s.scene.live ∨ Below s.scene.store n x ∧ s.scene.store.hasLiveGeometry x = true := by
  rw [(Scene.attach_live attachable.counted attachable.linked_add).2, attachable.below]

theorem Attachable.children (attachable : Attachable s container n) (x : NodeId) :
    (s.scene.store.add container n).childrenOf x =
      if x = container then s.scene.store.childrenOf x ++ [n] else s.scene.store.childrenOf x := by
  have absent : n ∉ s.scene.store.childrenOf x := fun listed => by
    rw [attachable.linked.agree, attachable.parentless] at listed
    cases listed
  rw [children_add attachable.linked attachable.holds, List.erase_of_not_mem absent]

theorem Attachable.shows (attachable : Attachable s container n) {id : NodeId} {p : Picture}
    (outside : ¬ Below s.scene.store id container) (shown : Shows s.scene.store id p) :
    Shows (s.scene.store.add container n) id p :=
  shows_add attachable.linked attachable.holds attachable.parentless outside shown

theorem Attachable.parents (attachable : Attachable s container n) (x p : NodeId)
    (link : s.scene.store.parentOf x = some p) :
    (s.scene.store.add container n).parentOf x = some p := by
  rw [parent_add attachable.made, if_neg, link]
  rintro rfl
  rw [attachable.parentless] at link
  cases link

theorem Attachable.entered (attachable : Attachable s container n) {x : NodeId} (below : Below s.scene.store n x) :
    Below (s.scene.attach container n).store container x := by
  rw [Scene.attach_store]
  have link : (s.scene.store.add container n).parentOf n = some container := by
    rw [parent_add attachable.made, if_pos rfl]
  exact below_trans (.child link .top) (below_grown attachable.parents below)

theorem worked_attach (attachable : Attachable s container n) (inside : ∀ x, Below s.scene.store n x → free x)
    (bay : free container) : Worked free s { s with scene := s.scene.attach container n } [] where
  confined := by
    show Confined free s.scene.store (s.scene.attach container n).store
    rw [Scene.attach_store]
    exact
      { size := by simp
        old := fun x outside => get_add_elsewhere (fun same => outside (same ▸ inside n .top))
          (fun same => outside (same ▸ bay)) (by simp [attachable.parentless])
        materials := fun _ _ => by simp
        linked := fun _ => attachable.linked_add
        pristine := fun given x free => pristine_of_bare (bare_add container n x) (given x free) }
  parents x p link := by
    show (s.scene.attach container n).store.parentOf x = some p
    rw [Scene.attach_store]
    exact attachable.parents x p link
  counted := (Scene.attach_live attachable.counted attachable.linked_add).1
  recalls := recalls_elsewhere _ _ _
  entries := (List.append_nil _).symm
  kept x member := (attachable.live x).mpr (.inl member)
  alive x member := ((attachable.live x).mp member).imp_right fun below => inside x below.1
  listed _ member := nomatch member

end

end ProceduralScene
