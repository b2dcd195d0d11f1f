import ProceduralScene.Proofs.Forming

/-!
Filling a new container. Whatever is formed for it goes to its end, what stands in it already stays as it is, and a
node that is still free to be taken stands where it stood.
-/

set_option autoImplicit false

namespace ProceduralScene

open Store

/-- A new container in which stands what was formed from some nodes. -/
structure Gathered (bay : NodeId) (name : String) (s : Session) (done : List NodeId) (ps : List Picture) (s' : Session)
    (added : List (Entry Blueprint)) (more : Gallery) : Prop extends
    Formed done s bay ⟨Node.ofPayload name (.container []), ps⟩ s' added more where
  new : s.scene.store.New bay
  container : s'.scene.store.holds Payload.isContainer bay = true
  moved : ∀ id, id < s.scene.store.size → s.scene.store.Usable id →
    s'.scene.store.Usable id ∨ Below s'.scene.store bay id

section

variable {s s' mid : Session} {given done next : List NodeId} {bay n : NodeId} {name : String} {p : Picture}
  {ps : List Picture} {added fresh : List (Entry Blueprint)} {more newer : Gallery}

theorem gathered_create (stock : Stock s []) (name : String) :
    Returns (SceneAction.createContainer name) s.scene fun bay scene =>
      Gathered bay name s [] [] { s with scene := scene } [] [] := by
  have read : (s.scene.store.create (Node.ofPayload name (.container []))).2.get? s.scene.store.size =
      some (Node.ofPayload name (.container [])) := by rw [get_create, if_pos rfl]
  have created : Confined s.scene.store.New s.scene.store
      (s.scene.store.create (Node.ofPayload name (.container []))).2 :=
    confined_create rfl rfl ⟨rfl, nofun⟩
  refine returns_modifyGet ?_
  have formed : Formed [] s s.scene.store.size ⟨Node.ofPayload name (.container []), []⟩
      { s with scene := (s.scene.create (Node.ofPayload name (.container []))).2 } [] [] := by
    refine formed_new stock ?_ created rfl (Nat.le_refl _) (get_some_lt read) ?_ (.mk ?_ ?_)
    · rintro x ⟨id, member, _⟩
      cases member
    · show (s.scene.store.create _).2.parentOf s.scene.store.size = none
      rw [parentOf, read]
      rfl
    · show (s.scene.store.create _).2.look? s.scene.store.size = _
      rw [look?, read]
      rfl
    · show ShowsAll _ ((s.scene.store.create _).2.childrenOf s.scene.store.size) []
      rw [childrenOf, read]
      exact .nil
  exact
    { formed with
      new := Nat.le_refl _
      container := by
        show (s.scene.store.create _).2.holds _ s.scene.store.size = true
        rw [holds, read]
        rfl
      moved := fun id made usable => .inl ((usable_of_get (created.old id (Nat.not_le_of_lt made))).mpr usable) }

theorem Gathered.stock (stock : Stock s given) (gathered : Gathered bay name s done ps s' added more)
    (before : done ⊆ given) (sub : next ⊆ given) : Stock s' next := by
  have worked : Worked (s.scene.store.Own given) s s' added := worked_mono (fun _ => own_mono before) gathered.toWorked
  exact
    { linked := worked.confined.linked stock.linked
      counted := worked.counted
      made := fun id member => (stock.made id (sub member)).trans_le worked.confined.size
      pristine := fun x used =>
        worked.confined.pristine (pristine_own stock) x (used_before stock worked (used_mono sub used)) }

/-- What is used of the nodes to come is new or was used of them from the start. -/
theorem Gathered.own_before (stock : Stock s given) (gathered : Gathered bay name s done ps s' added more)
    (before : done ⊆ given) (sub : next ⊆ given) {x : NodeId} (own : s'.scene.store.Own next x) : s.scene.store.Own given x := by
  have worked : Worked (s.scene.store.Own given) s s' added := worked_mono (fun _ => own_mono before) gathered.toWorked
  rcases own with new | used
  · exact .inl (worked.confined.size.trans new)
  · exact used_before stock worked (used_mono sub used)

/-- What stands in the container is none of the nodes to come. -/
theorem Gathered.settled (linked : Linked s.scene.store) (gathered : Gathered bay name s done ps s' added more)
    (made : ∀ id ∈ next, id < s.scene.store.size) {x : NodeId} (below : Below s'.scene.store bay x) :
    ¬ s'.scene.store.Own next x := by
  have linked' : Linked s'.scene.store := gathered.confined.linked linked
  intro own
  -- the container would be one of them as well, but it is newer than they are
  rcases (enclosed_below (own_enclosed linked' next) below).mpr own with new | ⟨id, member, _, above⟩
  · exact Nat.not_lt_of_ge new gathered.made
  · have top := below_root above gathered.parentless
    exact Nat.not_lt_of_ge gathered.new (top ▸ made id member)

/-- The container stays while something is formed for it. -/
theorem Gathered.still (stock : Stock s given) (gathered : Gathered bay name s done ps s' added more) (sub : next ⊆ given)
    (formed : Formed next s' n p mid fresh newer) {x : NodeId} (below : Below s'.scene.store bay x) :
    mid.scene.store.get? x = s'.scene.store.get? x :=
  formed.confined.old x (gathered.settled stock.linked (fun id member => stock.made id (sub member)) below)

theorem Gathered.attachable (stock : Stock s given) (gathered : Gathered bay name s done ps s' added more)
    (before : done ⊆ given) (sub : next ⊆ given) (formed : Formed next s' n p mid fresh newer) :
    Attachable mid bay n := by
  have stockNow := gathered.stock stock before sub
  have outside := gathered.settled stock.linked (fun id member => stock.made id (sub member)) .top
  have kept := gathered.still stock sub formed .top
  exact
    { linked := formed.linked stockNow
      counted := formed.counted
      holds := (holds_of_bare (bare_of_get kept) bare_isContainer).trans gathered.container
      made := formed.made
      parentless := formed.parentless
      apart := fun below => outside (formed.own_below stockNow below) }

theorem Formed.grown (formed : Formed next s' n p mid fresh newer) (attachable : Attachable mid bay n) {x : NodeId}
    (below : Below s'.scene.store bay x) :
    Below (mid.scene.attach bay n).store bay x := by
  rw [Scene.attach_store]
  exact below_grown attachable.parents (below_grown formed.parents below)

/-- A picture inside the container stays, since the container is not in it. -/
theorem Gathered.shows_attached (stock : Stock s given) (gathered : Gathered bay name s done ps s' added more)
    (before : done ⊆ given) (sub : next ⊆ given) (formed : Formed next s' n p mid fresh newer) {id : NodeId} {q : Picture}
    (other : id ≠ bay) (inside : Below s'.scene.store bay id) (shown : Shows s'.scene.store id q) :
    Shows (mid.scene.attach bay n).store id q := by
  have attachable := gathered.attachable stock before sub formed
  rw [Scene.attach_store]
  apply attachable.shows
  · intro above
    exact other (below_antisymm attachable.linked above (below_grown formed.parents inside))
  · exact shows_of_get (gathered.stock stock before sub).linked
      (fun x below => gathered.still stock sub formed (below_trans inside below)) shown

theorem Gathered.picture_attached (stock : Stock s given) (gathered : Gathered bay name s done ps s' added more)
    (before : done ⊆ given) (sub : next ⊆ given) (formed : Formed next s' n p mid fresh newer) :
    Shows (mid.scene.attach bay n).store bay ⟨Node.ofPayload name (.container []), ps ++ [p]⟩ := by
  have attachable := gathered.attachable stock before sub formed
  have kept := gathered.still stock sub formed .top
  have store : (mid.scene.attach bay n).store = mid.scene.store.add bay n := Scene.attach_store bay n mid.scene
  cases gathered.shown with
  | mk here inner =>
    refine .mk ?_ ?_
    · rw [store, look_of_bare (bare_add bay n bay), look_of_get kept, here]
    · rw [store, attachable.children, if_pos rfl, children_of_get kept, ← store]
      refine showsAll_append ?_ (.cons (store ▸ attachable.shows attachable.apart formed.shown) .nil)
      refine showsAll_each (fun c listed q shown => ?_) inner
      have link := ((gathered.stock stock before sub).linked.agree c bay).mp listed
      refine gathered.shows_attached stock before sub formed (fun same => ?_) (.child link .top) shown
      rw [same, gathered.parentless] at link
      cases link

theorem Gathered.moved_attached (stock : Stock s given) (gathered : Gathered bay name s done ps s' added more)
    (before : done ⊆ given) (sub : next ⊆ given) (formed : Formed next s' n p mid fresh newer) {id : NodeId}
    (made : id < s.scene.store.size) (usable : s.scene.store.Usable id) :
    (mid.scene.attach bay n).store.Usable id ∨ Below (mid.scene.attach bay n).store bay id := by
  have attachable := gathered.attachable stock before sub formed
  rcases gathered.moved id made usable with free | below
  · by_cases own : s'.scene.store.Own next id
    · -- it was free until now, so it is one of those that the new node takes
      rcases own with new | used
      · exact absurd (made.trans_le gathered.confined.size) (Nat.not_lt_of_ge new)
      · exact .inr (attachable.entered (formed.taken id used))
    · left
      have elsewhere : id ≠ n := fun same => own (same ▸ formed.own)
      have free' := (usable_of_get (formed.confined.old id own)).mpr free
      rw [Scene.attach_store]
      constructor
      · rw [parent_add formed.made, if_neg elsewhere]
        exact free'.1
      · rw [disposed_of_bare (bare_add bay n id)]
        exact free'.2
  · exact .inr (formed.grown attachable below)

theorem Gathered.worked_attached (stock : Stock s given) (gathered : Gathered bay name s done ps s' added more)
    (before : done ⊆ given) (sub : next ⊆ given) (formed : Formed next s' n p mid fresh newer) :
    Worked (s.scene.store.Own (done ++ next)) s { mid with scene := mid.scene.attach bay n } (added ++ fresh) := by
  have wider : ∀ x, s'.scene.store.Own next x → s.scene.store.Own (done ++ next) x := fun x own =>
    gathered.own_before (stock_mono (List.append_subset.mpr ⟨before, sub⟩) stock) (List.subset_append_left _ _)
      (List.subset_append_right _ _) own
  have attached : Worked (s.scene.store.Own (done ++ next)) mid { mid with scene := mid.scene.attach bay n } [] :=
    worked_attach (gathered.attachable stock before sub formed)
      (fun x below => wider x (formed.own_below (gathered.stock stock before sub) below)) (.inl gathered.new)
  have worked := worked_trans (worked_mono (fun x => own_mono (List.subset_append_left done next)) gathered.toWorked)
    (worked_trans (worked_mono wider formed.toWorked) attached)
  rwa [List.append_nil] at worked

/-- What was formed goes to the end of the container. -/
theorem gathered_attach (stock : Stock s given) (gathered : Gathered bay name s done ps s' added more)
    (before : done ⊆ given) (sub : next ⊆ given) (formed : Formed next s' n p mid fresh newer) :
    Gathered bay name s (done ++ next) (ps ++ [p]) { mid with scene := mid.scene.attach bay n } (added ++ fresh)
      (more ++ newer) := by
  have attachable := gathered.attachable stock before sub formed
  have worked := gathered.worked_attached stock before sub formed
  have store : (mid.scene.attach bay n).store = mid.scene.store.add bay n := Scene.attach_store bay n mid.scene
  have grown : ∀ x, Below s'.scene.store bay x → Below (mid.scene.attach bay n).store bay x := fun x below =>
    formed.grown attachable below
  have taken : ∀ id ∈ next, s.scene.store.Usable id → Below (mid.scene.attach bay n).store bay id := by
    intro id member usable
    rcases gathered.moved id (stock.made id (sub member)) usable with free | below
    · exact attachable.entered (formed.taken id ⟨id, member, free, .top⟩)
    · exact grown id below
  exact
    { worked with
      made := by
        show bay < (mid.scene.attach bay n).store.size
        rw [store, size_add]
        exact gathered.made.trans_le formed.confined.size
      parentless := by
        show (mid.scene.attach bay n).store.parentOf bay = none
        rw [store, parent_add formed.made, if_neg, parent_of_get (gathered.still stock sub formed .top), gathered.parentless]
        rintro rfl
        exact attachable.apart .top
      own := .inl gathered.new
      shown := gathered.picture_attached stock before sub formed
      taken := by
        intro x used
        rcases used_append.mp used with earlier | ⟨id, member, usable, below⟩
        · exact grown x (gathered.taken x earlier)
        · exact below_trans (taken id member usable) (below_grown worked.parents below)
      below := by
        intro x member
        rcases (attachable.live x).mp member with before | ⟨below, _⟩
        · rcases formed.below x before with earlier | below
          · exact (gathered.below x earlier).imp_right (grown x)
          · exact .inr (attachable.entered below)
        · exact .inr (attachable.entered below)
      inside := by
        intro e member
        rcases List.mem_append.mp member with earlier | later
        · exact ⟨(gathered.inside e earlier).1, grown e.node (gathered.inside e earlier).2⟩
        · refine ⟨fun same => ?_, attachable.entered (formed.inside e later).2⟩
          exact attachable.apart (same ▸ (formed.inside e later).2)
      hung := by
        apply hung_append
        · exact hung_each gathered.hung fun e member q shown =>
            gathered.shows_attached stock before sub formed (gathered.inside e member).1 (gathered.inside e member).2 shown
        · refine hung_each formed.hung fun e member q shown => ?_
          show Shows (mid.scene.attach bay n).store e.node q
          rw [store]
          exact attachable.shows (fun above => attachable.apart (below_trans (formed.inside e member).2 above)) shown
      new := gathered.new
      container := by
        show (mid.scene.attach bay n).store.holds Payload.isContainer bay = true
        rw [store]
        exact (holds_of_bare (bare_add bay n bay) bare_isContainer).trans attachable.holds
      moved := fun _ made usable => gathered.moved_attached stock before sub formed made usable }

theorem gathered_entered (stock : Stock s done) {scene : Scene} {e : Entry Blueprint}
    (gathered : Gathered bay name s done ps { s' with scene := scene } added more) (elsewhere : e.node ≠ bay)
    (below : Below scene.store bay e.node) (shown : Shows scene.store e.node p) :
    Gathered bay name s done ps (s'.entered [e] scene) (added ++ [e]) (more ++ [(e.path, p)]) :=
  { gathered with
    recalls := ⟨gathered.recalls.evaluator, gathered.recalls.materials⟩
    entries := by
      show s'.registry.entries ++ [e] = _
      rw [show s'.registry.entries = s.registry.entries ++ added from gathered.entries, List.append_assoc]
    listed := by
      intro f member
      rcases List.mem_append.mp member with old | new
      · exact gathered.listed f old
      · rw [List.mem_singleton.mp new]
        exact ⟨gathered.own_below stock below, shows_lt shown⟩
    inside := by
      intro f member
      rcases List.mem_append.mp member with old | new
      · exact gathered.inside f old
      · rw [List.mem_singleton.mp new]
        exact ⟨elsewhere, below⟩
    hung := hung_append gathered.hung (hung_single shown) }

end

/-! ### The nodes of a result -/

section

variable {s : Session} {given done : List NodeId} {bay : NodeId} {name : String} {ps : List Picture} {scene : Scene}

/-- Looks and children are as they were. -/
def Unpainted (store store' : Store) : Prop :=
  ∀ x, x < store.size → store'.look? x = store.look? x ∧ store'.childrenOf x = store.childrenOf x

theorem unpainted_new {store store' : Store} (later : Confined store.New store store') : Unpainted store store' := by
  intro x made
  have old := later.old x (Nat.not_le_of_lt made)
  exact ⟨look_of_get old, children_of_get old⟩

theorem gathered_one (stock : Stock s given) (before : done ⊆ given)
    (gathered : Gathered bay name s done ps { s with scene := scene } [] [])
    (unpainted : Unpainted s.scene.store scene.store) {id : NodeId} (member : id ∈ given) {p : Picture}
    (shown : Shows s.scene.store id p) :
    Returns (do
      let node ← Place.fresh id
      modify fun scene => scene.attach bay node) scene fun _ scene' =>
      Gathered bay name s (done ++ [id]) (ps ++ [p]) { s with scene := scene' } [] [] ∧
        Unpainted s.scene.store scene'.store := by
  have one : [id] ⊆ given := List.cons_subset.mpr ⟨member, List.nil_subset given⟩
  have made := stock.made id member
  have shownNow : Shows scene.store id p := shows_same stock.linked
    (fun x below => (unpainted x (below_lt below made)).1) (fun x below => (unpainted x (below_lt below made)).2) shown
  refine returns_bind (formed_fresh (gathered.stock stock before one) shownNow) ?_
  rintro n more ⟨formed, later⟩
  have attachable := gathered.attachable stock before one formed
  have attached := gathered_attach stock gathered before one formed
  refine returns_modify ⟨attached, fun x made => ?_⟩
  have other : x ≠ bay := fun same => Nat.not_lt_of_ge gathered.new (same ▸ made)
  have old : more.store.get? x = scene.store.get? x :=
    later.old x (Nat.not_le_of_lt (made.trans_le gathered.confined.size))
  have look : (more.attach bay n).store.look? x = more.store.look? x := by
    rw [Scene.attach_store]
    exact look_of_bare (bare_add bay n x)
  have children : (more.attach bay n).store.childrenOf x = more.store.childrenOf x := by
    rw [Scene.attach_store]
    exact (attachable.children x).trans (if_neg other)
  exact ⟨look.trans ((look_of_get old).trans (unpainted x made).1),
    children.trans ((children_of_get old).trans (unpainted x made).2)⟩

theorem gathered_rest (stock : Stock s given) : ∀ (rest done : List NodeId) (ps qs : List Picture) (scene : Scene),
    done ++ rest ⊆ given → ShowsAll s.scene.store rest qs →
    Gathered bay name s done ps { s with scene := scene } [] [] → Unpainted s.scene.store scene.store →
    Returns (rest.forM fun id => do
      let node ← Place.fresh id
      modify fun scene => scene.attach bay node) scene fun _ scene' =>
      Gathered bay name s (done ++ rest) (ps ++ qs) { s with scene := scene' } [] [] ∧
        Unpainted s.scene.store scene'.store := by
  intro rest
  induction rest with
  | nil =>
    intro done ps qs scene _ shown gathered unpainted
    cases shown
    exact returns_pure ⟨by rwa [List.append_nil, List.append_nil], unpainted⟩
  | cons id rest ih =>
    intro done ps qs scene sub shown gathered unpainted
    cases shown with
    | @cons _ _ p qs first others =>
      obtain ⟨before, later⟩ := List.append_subset.mp sub
      rw [List.forM]
      refine returns_bind (gathered_one stock before gathered unpainted (later (by simp)) first) ?_
      rintro _ scene' ⟨gathered', unpainted'⟩
      have rejoin := ih (done ++ [id]) (ps ++ [p]) qs scene' (by simpa using sub) others gathered' unpainted'
      simpa only [List.append_assoc, List.singleton_append] using rejoin

theorem formed_gather (stock : Stock s given) {ps : List Picture} (shown : ShowsAll s.scene.store given ps) :
    Returns (Place.gather name given) s.scene fun n scene =>
      Formed given s n ⟨Node.ofPayload name (.container []), ps⟩ { s with scene := scene } [] [] ∧
        s.scene.store.New n ∧ Unpainted s.scene.store scene.store := by
  unfold Place.gather
  refine returns_bind (gathered_create (stock_mono (List.nil_subset given) stock) name) fun bay scene gathered => ?_
  have unpainted : Unpainted s.scene.store scene.store := by
    apply unpainted_new
    refine confined_mono ?_ gathered.confined
    rintro x (new | ⟨id, member, _⟩)
    · exact new
    · cases member
  refine returns_bind (gathered_rest stock given [] [] ps scene (List.Subset.refl given) shown gathered unpainted) ?_
  rintro _ last ⟨gathered, unpainted⟩
  exact returns_pure ⟨gathered.toFormed, gathered.new, unpainted⟩

end

end ProceduralScene
