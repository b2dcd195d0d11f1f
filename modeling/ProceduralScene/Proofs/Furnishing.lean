import ProceduralScene.Proofs.Built

/-!
Placing blueprints one after the other. The children of a group go into its new container, and what was placed before
keeps its pictures and stays registered while the next one is placed.
-/

set_option autoImplicit false

namespace ProceduralScene

open Store SessionAction
open Blueprint (results results_append placedAll placedAll_append placedAll_single)

/-- The blueprints have paths of their own, and nothing is registered at them. -/
structure Unregistered (s : Session) (list : List Blueprint) : Prop where
  distinct : (list.map Blueprint.path).Nodup
  free : ∀ b ∈ list, s.registry.get? b.path = none

/-! ### What is registered stays -/

section

variable {s s' : Session} {path : String}

theorem get_longer (entries : List (Entry Blueprint)) {more : List (Entry Blueprint)}
    (other : ∀ e ∈ more, e.path ≠ path) :
    (Registry.mk (entries ++ more)).get? path = (Registry.mk entries).get? path := by
  have none : more.find? (·.path == path) = none :=
    List.find?_eq_none.mpr fun e member => by simpa using other e member
  rw [Registry.get?, List.find?_append, none, Option.or_none, Registry.get?]

theorem get_added {registry : Registry Blueprint} {entries added : List (Entry Blueprint)} {e : Entry Blueprint}
    (longer : registry.entries = entries ++ added) (free : (Registry.mk entries).get? path = none)
    (found : registry.get? path = some e) : e ∈ added := by
  rw [Registry.get?] at free
  rw [Registry.get?, longer, List.find?_append, free, Option.none_or] at found
  exact List.mem_of_find?_eq_some found

theorem alikeAt_of_get (entry : s'.registry.get? path = s.registry.get? path)
    (same : ∀ e, s.registry.get? path = some e → s'.scene.store.get? e.node = s.scene.store.get? e.node) :
    s.AlikeAt s' path where
  entry := entry
  node e found := by
    simp only [nameOf, holds, childrenOf, same e found, and_self]

theorem unregistered_later {list : List Blueprint} {added : List (Entry Blueprint)} (unregistered : Unregistered s list)
    (entries : s'.registry.entries = s.registry.entries ++ added)
    (other : ∀ e ∈ added, ∀ b ∈ list, e.path ≠ b.path) : Unregistered s' list where
  distinct := unregistered.distinct
  free b member := by
    have longer := get_longer s.registry.entries fun e listed => other e listed b member
    rw [← entries] at longer
    exact longer.trans (unregistered.free b member)

end

/-! ### One blueprint -/

section

variable {s mid : Session} {b : Blueprint} {gallery more : Gallery} {parent n : NodeId} {parentPath : String} {p : Picture}
  {added : List (Entry Blueprint)}

theorem placed_cons (b : Blueprint) : b.placed = b :: b.placed.tail := by
  by_cases group : b.content = .group
  · rw [Blueprint.placed_group group, List.tail_cons]
  · rw [Blueprint.placed_single group, List.tail_cons]

theorem built_inner (built : Built gallery parentPath b s n p mid added more) {e : Entry Blueprint} (member : e ∈ added) :
    e.path ∈ b.placed.tail.map Blueprint.path := by
  have paths : added.map (·.path) = more.paths := hung_paths built.hung
  exact depicts_inner built.depicts rfl (paths ▸ List.mem_map_of_mem member)

theorem inner_other (unregistered : Unregistered s b.placed) {path : String}
    (inner : path ∈ b.placed.tail.map Blueprint.path) : path ≠ b.path := by
  have distinct := unregistered.distinct
  rw [placed_cons, List.map_cons, List.nodup_cons] at distinct
  exact fun same => distinct.1 (same ▸ inner)

theorem absent_built (unregistered : Unregistered s b.placed) (built : Built gallery parentPath b s n p mid added more) :
    mid.registry.get? b.path = none := by
  have longer := get_longer s.registry.entries fun e member => inner_other unregistered (built_inner built member)
  rw [← built.entries] at longer
  exact longer.trans (unregistered.free b (placed_self b))

/-- Entering changes nothing about what stands inside the node. -/
theorem alikeAt_entered (unregistered : Unregistered s b.placed) (built : Built gallery parentPath b s n p mid added more)
    (attachable : Attachable mid parent n) {c : Blueprint} (inner : c ∈ b.placed.tail) :
    mid.AlikeAt (mid.entered [⟨b.path, n, parentPath, b⟩] (mid.scene.attach parent n)) c.path := by
  have other := inner_other unregistered (List.mem_map_of_mem inner)
  refine alikeAt_of_get (get_longer _ ?_) fun e found => ?_
  · intro e member
    rw [List.mem_singleton.mp member]
    exact Ne.symm other
  · have listed : c ∈ b.placed := by
      rw [placed_cons]
      exact List.mem_cons_of_mem b inner
    obtain ⟨elsewhere, below⟩ := built.inside e (get_added built.entries (unregistered.free c listed) found)
    show (mid.scene.attach parent n).store.get? e.node = _
    rw [Scene.attach_store]
    refine get_add_elsewhere elsewhere (fun same => attachable.apart (same ▸ below)) ?_
    simp [attachable.parentless]

/-- Once its node stands in the parent and is registered, the tree mirrors a blueprint. -/
theorem mirrors_built (unregistered : Unregistered s b.placed) (built : Built gallery parentPath b s n p mid added more)
    (attachable : Attachable mid parent n) :
    Mirrors (mid.entered [⟨b.path, n, parentPath, b⟩] (mid.scene.attach parent n)) b (some n) := by
  have store : (mid.scene.attach parent n).store = mid.scene.store.add parent n := Scene.attach_store parent n mid.scene
  have bare : (mid.scene.attach parent n).store.bare? n = mid.scene.store.bare? n := by
    rw [store, bare_add]
  have stands : (mid.entered [⟨b.path, n, parentPath, b⟩] (mid.scene.attach parent n)).Stands b n := by
    refine ⟨(name_of_bare bare).trans built.named, ⟨b.path, n, parentPath, b⟩, ?_, rfl⟩
    have none := absent_built unregistered built
    rw [Registry.get?] at none
    show (mid.registry.entries ++ [_]).find? _ = _
    rw [List.find?_append, none]
    simp
  by_cases group : b.content = .group
  · obtain ⟨container, nodes, mirrors, listed⟩ := built.inner group
    have children := mirrorsAll_later (fun c _ => mirrors_later c) (fun c member => by
      refine alikeAt_entered unregistered built attachable ?_
      rwa [Blueprint.placed_group group]) mirrors
    refine .group group stands ((holds_of_bare bare bare_isContainer).trans container) children ?_
    · show (mid.scene.attach parent n).store.childrenOf n = _
      rw [store, attachable.children, if_neg, listed]
      rintro rfl
      exact attachable.apart .top
  · exact .single group stands

end

/-! ### The children of a group -/

/-- A new container in which some blueprints were placed. -/
structure Housed (gallery : Gallery) (parentPath : String) (bay : NodeId) (name : String) (s : Session)
    (before : List Blueprint) (ps : List Picture) (s' : Session) (added : List (Entry Blueprint)) (more : Gallery)
    (nodes : List (Option NodeId)) : Prop extends
    Gathered bay name s (results (placedAll before)) ps s' added more where
  depicts : DepictsAll s' gallery parentPath before ps more
  honest : ∀ qs all, DepictsAll s gallery parentPath before qs all → qs = ps ∧ all = more
  mirrors : MirrorsAll s' before nodes
  holding : s'.scene.store.childrenOf bay = nodes.reduceOption

section

variable {s s' : Session} {gallery more newer : Gallery} {parentPath name : String} {bay n : NodeId} {c : Blueprint}
  {before : List Blueprint} {p : Picture} {ps : List Picture} {added fresh : List (Entry Blueprint)}
  {nodes : List (Option NodeId)} {mid : Session}

theorem results_next (before : List Blueprint) (c : Blueprint) :
    results (placedAll (before ++ [c])) = results (placedAll before) ++ results c.placed := by
  rw [placedAll_append, placedAll_single, results_append]

theorem housed_left {s'' : Session}
    (housed : Housed gallery parentPath bay name s before ps s' added more nodes) (noted : Noted s' s'')
    (single : c.content ≠ .group) (bare : results c.placed = []) (free : s'.registry.get? c.path = none)
    (depicts : Depicts s' (gallery ++ more) parentPath c none []) :
    Housed gallery parentPath bay name s (before ++ [c]) ps s'' added more (nodes ++ [none]) := by
  have same : ∀ list, SameResults list s' s'' := fun list b member id given p shown => noted.scene ▸ shown
  have gathered := gathered_noted housed.toGathered noted
  rw [← List.append_nil (results (placedAll before)), ← bare, ← results_next] at gathered
  exact
    { gathered with
      depicts := by
        have earlier := depictsAll_later (fun b _ => depicts_later noted.recalls b) (same _) housed.depicts
        have last := depictsAll_snoc earlier (depicts_later noted.recalls c (same _) depicts)
        simpa using last
      honest := by
        intro qs all depicts'
        obtain ⟨qs, q, all, others, first, last, rfl, rfl⟩ := depictsAll_last depicts'
        obtain ⟨rfl, rfl⟩ := housed.honest qs all first
        -- the blueprint has no results that could look different
        have bareSame : SameResults c.placed s s' := by
          intro d member id given
          have listed : id ∈ results c.placed := List.mem_flatMap.mpr ⟨d, member, given⟩
          rw [bare] at listed
          cases listed
        obtain ⟨rfl, rfl⟩ := depicts_unique c (depicts_later housed.recalls c bareSame last) depicts
        simp
      mirrors := by
        refine mirrorsAll_append ?_ (.cons (.left single (noted.registry ▸ free)) .nil)
        refine mirrorsAll_later (fun b _ => mirrors_later b) (fun b _ => ?_) housed.mirrors
        exact alikeAt_of_get (by rw [noted.registry]) fun e _ => by rw [noted.scene]
      holding := by
        rw [noted.scene, housed.holding, List.reduceOption_append]
        simp [List.reduceOption] }

/-- The blueprint that is placed next finds its results as they were. -/
theorem same_before (placeable : Placeable s (placedAll before ++ c.placed))
    (housed : Housed gallery parentPath bay name s before ps s' added more nodes) : SameResults c.placed s s' := by
  intro d member id given p shown
  have listed : id ∈ results c.placed := List.mem_flatMap.mpr ⟨d, member, given⟩
  have apart : ∀ y ∈ results (placedAll before), s.scene.store.Usable y → s.scene.store.Apart id y :=
    fun y done usable => (placeable.between done listed (.inl usable)).symm
  exact shows_apart placeable.linked housed.confined apart shown

/-- No path of what was placed is one of the blueprint that is placed next. -/
theorem paths_apart (unregistered : Unregistered s (placedAll before ++ c.placed)) {b d : Blueprint}
    (first : b ∈ placedAll before) (second : d ∈ c.placed) : b.path ≠ d.path := by
  have distinct := unregistered.distinct
  rw [List.map_append] at distinct
  exact (List.nodup_append.mp distinct).2.2 b.path (List.mem_map_of_mem first) d.path (List.mem_map_of_mem second)

theorem Housed.listed_path (housed : Housed gallery parentPath bay name s before ps s' added more nodes)
    {e : Entry Blueprint} (member : e ∈ added) : e.path ∈ (placedAll before).map Blueprint.path := by
  have paths : added.map (·.path) = more.paths := hung_paths housed.hung
  exact depictsAll_inner housed.depicts (paths ▸ List.mem_map_of_mem member)

theorem housed_unregistered (unregistered : Unregistered s (placedAll before ++ c.placed))
    (housed : Housed gallery parentPath bay name s before ps s' added more nodes) : Unregistered s' c.placed := by
  have rest : Unregistered s c.placed :=
    { distinct := by
        have distinct := unregistered.distinct
        rw [List.map_append] at distinct
        exact (List.nodup_append.mp distinct).2.1
      free := fun b member => unregistered.free b (List.mem_append_right _ member) }
  refine unregistered_later rest housed.entries fun e member d listed => ?_
  obtain ⟨b, first, same⟩ := List.mem_map.mp (housed.listed_path member)
  exact same ▸ paths_apart unregistered first listed

/-- What was placed before stays where it is while the next blueprint is placed. -/
theorem alikeAt_before (stock : Stock s (results (placedAll before) ++ results c.placed))
    (unregistered : Unregistered s (placedAll before ++ c.placed))
    (housed : Housed gallery parentPath bay name s before ps s' added more nodes)
    (built : Built (gallery ++ more) parentPath c s' n p mid fresh newer) (attachable : Attachable mid bay n)
    {b : Blueprint} (member : b ∈ placedAll before) :
    s'.AlikeAt (mid.entered [⟨c.path, n, parentPath, c⟩] (mid.scene.attach bay n)) b.path := by
  have second := List.subset_append_right (results (placedAll before)) (results c.placed)
  refine alikeAt_of_get ?_ fun e found => ?_
  · show (Registry.mk (mid.registry.entries ++ [_])).get? b.path = _
    rw [built.entries, List.append_assoc]
    refine get_longer _ fun e listed => ?_
    rcases List.mem_append.mp listed with inner | last
    · obtain ⟨d, inside, same⟩ := List.mem_map.mp (built_inner built inner)
      exact same ▸ (paths_apart unregistered member (List.mem_of_mem_tail inside)).symm
    · rw [List.mem_singleton.mp last]
      exact (paths_apart unregistered member (placed_self c)).symm
  · -- its node is in the container, where the next blueprint takes nothing
    have new := get_added housed.entries (unregistered.free b (List.mem_append_left _ member)) found
    obtain ⟨elsewhere, below⟩ := housed.inside e new
    have outside := housed.settled stock.linked (fun id listed => stock.made id (second listed)) below
    have other : e.node ≠ n := fun same => outside (same ▸ built.own)
    have unmoved : (mid.scene.attach bay n).store.get? e.node = mid.scene.store.get? e.node := by
      rw [Scene.attach_store]
      exact get_add_elsewhere other elsewhere (by simp [attachable.parentless])
    exact unmoved.trans (housed.still stock second built.toFormed below)

theorem housed_placed (placeable : Placeable s (placedAll before ++ c.placed))
    (unregistered : Unregistered s (placedAll before ++ c.placed))
    (housed : Housed gallery parentPath bay name s before ps s' added more nodes)
    (built : Built (gallery ++ more) parentPath c s' n p mid fresh newer) :
    Housed gallery parentPath bay name s (before ++ [c]) (ps ++ [p])
      (mid.entered [⟨c.path, n, parentPath, c⟩] (mid.scene.attach bay n))
      (added ++ fresh ++ [⟨c.path, n, parentPath, c⟩]) (more ++ newer ++ [(c.path, p)]) (nodes ++ [some n]) := by
  have stock := placeable.toStock
  rw [results_append] at stock
  have first := List.subset_append_left (results (placedAll before)) (results c.placed)
  have second := List.subset_append_right (results (placedAll before)) (results c.placed)
  have attachable := housed.attachable stock first second built.toFormed
  have attached := gathered_attach stock housed.toGathered first second built.toFormed
  have store : (mid.scene.attach bay n).store = mid.scene.store.add bay n := Scene.attach_store bay n mid.scene
  have elsewhere : n ≠ bay := fun same => attachable.apart (same ▸ .top)
  have shown : Shows (mid.scene.attach bay n).store n p := by
    rw [store]
    exact attachable.shows attachable.apart built.shown
  have entered := gathered_entered (e := ⟨c.path, n, parentPath, c⟩) stock attached elsewhere (attachable.entered .top) shown
  rw [← results_next] at entered
  -- what was there before the container shows the same once the node is in it
  have late : ∀ id q, id < s.scene.store.size → Shows mid.scene.store id q →
      Shows (mid.scene.attach bay n).store id q := by
    intro id q made before
    rw [store]
    refine attachable.shows (fun below => ?_) before
    have parentless : mid.scene.store.parentOf bay = none :=
      (parent_of_get (housed.still stock second built.toFormed .top)).trans housed.parentless
    exact Nat.not_lt_of_ge housed.new (below_root below parentless ▸ made)
  have ready : Placeable s' (placedAll before ++ c.placed) :=
    placeable_later placeable (results_append _ _ ▸ first) housed.toGathered
  have sameBefore : SameResults (placedAll before) s'
      (mid.entered [⟨c.path, n, parentPath, c⟩] (mid.scene.attach bay n)) := by
    intro b member id given q shown
    have listed : id ∈ results (placedAll before) := List.mem_flatMap.mpr ⟨b, member, given⟩
    refine late id q (stock.made id (first listed)) ?_
    exact shows_apart ready.linked built.confined (fun y next usable => ready.between listed next (.inr usable)) shown
  have sameLast : SameResults c.placed mid (mid.entered [⟨c.path, n, parentPath, c⟩] (mid.scene.attach bay n)) := by
    intro d member id given q shown
    exact late id q (stock.made id (second (List.mem_flatMap.mpr ⟨d, member, given⟩))) shown
  have recalls : mid.Recalls (mid.entered [⟨c.path, n, parentPath, c⟩] (mid.scene.attach bay n)) :=
    recalls_elsewhere mid _ _
  exact
    { entered with
      depicts := by
        have earlier := depictsAll_later (fun b _ => depicts_later (recalls_trans built.recalls recalls) b) sameBefore
          housed.depicts
        rw [List.append_assoc]
        exact depictsAll_snoc earlier (depicts_later recalls c sameLast built.depicts)
      honest := by
        -- what the start promises for the last blueprint is what it is built as, since its results look the same now
        intro qs all depicts
        obtain ⟨qs, q, all, others, front, last, rfl, rfl⟩ := depictsAll_last depicts
        obtain ⟨rfl, rfl⟩ := housed.honest qs all front
        obtain ⟨rfl, rfl⟩ := built.honest q others (depicts_later housed.recalls c (same_before placeable housed) last)
        exact ⟨rfl, (List.append_assoc _ _ _).symm⟩
      mirrors := by
        have here := mirrors_built (housed_unregistered unregistered housed) built attachable
        refine mirrorsAll_append ?_ (.cons here .nil)
        refine mirrorsAll_later (fun b _ => mirrors_later b) (fun b member => ?_) housed.mirrors
        exact alikeAt_before stock unregistered housed built attachable member
      holding := by
        show (mid.scene.attach bay n).store.childrenOf bay = _
        rw [store, attachable.children, if_pos rfl, children_of_get (housed.still stock second built.toFormed .top),
          housed.holding, List.reduceOption_append]
        rfl }

end

/-! ### Whole blueprints -/

/-- Placing the blueprint ends well wherever it can be placed. -/
def Blueprint.Places (b : Blueprint) : Prop := ∀ (s : Session) (gallery : Gallery) (parent : NodeId) (parentPath : String),
  Placeable s b.placed → Unregistered s b.placed → (∀ c ∈ b.placed, c.Legible) →
  Hung s.scene.store s.registry.entries gallery →
  Returns (Place.place parent parentPath b) s (Ending gallery parent parentPath b s)

section

variable {s : Session} {gallery : Gallery} {parentPath name : String} {bay : NodeId} {children : List Blueprint}

theorem housed_rest (placeable : Placeable s (placedAll children)) (unregistered : Unregistered s (placedAll children))
    (legible : ∀ c ∈ placedAll children, c.Legible) (hung : Hung s.scene.store s.registry.entries gallery)
    (each : ∀ c ∈ children, c.Places) : ∀ (rest before : List Blueprint) (ps : List Picture) (s' : Session)
    (added : List (Entry Blueprint)) (more : Gallery) (nodes : List (Option NodeId)), before ++ rest = children →
    Housed gallery parentPath bay name s before ps s' added more nodes →
    Returns (Place.placeAll bay parentPath rest) s' fun _ s'' => ∃ ps added more nodes,
      Housed gallery parentPath bay name s children ps s'' added more nodes := by
  intro rest
  induction rest with
  | nil =>
    intro before ps s' added more nodes whole housed
    rw [List.append_nil] at whole
    exact returns_pure ⟨ps, added, more, nodes, whole ▸ housed⟩
  | cons c rest ih =>
    intro before ps s' added more nodes whole housed
    have split : placedAll children = placedAll before ++ (c.placed ++ placedAll rest) := by
      rw [← whole, placedAll_append, placedAll]
    have sub : (placedAll before ++ c.placed).Sublist (placedAll children) := by
      rw [split, ← List.append_assoc]
      exact List.sublist_append_left _ _
    have placeable' := placeable_sublist sub placeable
    have unregistered' : Unregistered s (placedAll before ++ c.placed) :=
      ⟨unregistered.distinct.sublist (sub.map _), fun b member => unregistered.free b (sub.subset member)⟩
    have first : results (placedAll before) ⊆ results (placedAll before ++ c.placed) :=
      results_sublist (List.sublist_append_left _ _)
    have ready : Placeable s' c.placed :=
      placeable_sublist (List.sublist_append_right _ _) (placeable_later placeable' first housed.toGathered)
    have free := housed_unregistered unregistered' housed
    have hungNow : Hung s'.scene.store s'.registry.entries (gallery ++ more) := by
      rw [housed.entries]
      exact hung_append (hung_kept placeable' first housed.confined hung) housed.hung
    have legible' : ∀ d ∈ c.placed, d.Legible := fun d member => legible d (sub.subset (List.mem_append_right _ member))
    rw [Place.placeAll]
    refine returns_bind (each c (by simp [← whole]) s' (gallery ++ more) bay parentPath ready free legible' hungNow) ?_
    intro found s'' ending
    have joined : before ++ [c] ++ rest = children := by rw [List.append_assoc, List.singleton_append, whole]
    cases ending with
    | left noted single bare depicts =>
      exact ih _ _ _ _ _ _ joined (housed_left housed noted single bare (free.free c (placed_self c)) depicts)
    | placed built => exact ih _ _ _ _ _ _ joined (housed_placed placeable' unregistered' housed built)

theorem results_group {b : Blueprint} (group : b.content = .group) : results b.placed = results (placedAll b.children) := by
  rw [Blueprint.placed_group group, results, List.flatMap_cons, Blueprint.given, group]
  rfl

/-- The container of a group is built once its children were placed and it was named and transformed. -/
theorem built_group {b : Blueprint} {s' : Session} {ps : List Picture} {added : List (Entry Blueprint)} {more : Gallery}
    {nodes : List (Option NodeId)} (group : b.content = .group) (placeable : Placeable s b.placed)
    (unregistered : Unregistered s b.placed)
    (housed : Housed gallery b.path bay b.name s b.children ps s' added more nodes) :
    Built gallery parentPath b s bay ((Picture.mk (Node.ofPayload b.name (.container [])) ps).onTop b.styled)
      (s'.styled b bay) added more := by
  have stock := placeable.toStock
  rw [results_group group] at stock
  have linked : Linked s'.scene.store := housed.linked stock
  have formed := formed_styled b stock housed.toFormed
  have keeps : KeepsLinks b.styled := fun _ => ⟨rfl, rfl⟩
  have untouched : ∀ x, x ≠ bay → (s'.styled b bay).scene.store.get? x = s'.scene.store.get? x := fun x other =>
    get_modify_elsewhere _ _ other
  have same : SameResults (placedAll b.children) s' (s'.styled b bay) := by
    intro c member id given q shown
    refine shows_of_get linked (fun x below => untouched x ?_) shown
    rintro rfl
    have made := stock.made id (List.mem_flatMap.mpr ⟨c, member, given⟩)
    exact Nat.not_lt_of_ge housed.new (below_root below housed.parentless ▸ made)
  have recalls : s'.Recalls (s'.styled b bay) := recalls_elsewhere s' _ _
  have built : Formed (results b.placed) s bay ((Picture.mk (Node.ofPayload b.name (.container [])) ps).onTop b.styled)
      (s'.styled b bay) added more := by rwa [results_group group]
  exact
    { built with
      named := nameOf_styled formed.shown
      depicts := .group group (depictsAll_later (fun c _ => depicts_later recalls c) same housed.depicts)
      honest := by
        intro q all depicts
        cases depicts with
        | group _ children =>
          obtain ⟨rfl, rfl⟩ := housed.honest _ _ children
          exact ⟨rfl, rfl⟩
        | made made | barren made => exact absurd group (made_not_group made)
        | reference other | missing other => rw [group] at other; cases other
      inner := by
        refine fun _ => ⟨?_, nodes, ?_, ?_⟩
        · show (s'.scene.store.modify bay b.styled).holds _ bay = true
          rw [holds, get_modify, if_pos rfl, Option.any_map]
          exact housed.container
        · refine mirrorsAll_later (fun c _ => mirrors_later c) (fun c member => ?_) housed.mirrors
          refine alikeAt_of_get rfl fun e found => untouched e.node ?_
          have listed : c ∈ b.placed := by
            rw [Blueprint.placed_group group]
            exact List.mem_cons_of_mem b member
          exact (housed.inside e (get_added housed.entries (unregistered.free c listed) found)).1
        · exact (children_modify_keep _ _ keeps bay).trans housed.holding }

/-! ### Placing -/

theorem place_group {b : Blueprint} {parent : NodeId} (group : b.content = .group) : Place.place parent parentPath b = (do
    let _ ← releasePath b.path
    let container ← onScene (SceneAction.createContainer b.name)
    Place.placeAll container b.path b.children
    return some (← Place.settle b container parent parentPath)) := by
  cases b
  cases group
  rw [Place.place]

theorem place_reference {b : Blueprint} {parent : NodeId} {target : String} (reference : b.content = .reference target) :
    Place.place parent parentPath b = (do
      let _ ← releasePath b.path
      Place.reference b target parent parentPath) := by
  cases b
  cases reference
  rw [Place.place]

theorem place_made {b : Blueprint} {parent : NodeId} {helper : String} {result : Value}
    (made : b.content.made? = some (helper, result)) : Place.place parent parentPath b = (do
      let _ ← releasePath b.path
      Place.leaf b helper result parent parentPath) := by
  cases b with
  | mk path name content =>
    cases content with
    | call verb params found =>
      cases found with
      | none => cases made
      | some value =>
        cases made
        rw [Place.place]
    | shape verb params value =>
      cases made
      rw [Place.place]
    | _ => cases made

theorem returns_release {path : String} (free : s.registry.get? path = none) :
    Returns (releasePath path) s fun _ s' => s' = s := by
  refine returns_modifyGet ?_
  rw [Registry.release, free]

theorem ending_group {b : Blueprint} {parent : NodeId} (group : b.content = .group) (placeable : Placeable s b.placed)
    (unregistered : Unregistered s b.placed) (legible : ∀ c ∈ b.placed, c.Legible)
    (hung : Hung s.scene.store s.registry.entries gallery) (each : ∀ c ∈ b.children, c.Places) :
    Returns (do
      let container ← onScene (SceneAction.createContainer b.name)
      Place.placeAll container b.path b.children
      return some (← Place.settle b container parent parentPath)) s (Ending gallery parent parentPath b s) := by
  have inner : (placedAll b.children).Sublist b.placed := by
    rw [Blueprint.placed_group group]
    exact List.sublist_cons_self _ _
  have created : Returns (onScene (SceneAction.createContainer b.name)) s fun bay s' =>
      Gathered bay b.name s [] [] s' [] [] :=
    returns_onScene (gathered_create (stock_mono (List.nil_subset _) placeable.toStock) b.name)
  refine returns_bind created fun bay s' gathered => ?_
  have begun : Housed gallery b.path bay b.name s [] [] s' [] [] [] :=
    { gathered with
      depicts := .nil
      honest := fun qs all depicts => by
        cases depicts
        exact ⟨rfl, rfl⟩
      mirrors := .nil
      holding := by
        cases gathered.shown with
        | mk _ none =>
          cases children : s'.scene.store.childrenOf bay with
          | nil => rfl
          | cons first rest => rw [children] at none; cases none }
  have unregistered' : Unregistered s (placedAll b.children) :=
    ⟨unregistered.distinct.sublist (inner.map _), fun c member => unregistered.free c (inner.subset member)⟩
  refine returns_bind (housed_rest (placeable_sublist inner placeable) unregistered'
    (fun c member => legible c (inner.subset member)) hung each b.children [] [] s' [] [] [] rfl begun) ?_
  rintro _ s'' ⟨ps, added, more, nodes, housed⟩
  refine ending_settle (legible b (placed_self b)) ?_ (built_group group placeable unregistered housed)
  rw [Registry.get?, housed.entries]
  refine (get_longer _ fun e member => ?_).trans (unregistered.free b (placed_self b))
  have listed := housed.listed_path member
  refine inner_other unregistered ?_
  rwa [Blueprint.placed_group group, List.tail_cons]

/-- Every blueprint can be placed where its results and its paths allow it. -/
theorem places (b : Blueprint) : b.Places := by
  induction b using Blueprint.along_children with | step b ih =>
  intro s gallery parent parentPath placeable unregistered legible hung
  have free := unregistered.free b (placed_self b)
  have here := legible b (placed_self b)
  have after : ∀ {action : SessionAction (Option NodeId)}, Returns action s (Ending gallery parent parentPath b s) →
      Returns (do
        let _ ← releasePath b.path
        action) s (Ending gallery parent parentPath b s) := by
    intro action returns
    refine returns_bind (returns_release free) ?_
    rintro _ _ rfl
    exact returns
  cases content : b.content with
  | group =>
    rw [place_group content]
    exact after (ending_group content placeable unregistered legible hung ih)
  | reference target =>
    rw [place_reference content]
    exact after (ending_reference here placeable free content hung)
  | call helper params found =>
    cases found with
    | none =>
      have made := here.made
      rw [content] at made
      cases made
    | some result =>
      have made : b.content.made? = some (helper, result) := by rw [content, BlueprintContent.made?]
      rw [place_made made]
      exact after (ending_made here placeable free made)
  | shape helper params result =>
    have made : b.content.made? = some (helper, result) := by rw [content, BlueprintContent.made?]
    rw [place_made made]
    exact after (ending_made here placeable free made)

end

end ProceduralScene
