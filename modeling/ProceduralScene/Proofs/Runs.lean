import ProceduralScene.Build.Run
import ProceduralScene.Proofs.GivenNames
import ProceduralScene.Proofs.Placing

/-!
Whole runs. Between two calls a session has built nothing yet, or its registry, its tree and its account agree; each
call that returns keeps this.
-/

set_option autoImplicit false

namespace ProceduralScene

open Store

/-- What an interpreter was given: functions and fonts whose values are plain, sound factories, and plain declarations
and parameters. -/
structure Furnished (s : Session) : Prop where
  functions : Expression.PlainFunctions s.functions
  fonts : ∀ path font, s.loadFont path = .ok font → font.isPlain = true
  factories : s.baseFactories.Sound
  declared : ∀ schema, s.schema = some schema → schema.globalParameters.Plain ∧ schema.context.Plain
  parameters : s.parameters.Plain

/-- A session that has no nodes of a run. -/
structure Idle (s : Session) : Prop extends Ready [] s where
  furnished : Furnished s
  entries : s.registry.entries = []
  live : s.scene.live = []

/-- A session with a root, below which registry, tree and account agree. -/
structure Whole (names : List String) (root : NodeId) (s : Session) : Prop where
  coherent : Coherent names root [(root, "")] s
  accounted : Accounted [(root, "")] s
  container : s.scene.store.holds Payload.isContainer root = true
  here : s.root = some root
  furnished : Furnished s

/-- A session between two calls. -/
def Settled (s : Session) : Prop := Idle s ∧ s.root = none ∨ ∃ names root, Whole names root s

/-- The schema declares plain values, and its actions are plain and hand no stored result to a group. -/
structure Schema.Tame (schema : Schema) : Prop where
  globalParameters : schema.globalParameters.Plain
  context : schema.context.Plain
  actions : ∀ store log actions after, (Normalize.schema store schema).run.run log = (.ok actions, after) →
    Action.allTame (Action.allStoredNames actions) actions = true

section

variable {names : List String} {root : NodeId} {s s' : Session}

theorem furnished_same (furnished : Furnished s)
    (same : s' = { s with
      evaluator := s'.evaluator, registry := s'.registry, scene := s'.scene, materials := s'.materials,
      stored := s'.stored, globals := s'.globals }) : Furnished s' := by
  rw [same]
  exact ⟨furnished.functions, furnished.fonts, furnished.factories, furnished.declared, furnished.parameters⟩

theorem plain_freshEvaluator {functions : List (String × Expression.Function)} (plain : Expression.PlainFunctions functions)
    (limits : Limits) (policy : WarningPolicy) : (Session.freshEvaluator limits policy functions).Plain where
  functions := Expression.plain_withFunctions Expression.plain_functions plain
  memo := fun key value found => by simp [Session.freshEvaluator, Expression.evaluator] at found

theorem idle_new {limits : Limits} {policy : WarningPolicy} {functions : List (String × Expression.Function)}
    {loadFont : String → Except Failure Value} {factories : FactoryTable} {scene : Scene}
    (plain : Expression.PlainFunctions functions) (fonts : ∀ path font, loadFont path = .ok font → font.isPlain = true)
    (sound : factories.Sound) (linked : Linked scene.store) (live : scene.live = []) :
    Idle (Session.new limits policy functions loadFont factories scene) where
  linked := linked
  evaluator := plain_freshEvaluator plain limits policy
  factories := sound
  fonts := Bindings.plain_nil
  overrides := nofun
  stored := nofun
  furnished := ⟨plain, fonts, sound, nofun, Bindings.plain_nil⟩
  entries := rfl
  live := live

theorem idle_ready (idle : Idle s) (names : List String) : Ready names s :=
  { idle.toReady with stored := fun entry member => nomatch idle.stored entry member }

/-- The declarations of a session give a plain context. -/
theorem plain_rebuildGlobals (furnished : Furnished s) : s.rebuildGlobals.globals.Plain := by
  unfold Session.rebuildGlobals
  refine Context.plain_globals ?_ ?_ furnished.parameters
  · cases found : s.schema with
    | none => exact Bindings.plain_nil
    | some schema => exact (furnished.declared schema found).1
  · cases found : s.schema with
    | none => exact Bindings.plain_nil
    | some schema => exact (furnished.declared schema found).2

/-! ### The scene of the run before -/

theorem released_foldl (paths : List String) : ∀ s : Session,
    paths.foldl (fun (state : Registry Blueprint × Scene) path => (state.1.release path state.2).2) (s.registry, s.scene) =
      ((paths.foldl (fun s path => s.released path) s).registry, (paths.foldl (fun s path => s.released path) s).scene) := by
  induction paths with
  | nil => exact fun s => rfl
  | cons path rest ih => exact fun s => ih (s.released path)

theorem released_entries (coherent : Coherent names root [(root, "")] s) (path : String) {e : Entry Blueprint}
    (member : e ∈ (s.released path).registry.entries) : e ∈ s.registry.entries := by
  rcases released_cases coherent.linked coherent.counted path with ⟨_, same⟩ | ⟨_, _, _, dropped⟩
  · exact same ▸ member
  · exact dropped.sublist.subset member

/-- The root alone is closed upwards, and releasing entries spares it. -/
theorem upward_root (coherent : Coherent names root [(root, "")] s) : UpwardClosed s.scene.store (· = root) := by
  rintro child parent link rfl
  rw [(coherent.roots _ coherent.rooted).2] at link
  cases link

/-- After some paths are released the agreement still holds, and no entry has one of the paths. -/
theorem released_all (paths : List String) : ∀ s : Session, Coherent names root [(root, "")] s →
    Accounted [(root, "")] s → Coherent names root [(root, "")] (paths.foldl (fun s path => s.released path) s) ∧
      (paths.foldl (fun s path => s.released path) s).scene.store.bare? root = s.scene.store.bare? root ∧
      ∀ e ∈ (paths.foldl (fun s path => s.released path) s).registry.entries, e ∈ s.registry.entries ∧ e.path ∉ paths := by
  induction paths with
  | nil => exact fun s coherent _ => ⟨coherent, rfl, fun e member => ⟨member, fun listed => by cases listed⟩⟩
  | cons path rest ih =>
    intro s coherent accounted
    have done := released coherent accounted path
    have spared := done.spared (· = root) [] (fun _ => False) (upward_root coherent) fun e member _ =>
      coherent.entry_ne_anchor member coherent.rooted
    obtain ⟨last, bare, left⟩ := ih _ done.coherent done.accounted
    refine ⟨last, bare.trans (spared.bare root rfl), fun e member => ?_⟩
    obtain ⟨before, free⟩ := left e member
    refine ⟨released_entries coherent path before, fun listed => ?_⟩
    rcases List.mem_cons.mp listed with same | later
    · exact done.absent e before same
    · exact free later

/-- A tree without entries at the top level has no live geometry. -/
theorem live_of_bald (coherent : Coherent names root [(root, "")] s)
    (container : s.scene.store.holds Payload.isContainer root = true)
    (bald : ∀ e ∈ s.registry.entries, e.parentPath ≠ "") : s.scene.live = [] := by
  have childless : ∀ c, s.scene.store.parentOf c ≠ some root := by
    intro c link
    obtain ⟨e, member, rfl⟩ := coherent.covered c link
    obtain ⟨p, above, stands⟩ := coherent.parents e member
    obtain rfl : root = p := Option.some.inj (link.symm.trans above)
    rcases stands with anchor | ⟨f, there, _, same⟩
    · exact bald e member (Prod.mk.inj (List.mem_singleton.mp anchor)).2
    · exact coherent.entry_ne_anchor there coherent.rooted same
  have alone : ∀ x, Below s.scene.store root x → x = root := by
    intro x below
    induction below with
    | top => rfl
    | child link _ same => exact absurd (same ▸ link) (childless _)
  refine List.eq_nil_iff_forall_not_mem.mpr fun x member => ?_
  obtain ⟨a, anchor, below⟩ := coherent.live x member
  rw [List.mem_singleton.mp anchor] at below
  have live := coherent.counted.sound x member
  rw [alone x below] at live
  -- a container has no geometry
  obtain ⟨node, found, shape⟩ := (Option.any_eq_true _ _).mp container
  rw [hasLiveGeometry, found, Option.any_some] at live
  cases payload : node.payload <;> simp_all [Payload.isContainer, Node.liveGeometry, Payload.geometry?]

/-- What is left when everything at the top level is released. -/
theorem clear_scene (whole : Whole names root s) :
    Linked (s.registry.clear s.scene).2.store ∧ (s.registry.clear s.scene).2.live = [] := by
  let top := (s.registry.entries.filter (·.parentPath == "")).map (·.path)
  let last := top.foldl (fun s path => s.released path) s
  obtain ⟨coherent, bare, left⟩ := released_all top s whole.coherent whole.accounted
  have scene : (s.registry.clear s.scene).2 = last.scene := congrArg Prod.snd (released_foldl top s)
  rw [scene]
  refine ⟨coherent.linked, live_of_bald coherent ?_ fun e member bald => ?_⟩
  · exact (holds_of_bare bare bare_isContainer).trans whole.container
  · obtain ⟨before, free⟩ := left e member
    exact free (List.mem_map_of_mem (List.mem_filter.mpr ⟨before, by simp [bald]⟩))

/-- Between two runs a session has no nodes. -/
theorem idle_renewed (settled : Settled s) : Idle s.cleared.renewed := by
  have idle : ∀ scene : Scene, Furnished s → Linked scene.store → scene.live = [] →
      Idle ({ s with scene := scene }).renewed := fun scene furnished linked live =>
    { linked := linked
      evaluator := ⟨(plain_freshEvaluator furnished.functions s.limits s.policy).functions,
        (plain_freshEvaluator furnished.functions s.limits s.policy).memo⟩
      factories := furnished.factories
      fonts := Bindings.plain_nil
      overrides := fun _ member => by cases member
      stored := fun _ member => by cases member
      furnished := ⟨furnished.functions, furnished.fonts, furnished.factories, (fun _ same => by cases same), Bindings.plain_nil⟩
      entries := rfl
      live := live }
  rcases settled with ⟨blank, none⟩ | ⟨names, root, whole⟩
  · have same : s.cleared = s := by simp [Session.cleared, none]
    rw [same]
    exact idle s.scene blank.furnished blank.linked blank.live
  · obtain ⟨linked, live⟩ := clear_scene whole
    have same : s.cleared.renewed = ({ s with scene := (s.registry.clear s.scene).2 }).renewed := by
      simp [Session.cleared, whole.here, Session.renewed]
    rw [same]
    exact idle _ whole.furnished linked live

/-! ### A new root -/

/-- A new container is the root of a whole session. -/
theorem whole_root (idle : Idle s) (names : List String) (name : String) :
    Yields (SessionAction.createRoot name) s fun root after =>
      Whole names root after ∧ after = { s with scene := after.scene, root := some root } := by
  have created : Yields (SessionAction.onScene (SceneAction.createContainer name)) s fun root after =>
      root = s.scene.store.size ∧ after = { s with
        scene := { s.scene with store := (s.scene.store.create (Node.ofPayload name (.container []))).2 } } :=
    SessionAction.ends_onScene (ends_modifyGet ⟨rfl, rfl⟩)
  refine yields_bind created ?_
  rintro _ _ ⟨rfl, rfl⟩
  refine yields_modify_bind (yields_pure ⟨?_, rfl⟩)
  let store := (s.scene.store.create (Node.ofPayload name (.container []))).2
  have linked : Linked store := linked_create idle.linked rfl rfl
  have read : store.get? s.scene.store.size = some (Node.ofPayload name (.container [])) := by
    rw [get_create, if_pos rfl]
  have parentless : store.parentOf s.scene.store.size = none := by rw [parentOf, read]; rfl
  have childless : store.childrenOf s.scene.store.size = [] := by rw [childrenOf, read]; rfl
  have alone : ∀ x, Placed [(s.scene.store.size, "")] store x → x = s.scene.store.size := by
    rintro x ⟨a, anchor, below⟩
    rw [List.mem_singleton.mp anchor] at below
    induction below with
    | top => rfl
    | child link _ same =>
      have listed := (linked.agree _ _).mpr (same ▸ link)
      rw [childless] at listed
      cases listed
  have blank : ∀ e : Entry Blueprint, e ∉ s.registry.entries := fun e member => by simp [idle.entries] at member
  refine
    { coherent :=
        { ready := { idle_ready idle names with linked := linked }
          counted := ⟨idle.live ▸ List.nodup_nil, fun x member => ?_⟩
          nodes := idle.entries ▸ List.nodup_nil
          rooted := List.mem_singleton_self _
          roots := fun a anchor => ?_
          parents := fun e member => absurd member (blank e)
          covered := fun c link => ?_
          builds := fun e member => absurd member (blank e)
          pristine := fun x placed => ?_
          live := fun x member => ?_
          paths := idle.entries ▸ List.nodup_nil }
      accounted := fun x placed live => ?_
      container := ?_
      here := rfl
      furnished := ⟨idle.furnished.functions, idle.furnished.fonts, idle.furnished.factories, idle.furnished.declared,
        idle.furnished.parameters⟩ }
  · rw [idle.live] at member
    cases member
  · rw [List.mem_singleton.mp anchor]
    exact ⟨get_some_lt read, parentless⟩
  · have listed := (linked.agree c _).mpr link
    rw [childless] at listed
    cases listed
  · rw [alone x placed]
    intro node found
    obtain rfl : Node.ofPayload name (.container []) = node := Option.some.inj (read.symm.trans found)
    exact ⟨rfl, fun _ same => by cases same⟩
  · rw [idle.live] at member
    cases member
  · rw [alone x placed, hasLiveGeometry, read] at live
    cases live
  · rw [holds, read]
    rfl

/-! ### Runs -/

theorem idle_log (idle : Idle s) (log : DiagnosticLog) : Idle (s.setLog log) :=
  { idle with
    evaluator := ⟨idle.evaluator.functions, idle.evaluator.memo⟩
    furnished := furnished_same idle.furnished rfl }

theorem idle_globals (idle : Idle s) : Idle s.rebuildGlobals :=
  { idle with
    furnished := ⟨idle.furnished.functions, idle.furnished.fonts, idle.furnished.factories, idle.furnished.declared,
      idle.furnished.parameters⟩ }

theorem idle_preloadFont (idle : Idle s) (path : String) :
    Yields (SessionAction.preloadFont path) s fun _ after => Idle after ∧ after.schema = s.schema := by
  refine yields_get ?_
  split
  · exact yields_modify ⟨idle_log idle _, rfl⟩
  · exact yields_modify ⟨idle_log idle _, rfl⟩
  · rename_i font _ loaded
    refine yields_modify ⟨{ idle with
      fonts := Bindings.plain_put idle.fonts path (idle.furnished.fonts path font loaded)
      furnished := ⟨idle.furnished.functions, idle.furnished.fonts, idle.furnished.factories, idle.furnished.declared,
        idle.furnished.parameters⟩ }, rfl⟩

theorem idle_fonts (paths : List String) : ∀ s : Session, Idle s →
    Yields (paths.forM SessionAction.preloadFont) s fun _ after => Idle after ∧ after.schema = s.schema := by
  induction paths with
  | nil => exact fun s idle => yields_pure ⟨idle, rfl⟩
  | cons path rest ih =>
    intro s idle
    refine yields_bind (idle_preloadFont idle path) fun _ after kept => ?_
    exact yields_mono (ih after kept.1) fun _ last kept' => ⟨kept'.1, kept'.2.trans kept.2⟩

theorem confined_ofSpecs (specs : List (String × MaterialSpec)) : ∀ table (store : Store),
    Confined (fun _ => False) store (specs.foldl (fun (state : MaterialTable × Store) spec =>
      let (id, store) := state.2.createMaterial (MaterialTable.materialOf spec.1 spec.2)
      (state.1.put spec.1 id, store)) (table, store)).2 := by
  induction specs with
  | nil => exact fun _ store => confined_refl _ store
  | cons spec rest ih => exact fun _ _ => confined_trans (Place.confined_material _ _) (ih _ _)

theorem idle_adopt (idle : Idle s) {schema : Schema} (tame : schema.Tame) {parameters : Bindings}
    (plain : parameters.Plain) :
    Yields (SessionAction.adopt schema parameters) s fun _ after => Idle after ∧ after.schema = some schema := by
  refine yields_modify ⟨{ idle with
    linked := (confined_ofSpecs schema.materials [] s.scene.store).linked idle.linked
    furnished := ⟨idle.furnished.functions, idle.furnished.fonts, idle.furnished.factories, ?_, plain⟩ }, rfl⟩
  rintro _ ⟨⟩
  exact ⟨tame.globalParameters, tame.context⟩

theorem idle_normalize (idle : Idle s) {schema : Schema} (tame : schema.Tame) :
    Yields (SessionAction.normalize schema) s fun actions after =>
      Idle after ∧ after.globals = s.globals ∧ Action.allTame (Action.allStoredNames actions) actions = true := by
  refine yields_get ?_
  rcases run : (Normalize.schema s.scene.store schema).run.run s.log with ⟨failure | actions, log⟩
  · exact yields_seq fun _ _ => yields_throw
  · refine ends_bind (ends_set (yields_pure ⟨idle_log idle log, rfl, ?_⟩))
    exact tame.actions _ _ _ _ run

/-- A walk keeps the session whole. -/
theorem whole_walked (whole : Whole names root s) (walked : Walked names s.scene.store.New s s') :
    Whole names root s' := by
  have coherent := whole.coherent
  have enclosed := enclosed_new coherent.linked
  have apart : ∀ a ∈ [(root, "")], ¬ s.scene.store.New a.1 := fun a anchor =>
    Nat.not_le_of_lt (coherent.roots a anchor).1
  have same := walked.same
  refine ⟨?_, ?_, ?_, ?_, furnished_same whole.furnished (by rw [same])⟩
  · exact coherent_confined enclosed walked.scene.store coherent apart (by rw [same]) walked.scene.live
      (walked.ready coherent.ready)
  · exact accounted_confined enclosed walked.scene.store coherent.linked apart whole.accounted walked.scene.live
  · have old := walked.scene.store.old root (apart _ coherent.rooted)
    exact (holds_of_bare (bare_of_get old) bare_isContainer).trans whole.container
  · rw [same]
    exact whole.here

/-- What a walk over the actions of a schema leaves. -/
theorem whole_prepare (idle : Idle s) {schema : Schema} (tame : schema.Tame) {parameters : Bindings}
    (plain : parameters.Plain) :
    Yields (SessionAction.prepare schema parameters) s fun result after => ∃ names lo,
      Whole names result.1 after ∧ after.registry.entries = [] ∧ result.1 < lo ∧
        Blueprint.AllNested names "" result.2 ∧ Blueprint.AllLaid after.scene.store result.2 lo after.scene.store.size := by
  refine yields_bind (idle_adopt idle tame plain) ?_
  rintro _ s ⟨idle, _⟩
  refine yields_bind (idle_fonts schema.fonts s idle) ?_
  rintro _ s ⟨idle, _⟩
  refine yields_modify_bind (yields_modify_bind ?_)
  have idle := idle_globals (idle_log idle (FactoryTable.recordDefinitions schema.definitions s.log))
  have globals := plain_rebuildGlobals
    (idle_log ‹Idle s› (FactoryTable.recordDefinitions schema.definitions s.log)).furnished
  refine yields_bind (idle_normalize idle tame) ?_
  rintro actions s ⟨idle, same, tame⟩
  rw [← same] at globals
  refine yields_bind (whole_root idle (Action.allStoredNames actions) _) ?_
  rintro root after ⟨whole, new⟩
  refine yields_get ?_
  have plain : after.globals.Plain := by
    rw [new]
    exact globals
  refine yields_bind (yields_of_within (Walk.made_all plain whole.coherent.ready tame)) ?_
  rintro list last ⟨walked, made⟩
  refine yields_pure ⟨_, _, whole_walked whole walked, ?_, (whole.coherent.roots _ whole.coherent.rooted).1, made.nested,
    made.laid⟩
  rw [walked.same, new]
  exact idle.entries

theorem whole_spared (whole : Whole names root s) {K : NodeId → Prop} {paths : List String} {changed : NodeId → Prop}
    (inside : K root) (spared : Spared K paths changed s s') (coherent : Coherent names root [(root, "")] s')
    (accounted : Accounted [(root, "")] s') : Whole names root s' where
  coherent := coherent
  accounted := accounted
  container := (holds_of_bare (spared.bare root inside) bare_isContainer).trans whole.container
  here := by
    rw [spared.same]
    exact whole.here
  furnished := furnished_same whole.furnished spared.same

theorem settled_build (idle : Idle s) {schema : Schema} (tame : schema.Tame) {parameters : Bindings}
    (plain : parameters.Plain) :
    Yields (SessionAction.build schema parameters) s fun root after => ∃ names, Whole names root after := by
  refine yields_bind (whole_prepare idle tame plain) ?_
  rintro ⟨root, list⟩ s ⟨names, lo, whole, blank, low, nested, laid⟩
  have coherent := whole.coherent
  have room : Room (· = root) [(root, "")] s root "" lo s.scene.store.size :=
    { closed := upward_root coherent
      bound := by
        rintro x rfl
        exact (coherent.roots _ coherent.rooted).1
      inside := rfl
      aside := by
        rintro x rfl range
        exact Nat.not_le_of_lt low range.1
      apart := fun a anchor range => by
        rw [List.mem_singleton.mp anchor] at range
        exact Nat.not_le_of_lt low range.1
      high := Nat.le_refl _
      container := whole.container
      stands := Or.inl coherent.rooted }
  have clear : Clear (· = root) (Blueprint.allPaths list) s := fun e member => by
    rw [blank] at member
    cases member
  refine yields_bind (filled_placeAll list root "" coherent whole.accounted room laid nested clear) ?_
  exact fun _ after filled => yields_pure ⟨names, whole_spared (K := (· = root)) whole rfl filled.spared filled.coherent filled.accounted⟩

theorem whole_execute (settled : Settled s) {source : SchemaSource}
    (tame : ∀ schema, source.schema = .ok schema → schema.Tame) {parameters : Bindings} (plain : parameters.Plain) :
    Yields (SessionAction.execute source parameters) s fun root after => ∃ names, Whole names root after := by
  have idle := idle_renewed settled
  refine yields_modify_bind ?_
  split
  · rename_i schema loaded
    exact settled_build idle (tame schema loaded) plain
  · refine yields_modify_bind (yields_mono (whole_root (idle_log idle _) [] _) ?_)
    exact fun root after both => ⟨[], both.1⟩
  · exact yields_throw

/-! ### Changed parameters -/

/-- Registry and scene stay as they are when parameters and globals change. -/
theorem whole_tuned (whole : Whole names root s) (registry : s'.registry = s.registry) (scene : s'.scene = s.scene)
    (here : s'.root = s.root) (ready : Ready names s') (furnished : Furnished s') : Whole names root s' := by
  cases s
  cases s'
  cases registry
  cases scene
  cases here
  exact ⟨{ whole.coherent with ready := ready }, whole.accounted, whole.container, whole.here, furnished⟩

theorem plain_clearMemo {ev : Evaluator} (plain : ev.Plain) : ev.clearMemo.Plain where
  functions := plain.functions
  memo := fun key value found => by simp [Evaluator.clearMemo] at found

/-- A changed parameter is used by the next walk only. -/
theorem ready_setParameter (ready : Ready names s) (name : String) {value : Value} (plain : value.isPlain = true)
    (path : Option String) : Ready names (s.setParameter name value path) := by
  cases path with
  | none => exact { ready with evaluator := plain_clearMemo ready.evaluator }
  | some path =>
    refine { ready with evaluator := plain_clearMemo ready.evaluator, overrides := fun entry member => ?_ }
    rcases List.mem_cons.mp member with rfl | before
    · refine Bindings.plain_put ?_ name plain
      cases found : s.pathOverrides.lookup path with
      | none => exact Bindings.plain_nil
      | some bindings => exact ready.overrides _ (Value.lookup_mem found)
    · exact ready.overrides entry (List.mem_filter.mp before).1

theorem furnished_setParameter (furnished : Furnished s) (name : String) {value : Value} (plain : value.isPlain = true)
    (path : Option String) : Furnished (s.setParameter name value path) := by
  cases path with
  | none => exact { furnished with parameters := Bindings.plain_put furnished.parameters name plain }
  | some path => exact ⟨furnished.functions, furnished.fonts, furnished.factories, furnished.declared, furnished.parameters⟩

theorem settled_setParameter (settled : Settled s) (name : String) {value : Value} (plain : value.isPlain = true)
    (path : Option String) : Settled (s.setParameter name value path) := by
  have same : (s.setParameter name value path).registry = s.registry ∧ (s.setParameter name value path).scene = s.scene ∧
      (s.setParameter name value path).root = s.root := by
    cases path <;> exact ⟨rfl, rfl, rfl⟩
  obtain ⟨registry, scene, here⟩ := same
  rcases settled with ⟨idle, none⟩ | ⟨names, root, whole⟩
  · refine Or.inl ⟨?_, here.trans none⟩
    exact
      { ready_setParameter idle.toReady name plain path with
        furnished := furnished_setParameter idle.furnished name plain path
        entries := registry ▸ idle.entries
        live := scene ▸ idle.live }
  · exact Or.inr ⟨names, root, whole_tuned whole registry scene here
      (ready_setParameter whole.coherent.ready name plain path) (furnished_setParameter whole.furnished name plain path)⟩

end

end ProceduralScene
