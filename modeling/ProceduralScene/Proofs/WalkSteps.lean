import ProceduralScene.Build.Walk
import ProceduralScene.Proofs.Blueprints

/-!
Steps of a walk, and how the blueprints of one step go together with those of the next.
-/

set_option autoImplicit false

namespace ProceduralScene

open Store

/-- Blueprints made from a state on, with their nodes among those that are new since then. -/
structure Made (names : List String) (scope : String) (s : Session) (list : List Blueprint) (after : Session) : Prop where
  nested : Blueprint.AllNested names scope list
  laid : Blueprint.AllLaid after.scene.store list s.scene.store.size after.scene.store.size

/-- A walk among siblings that does no more than `Walked`, whatever names the siblings have. -/
def WalkWithin {α : Type} (names : List String) (free : NodeId → Prop) (walk : Walk α) (s : Session)
    (post : α → Session → Prop) : Prop :=
  ∀ siblings, Within (Walked names free) (walk siblings) s fun result after => post result.1 after

section

variable {names : List String} {free : NodeId → Prop} {s s' : Session} {α β : Type}

theorem walk_pure {value : α} {post : α → Session → Prop} (holds : post value s) :
    WalkWithin names free (pure value) s post := fun _ => within_pure (steady_walked names free) holds

theorem walk_bind {walk : Walk α} {next : α → Walk β} {middle : α → Session → Prop} {post : β → Session → Prop}
    (first : WalkWithin names free walk s middle)
    (rest : ∀ value after, Walked names free s after → middle value after → WalkWithin names free (next value) after post) :
    WalkWithin names free (walk >>= next) s post := by
  intro siblings
  refine within_bind (steady_walked names free) (first siblings) ?_
  rintro ⟨value, siblings'⟩ after walked holds
  exact rest value after walked holds siblings'

theorem walk_seq {walk : Walk α} {next : α → Walk β} {post : β → Session → Prop}
    (first : WalkWithin names free walk s fun _ _ => True)
    (rest : ∀ value after, Walked names free s after → WalkWithin names free (next value) after post) :
    WalkWithin names free (walk >>= next) s post :=
  walk_bind first fun value after walked _ => rest value after walked

theorem walk_lift {action : SessionAction α} {post : α → Session → Prop}
    (body : Within (Walked names free) action s post) : WalkWithin names free (liftM action : Walk α) s post :=
  fun _ => within_bind (steady_walked names free) body fun _ _ _ holds => within_pure (steady_walked names free) holds

theorem walk_pure_bind {value : α} {next : α → Walk β} {post : β → Session → Prop}
    (rest : WalkWithin names free (next value) s post) : WalkWithin names free (pure value >>= next) s post :=
  fun siblings => within_pure_bind (rest siblings)

theorem walk_reads {action : SessionAction α} {next : α → Walk β} {post : β → Session → Prop} (reads : Reads action)
    (rest : ∀ value, WalkWithin names free (next value) s post) : WalkWithin names free (liftM action >>= next) s post := by
  refine walk_bind (walk_lift (SessionAction.walked_reads reads)) ?_
  rintro value _ _ rfl
  exact rest value

theorem walk_throw {failure : Failure} {post : α → Session → Prop} :
    WalkWithin names free (throw failure : Walk α) s post :=
  fun _ => within_throw (steady_walked names free)

theorem walk_claim (name : String) : WalkWithin names free (Walk.claim name) s fun _ _ => True :=
  fun _ => within_pure (steady_walked names free) trivial

theorem walk_mono {more : NodeId → Prop} {walk : Walk α} {post post' : α → Session → Prop}
    (within : WalkWithin names free walk s post) (wider : ∀ id, free id → more id)
    (implies : ∀ value after, Walked names free s after → post value after → post' value after) :
    WalkWithin names more walk s post' :=
  fun siblings => within_mono (within siblings) (fun _ walked => walked_mono wider walked) fun value after => implies value.1 after

theorem walk_inside {walk : Walk α} {post : α → Session → Prop} (within : WalkWithin names free walk s post) :
    Within (Walked names free) (Walk.inside walk) s post := within_map (within [])

/-! ### Intervals while a walk goes on -/

theorem enclosed_range_mono {store store' : Store} (linked : Linked store) (confined : Confined store.New store store')
    {lo hi : Nat} (bound : hi ≤ store.size) (enclosed : Enclosed store (Range lo hi)) : Enclosed store' (Range lo hi) := by
  intro child parent link
  have linked' := confined.linked linked
  have apart := enclosed_confined linked (enclosed_new linked) confined child parent link
  by_cases old : store.New child
  · have oldParent := apart.mp old
    have high : ∀ id, store.New id → ¬ Range lo hi id := fun id fresh inside =>
      Nat.not_lt_of_ge (bound.trans fresh) inside.2
    exact ⟨fun inside => absurd inside (high child old), fun inside => absurd inside (high parent oldParent)⟩
  · rw [parent_of_get (confined.old child old)] at link
    exact enclosed child parent link

/-- What a walk made before keeps its interval while the walk goes on. -/
theorem allLaid_walked {list : List Blueprint} {lo : Nat} (linked : Linked s.scene.store)
    (walked : Walked names s.scene.store.New s s')
    (laid : Blueprint.AllLaid s.scene.store list lo s.scene.store.size) :
    Blueprint.AllLaid s'.scene.store list lo s.scene.store.size := by
  refine Blueprint.allLaid_mono walked.scene.store.size list ?_ ?_ laid
  · exact fun lo' hi' _ high enclosed => enclosed_range_mono linked walked.scene.store high enclosed
  · intro id inside pristine node found
    rw [walked.scene.store.old id (Nat.not_le_of_lt inside.2)] at found
    exact pristine node found

/-- Whatever is new at the end of a walk lies apart. -/
theorem apart_new {base : Session} (ready : Ready names base) (walked : Walked names base.scene.store.New base s) :
    Apart s.scene.store base.scene.store.size s.scene.store.size where
  ordered := walked.scene.store.size
  enclosed := by
    have opened := open_walked (open_new ready) walked
    intro child parent link
    have apart := opened.enclosed child parent link
    exact and_congr apart ⟨fun _ => parent_exists opened.ready.linked link, fun _ => parent_lt link⟩
  pristine id inside := confined_fresh walked.scene.store id inside.1

theorem among_range {base : Session} {value : Value}
    (among : value.Among base.scene.store.New s.scene.store) :
    value.Among (Range base.scene.store.size s.scene.store.size) s.scene.store :=
  fun id member => ⟨among id member, (among id member).2⟩

theorem new_mono (walked : Walked names s.scene.store.New s s') (id : NodeId) (fresh : s'.scene.store.New id) :
    s.scene.store.New id := walked.scene.store.size.trans fresh

/-- A walk goes on where another ended. -/
theorem walked_later {middle : Session} (before : Walked names s.scene.store.New s middle)
    (after : Walked names middle.scene.store.New middle s') : Walked names s.scene.store.New s s' :=
  (steady_walked names _).trans before (walked_mono (new_mono before) after)

theorem made_nil (ready : Ready names s) (walked : Walked names s.scene.store.New s s') (scope : String) :
    Made names scope s [] s' := by
  refine ⟨trivial, ?_⟩
  rw [Blueprint.AllLaid]
  exact apart_new ready walked

theorem made_append {scope : String} {middle : Session} {first rest : List Blueprint} (linked : Linked middle.scene.store)
    (here : Made names scope s first middle) (walked : Walked names middle.scene.store.New middle s')
    (later : Made names scope middle rest s') : Made names scope s (first ++ rest) s' :=
  ⟨Blueprint.allNested_append first rest here.nested later.nested,
    Blueprint.allLaid_append first rest (allLaid_walked linked walked here.laid) later.laid⟩

/-- A list of walks, each of which makes some blueprints. -/
theorem walk_mapM_made {scope : String} {step : α → Walk β} (blueprints : β → List Blueprint) (items : List α)
    (each : ∀ item ∈ items, ∀ s, Ready names s → WalkWithin names s.scene.store.New (step item) s
      fun value after => Made names scope s (blueprints value) after) :
    ∀ s, Ready names s → WalkWithin names s.scene.store.New (items.mapM step) s
      fun values after => Made names scope s (values.flatMap blueprints) after := by
  induction items with
  | nil => exact fun s ready => walk_pure (made_nil ready ((steady_walked names _).refl s) scope)
  | cons item rest ih =>
    intro s ready
    rw [List.mapM_cons]
    refine walk_bind (each item (by simp) s ready) fun value middle walked here => ?_
    have ready' := walked.ready ready
    have others := ih (fun item member => each item (by simp [member])) middle ready'
    refine walk_bind (walk_mono others (new_mono walked) fun values after further later => And.intro further later) ?_
    rintro values last _ ⟨further, later⟩
    exact walk_pure (made_append ready'.linked here further later)

end

end ProceduralScene
