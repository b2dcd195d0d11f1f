import ProceduralScene.Build.Parameter
import ProceduralScene.Proofs.Builders
import ProceduralScene.Proofs.PlainExpression

/-!
What the steps of a walk do to a session. A walk evaluates, calls factories and stores results; it places nothing, and
all nodes that were there before stay as they are.
-/

set_option autoImplicit false

namespace ProceduralScene

open Store

/-- A session from which a walk can start: everything that values come from is plain, results are stored under
`names` only, and the factories are sound. -/
structure Ready (names : List String) (s : Session) : Prop where
  linked : Linked s.scene.store
  evaluator : s.evaluator.Plain
  factories : s.factories.Sound
  fonts : s.fonts.Plain
  overrides : ∀ entry ∈ s.pathOverrides, Bindings.Plain entry.2
  stored : ∀ entry ∈ s.stored, entry.1 ∈ names

/-- A ready session with a part of its scene set free: an enclosed set of nodes with all those to come. -/
structure Open (names : List String) (free : NodeId → Prop) (s : Session) : Prop where
  ready : Ready names s
  enclosed : Enclosed s.scene.store free
  wide : ∀ id, s.scene.store.New id → free id

/-- Only the evaluator, the stored results and free nodes change. -/
structure Walked (names : List String) (free : NodeId → Prop) (s s' : Session) : Prop where
  same : s' = { s with evaluator := s'.evaluator, scene := s'.scene, stored := s'.stored }
  scene : SceneConfined free s.scene s'.scene
  ready : Ready names s → Ready names s'

section

variable {names : List String} {free : NodeId → Prop} {s s' : Session}

theorem steady_walked (names : List String) (free : NodeId → Prop) : Steady (Walked names free) where
  refl s := ⟨rfl, (steady_confined free).refl s.scene, id⟩
  trans {a b c} first second := by
    refine ⟨?_, (steady_confined free).trans first.scene second.scene, fun ready => second.ready (first.ready ready)⟩
    rw [second.same, first.same]

theorem open_new (ready : Ready names s) : Open names s.scene.store.New s :=
  ⟨ready, enclosed_new ready.linked, fun _ fresh => fresh⟩

theorem open_walked (opened : Open names free s) (walked : Walked names free s s') : Open names free s' where
  ready := walked.ready opened.ready
  enclosed := enclosed_confined opened.ready.linked opened.enclosed walked.scene.store
  wide id fresh := opened.wide id (walked.scene.store.size.trans fresh)

theorem walked_mono {more : NodeId → Prop} (wider : ∀ id, free id → more id) (walked : Walked names free s s') :
    Walked names more s s' := ⟨walked.same, scene_confined_mono wider walked.scene, walked.ready⟩

theorem among_walked {value : Value} (walked : Walked names free s s') (among : value.Among free s.scene.store) :
    value.Among free s'.scene.store := among_mono (fun _ inside => inside) walked.scene.store.size among

end

namespace SessionAction

variable {names : List String} {free : NodeId → Prop} {s : Session} {α β : Type}

theorem reads_lift (result : Except Failure α) : Reads (lift result) := by
  unfold lift
  exact reads_except result

theorem reads_store : Reads store := reads_bind reads_get fun _ => reads_pure _

theorem reads_plainText (value : Value) : Reads (plainText value) :=
  reads_bind reads_store fun _ => reads_lift _

theorem reads_shown (value : Value) : Reads (shown value) :=
  reads_bind reads_store fun _ => reads_lift _

/-- Reading is a step of every walk. -/
theorem walked_reads {action : SessionAction α} (reads : Reads action) :
    Within (Walked names free) action s fun _ after => after = s := by
  refine ends_mono (reads s) ?_ ?_
  · rintro value _ ⟨rfl, _⟩
    exact ⟨(steady_walked names free).refl s, rfl⟩
  · rintro _ rfl
    exact (steady_walked names free).refl s

theorem walked_lift {result : Except Failure α} :
    Within (Walked names free) (lift result) s fun value after => result = .ok value ∧ after = s := by
  unfold lift
  exact within_match_except (steady_walked names free) fun value same => ⟨same, rfl⟩

theorem walked_onEvaluator {action : Evaluation α} {good : α → Prop}
    (body : Within Evaluator.Kept action s.evaluator fun value _ => good value) :
    Within (Walked names free) (onEvaluator action) s fun value after => good value ∧ after.scene = s.scene := by
  have walked : ∀ evaluator, Evaluator.Kept s.evaluator evaluator →
      Walked names free s { s with evaluator := evaluator } := fun evaluator kept =>
    { same := rfl
      scene := (steady_confined free).refl s.scene
      ready := fun ready =>
        { ready with evaluator := Evaluator.plain_kept kept ready.evaluator } }
  refine ends_onEvaluator (ends_mono body ?_ ?_)
  · exact fun value evaluator both => ⟨walked evaluator both.1, both.2, rfl⟩
  · exact fun evaluator kept => walked evaluator kept

theorem walked_onScene {action : SceneAction α} {post : α → Scene → Prop}
    (body : Within (SceneConfined free) action s.scene post) :
    Within (Walked names free) (onScene action) s fun value after => post value after.scene := by
  have walked : ∀ scene, SceneConfined free s.scene scene → Walked names free s { s with scene := scene } :=
    fun scene confined => ⟨rfl, confined, fun ready => { ready with linked := confined.store.linked ready.linked }⟩
  refine ends_onScene (ends_mono body ?_ ?_)
  · exact fun value scene both => ⟨walked scene both.1, both.2⟩
  · exact fun scene confined => walked scene confined

theorem walked_record (code text : String) (path : Option String) :
    Within (Walked names free) (record code text path) s fun _ after => after.scene = s.scene :=
  within_modify ⟨rfl, (steady_confined free).refl s.scene, fun ready =>
    { ready with evaluator := ⟨ready.evaluator.functions, ready.evaluator.memo⟩ }⟩ rfl

theorem walked_evaluate (opened : Open names free s) {expression : Value} (plainExpression : expression.isPlain = true)
    {ctx : Context} (plain : ctx.Plain) (path : Option String) :
    Within (Walked names free) (evaluate expression ctx path) s
      fun value after => Value.isPlain value = true ∧ after.scene = s.scene :=
  within_reads (steady_walked names free) reads_store fun _ =>
    walked_onEvaluator (Evaluator.plain_evaluate _ plainExpression plain path _ opened.ready.evaluator)

/-- Evaluation of any value, plain or not. -/
theorem walked_evaluateAny (opened : Open names free s) (expression : Value) {ctx : Context} (plain : ctx.Plain)
    (path : Option String) : Within (Walked names free) (evaluate expression ctx path) s fun _ _ => True :=
  within_reads (steady_walked names free) reads_store fun _ =>
    within_weaken (walked_onEvaluator
      (Evaluator.kept_evaluate _ expression plain path _ opened.ready.evaluator)) fun _ _ _ _ => trivial

theorem walked_render (opened : Open names free s) (label : Value) {ctx : Context} (plain : ctx.Plain)
    (path : Option String) : Within (Walked names free) (render label ctx path) s fun _ _ => True :=
  within_reads (steady_walked names free) reads_store fun _ =>
    within_weaken (walked_onEvaluator
      (Evaluator.kept_render _ label plain path _ opened.ready.evaluator)) fun _ _ _ _ => trivial

/-- A failing factory leaves only free nodes behind. -/
theorem walked_runFactory (opened : Open names free s) {name : String} {factory : Factory}
    (sound : FactoryTable.SoundEntry name factory) (params : Value) (announce path : String)
    (among : name = "group" → Factory.ChildrenAmong free s.scene.store params) :
    Within (Walked names free) (runFactory name factory params announce path) s
      fun value after => Value.Among free after.scene.store value := by
  have body := FactoryTable.invoke_confined sound params opened.ready.linked opened.enclosed opened.wide among
  refine within_bind (steady_walked names free) (within_attempt (walked_onScene body)) fun result after _ good => ?_
  split
  · exact within_pure (steady_walked names free) (good _ rfl)
  · refine within_seq (steady_walked names free)
      (within_weaken (walked_record _ _ _) fun _ _ _ _ => trivial) fun _ last _ => ?_
    exact within_pure (steady_walked names free) fun id member => by cases member

theorem findFactory_sound (sound : s.factories.Sound) (name : Value) :
    Within (· = ·) (findFactory name) s fun entry _ => name = .text entry.1 ∧ FactoryTable.SoundEntry entry.1 entry.2 := by
  refine within_get ?_
  unfold lift
  exact within_match_except steady_eq fun entry found => FactoryTable.find_sound sound found

theorem walked_factoryOrRecord (opened : Open names free s) (name : Value) (announce path : String) :
    Within (Walked names free) (factoryOrRecord name announce path) s fun found after =>
      after.scene = s.scene ∧ ∀ entry, found = some entry → name = .text entry.1 ∧ FactoryTable.SoundEntry entry.1 entry.2 := by
  have body : Within (Walked names free) (attempt (findFactory name)) s fun result after =>
      after = s ∧ ∀ entry, result = .ok entry → name = .text entry.1 ∧ FactoryTable.SoundEntry entry.1 entry.2 := by
    refine ends_attempt (ends_mono (findFactory_sound opened.ready.factories name) ?_ ?_)
    · rintro entry _ ⟨rfl, good⟩
      exact ⟨(steady_walked names free).refl s, rfl, fun found same => by cases same; exact good⟩
    · rintro _ rfl failure
      exact ⟨(steady_walked names free).refl s, rfl, fun _ same => by cases same⟩
  refine within_bind (steady_walked names free) body ?_
  rintro result after _ ⟨same, good⟩
  rw [same]
  split
  · exact within_pure (steady_walked names free) ⟨rfl, fun entry found => by cases found; exact good _ rfl⟩
  · split
    · refine within_bind (steady_walked names free) (walked_record _ _ _) fun _ last _ kept => ?_
      exact within_pure (steady_walked names free) ⟨kept, fun _ same => by cases same⟩
    · exact within_throw (steady_walked names free)

end SessionAction

end ProceduralScene
