import ProceduralScene.Proofs.Leaves
import ProceduralScene.Proofs.Memo

/-!
A material that was looked up once is found again. The evaluator remembers the value of every text, colors that were
made on first use stay in the table, and no name in the table ever comes to mean something else.
-/

set_option autoImplicit false

namespace ProceduralScene

namespace Evaluator

/-- All values that are remembered before are remembered after. -/
def Recalls (before after : Evaluator) : Prop :=
  ∀ (key : String × String) (value : Value), before.memo[key]? = some value → after.memo[key]? = some value

theorem recalls_learn (ev : Evaluator) {nodeText : NodeText} {text context : String} {symbols : Bindings}
    {path : Option String} (unknown : ev.memo[(text, context)]? = none) :
    Recalls ev (ev.learn nodeText text context symbols path).2 := by
  intro key value found
  rw [(learn_keeps ev nodeText text context symbols path).2, Std.HashMap.getElem?_insert]
  split
  · rename_i same
    rw [← eq_of_beq same, unknown] at found
    cases found
  · exact found

/-- The value of a text is there to be found afterwards. -/
theorem remembered_evaluate {nodeText : NodeText} {text context : String} {ctx : Context} (path : Option String)
    (written : contextText nodeText ctx.flatten = .ok context) (ev : Evaluator) :
    ∃ value after, (evaluate nodeText (.text text) ctx path).run.run ev = (.ok value, after) ∧ Recalls ev after ∧
      after.memo[(text, context)]? = some value := by
  rw [run_evaluate, written]
  dsimp only
  cases known : ev.memo[(text, context)]? with
  | some value => exact ⟨value, ev, rfl, fun _ _ found => found, known⟩
  | none =>
    refine ⟨_, _, rfl, recalls_learn ev known, ?_⟩
    rw [(learn_keeps ev nodeText text context ctx.flatten path).2, Std.HashMap.getElem?_insert, if_pos (beq_self_eq_true _)]

/-- What a label becomes when names are put in depends on the names alone; only the log is written. -/
theorem interpolate_result (nodeText : NodeText) (label : String) (symbols : Bindings) (path : Option String)
    (text : List Char) : ∀ skip, ∃ result, ∀ ev : Evaluator, ∃ log,
      (interpolate nodeText label symbols path skip text).run.run ev = (result, { ev with log := log }) := by
  induction text with
  | nil =>
    intro skip
    exact ⟨.ok [], fun ev => ⟨ev.log, by cases skip <;> rfl⟩⟩
  | cons c rest ih =>
    intro skip
    cases skip with
    | succ skip => exact ih skip
    | zero =>
      -- what is put before the rest
      have further : ∀ (front : List Char) (skip : Nat), ∃ result, ∀ ev : Evaluator, ∃ log,
          (do return front ++ (← interpolate nodeText label symbols path skip rest) : Evaluation (List Char)).run.run ev =
            (result, { ev with log := log }) := by
        intro front skip
        obtain ⟨result, same⟩ := ih skip
        refine ⟨result.map (front ++ ·), fun ev => ?_⟩
        obtain ⟨log, run⟩ := same ev
        refine ⟨log, ?_⟩
        simp only [ExceptT.run_bind, StateT.run_bind]
        rw [run]
        cases result <;> rfl
      rw [interpolate]
      dsimp only
      split
      · exact further [c] 0
      · rename_i name skip _
        cases symbols.get? (String.ofList name) with
        | some value =>
          dsimp only
          cases value.joinedText nodeText with
          | error failure => exact ⟨.error failure, fun ev => ⟨ev.log, rfl⟩⟩
          | ok text => exact further text.toList name.length
        | none =>
          obtain ⟨result, same⟩ := further (c :: name) name.length
          exact ⟨result, fun ev => same { ev with log := _ }⟩

/-- A label that renders whatever the evaluator remembers, and to the same value however nodes are shown. -/
def Legible (label : Value) (ctx : Context) (path : Option String) : Prop :=
  ∀ (store store' : Store) (ev : Evaluator),
    (render store.describe label ctx path).run.run ev = (render store'.describe label ctx path).run.run ev ∧
      ((render store.describe label ctx path).run.run ev).1.toBool = true

/-- Once a label was rendered it renders to the same value as long as nothing is forgotten. -/
theorem render_again {text : String} {ctx : Context} {path : Option String} (legible : Legible (.text text) ctx path)
    (store : Store) (ev : Evaluator) :
    ∃ value after, (render store.describe (.text text) ctx path).run.run ev = (.ok value, after) ∧ Recalls ev after ∧
      ∀ (store' : Store) (later : Evaluator), Recalls after later →
        ((render store'.describe (.text text) ctx path).run.run later).1 = .ok value := by
  have again : ∀ (store' : Store) (later : Evaluator), ((render store'.describe (.text text) ctx path).run.run later).1 =
      ((render store.describe (.text text) ctx path).run.run later).1 := fun store' later => by
    rw [(legible store' store later).1]
  have succeeds := (legible store store ev).2
  simp only [again]
  clear again legible
  unfold render at succeeds ⊢
  dsimp only at succeeds ⊢
  split
  · rename_i computed
    rw [if_pos computed] at succeeds
    cases written : contextText store.describe ctx.flatten with
    | error failure =>
      rw [run_evaluate, written] at succeeds
      cases succeeds
    | ok context =>
      obtain ⟨value, after, run, kept, known⟩ := remembered_evaluate path written ev
      refine ⟨value, after, run, kept, fun _ later recalls => ?_⟩
      rw [run_evaluate, written]
      dsimp only
      rw [recalls _ _ known]
  · rename_i plain
    rw [if_neg plain] at succeeds
    split
    · exact ⟨_, ev, rfl, fun _ _ found => found, fun _ _ _ => rfl⟩
    · rename_i named
      rw [if_neg named] at succeeds
      obtain ⟨result, same⟩ := interpolate_result store.describe text ctx.flatten path text.toList 0
      cases result with
      | error failure =>
        obtain ⟨log, run⟩ := same ev
        simp only [ExceptT.run_bind, StateT.run_bind, run] at succeeds
        cases succeeds
      | ok cs =>
        have run : ∀ ev : Evaluator, ∃ log, (do return Value.text (String.ofList
              (← interpolate store.describe text ctx.flatten path 0 text.toList)) : Evaluation Value).run.run ev =
            (.ok (.text (String.ofList cs)), { ev with log := log }) := by
          intro ev
          obtain ⟨log, run⟩ := same ev
          refine ⟨log, ?_⟩
          simp only [ExceptT.run_bind, StateT.run_bind, run]
          rfl
        obtain ⟨log, first⟩ := run ev
        refine ⟨_, _, first, fun _ _ found => found, fun _ later _ => ?_⟩
        obtain ⟨_, second⟩ := run later
        rw [second]

end Evaluator

namespace MaterialTable

/-- Names keep their materials, and only colors are added. -/
structure Grows (before after : MaterialTable) : Prop where
  kept : ∀ name id, before.lookup name = some id → after.lookup name = some id
  colors : ∀ name, isColor name = false → after.lookup name = before.lookup name

theorem grows_refl (table : MaterialTable) : Grows table table := ⟨fun _ _ found => found, fun _ _ => rfl⟩

theorem grows_trans {first second third : MaterialTable} (before : Grows first second) (after : Grows second third) :
    Grows first third :=
  ⟨fun name id found => after.kept name id (before.kept name id found),
    fun name other => (after.colors name other).trans (before.colors name other)⟩

theorem lookup_put (name other : String) (id : MaterialId) (table : MaterialTable) :
    (table.put name id).lookup other = if other = name then some id else table.lookup other := by
  induction table with
  | nil =>
    by_cases same : other = name
    · simp [put, same]
    · simp [put, List.lookup_cons, same, beq_eq_false_iff_ne.mpr same]
  | cons entry rest ih =>
    obtain ⟨found, old⟩ := entry
    rw [put]
    by_cases here : found = name
    · subst here
      by_cases same : other = found
      · simp [same]
      · simp [List.lookup_cons, same, beq_eq_false_iff_ne.mpr same]
    · rw [if_neg (by simpa using here), List.lookup_cons, List.lookup_cons, ih]
      by_cases same : other = found
      · subst same
        simp [here]
      · simp [beq_eq_false_iff_ne.mpr same]

theorem grows_put {name : String} {table : MaterialTable} (unknown : table.lookup name = none)
    (color : isColor name = true) (id : MaterialId) : Grows table (table.put name id) := by
  constructor
  · intro other old found
    rw [lookup_put, if_neg, found]
    rintro rfl
    rw [unknown] at found
    cases found
  · intro other plain
    rw [lookup_put, if_neg]
    rintro rfl
    rw [color] at plain
    cases plain

theorem default_grows {before after : MaterialTable} (grows : Grows before after) : after.default = before.default := by
  rw [default, default, grows.colors "default" (by decide)]

/-- A value that named a material names it still when the table has grown. -/
theorem get_again (value : Value) (table : MaterialTable) (store : Store) :
    ∃ id after store', table.get value store = (id, after, store') ∧ Grows table after ∧
      (store' = store ∨ ∃ material, store' = (store.createMaterial material).2) ∧
      ∀ (later : MaterialTable) (other : Store), Grows after later → (later.get value other).1 = id := by
  have unnamed : ∀ later : MaterialTable, Grows table later → later.default = table.default := fun later grows =>
    default_grows grows
  cases value with
  | text name =>
    unfold get
    dsimp only
    cases known : table.lookup name with
    | some id =>
      refine ⟨id, table, store, rfl, grows_refl table, .inl rfl, fun later other grows => ?_⟩
      rw [grows.kept name id known]
    | none =>
      dsimp only
      split
      · rename_i color
        refine ⟨_, _, _, rfl, grows_put known color _, .inr ⟨_, rfl⟩, fun later other grows => ?_⟩
        rw [grows.kept name _ (by rw [lookup_put, if_pos rfl])]
      · rename_i plain
        refine ⟨_, table, store, rfl, grows_refl table, .inl rfl, fun later other grows => ?_⟩
        rw [grows.colors name (by simpa using plain), known]
        dsimp only
        exact default_grows grows
  | _ => exact ⟨_, table, store, rfl, grows_refl table, .inl rfl, fun later _ grows => default_grows grows⟩

end MaterialTable

/-- Nothing that was learnt about materials is forgotten. -/
structure Session.Recalls (before after : Session) : Prop where
  evaluator : before.evaluator.Recalls after.evaluator
  materials : before.materials.Grows after.materials

theorem recalls_refl (s : Session) : s.Recalls s := ⟨fun _ _ found => found, MaterialTable.grows_refl _⟩

/-- Neither the scene nor the registry matters. -/
theorem recalls_elsewhere (s : Session) (registry : Registry Blueprint) (scene : Scene) :
    s.Recalls { s with registry := registry, scene := scene } := ⟨fun _ _ found => found, MaterialTable.grows_refl _⟩

theorem recalls_trans {first second third : Session} (before : first.Recalls second) (after : second.Recalls third) :
    first.Recalls third :=
  ⟨fun key value found => after.evaluator key value (before.evaluator key value found),
    MaterialTable.grows_trans before.materials after.materials⟩

/-- The material of a blueprint renders, however nodes are shown. -/
def Blueprint.LegibleMaterial (b : Blueprint) : Prop :=
  ∀ text, b.material = .text text → Evaluator.Legible (.text text) b.context (some b.path)

/-- The material that a blueprint asks for from now on. -/
def Session.Tints (s : Session) (b : Blueprint) (material : MaterialId) : Prop :=
  ∀ later, s.Recalls later → Returns (Place.materialOf b) later fun found _ => found = material

namespace Place

open Store

/-- A material was looked up, and nothing else happened. -/
structure Tinted (b : Blueprint) (material : MaterialId) (s after : Session) : Prop where
  recalls : s.Recalls after
  registry : after.registry = s.registry
  live : after.scene.live = s.scene.live
  confined : Confined (fun _ => False) s.scene.store after.scene.store
  tints : after.Tints b material

theorem returns_takeMaterial (value : Value) (s : Session) : Returns (takeMaterial value) s fun material after =>
    s.Recalls after ∧ after.registry = s.registry ∧ after.scene.live = s.scene.live ∧
      Confined (fun _ => False) s.scene.store after.scene.store ∧
      ∀ later : Session, after.Recalls later → Returns (takeMaterial value) later fun found _ => found = material := by
  apply returns_modifyGet
  obtain ⟨material, table, store, got, grows, made, again⟩ := MaterialTable.get_again value s.materials s.scene.store
  rw [got]
  refine ⟨⟨fun _ _ found => found, grows⟩, rfl, rfl, ?_, fun later recalls => ?_⟩
  · rcases made with rfl | ⟨new, rfl⟩
    · exact confined_refl _ _
    · exact confined_material new s.scene.store
  · exact returns_modifyGet (again later.materials later.scene.store recalls.materials)

theorem materialOf_text {b : Blueprint} {text : String} (named : b.material = .text text) : materialOf b = (do
    let value ← SessionAction.render (.text text) b.context (some b.path)
    takeMaterial value) := by
  unfold materialOf
  rw [named]

theorem materialOf_value {b : Blueprint} (named : ∀ text, b.material ≠ .text text) :
    materialOf b = takeMaterial b.material := by
  unfold materialOf
  cases value : b.material with
  | text text => exact absurd value (named text)
  | _ => rfl

/-- A label of a session renders to the same value later. -/
theorem returns_render {text : String} {ctx : Context} {path : Option String}
    (legible : Evaluator.Legible (.text text) ctx path) (s : Session) :
    Returns (SessionAction.render (.text text) ctx path) s fun value after =>
      after = { s with evaluator := after.evaluator } ∧ s.evaluator.Recalls after.evaluator ∧
        ∀ later : Session, after.evaluator.Recalls later.evaluator →
          Returns (SessionAction.render (.text text) ctx path) later fun found after =>
            found = value ∧ after = { later with evaluator := after.evaluator } ∧
              later.evaluator.Recalls after.evaluator := by
  obtain ⟨value, evaluator, run, kept, again⟩ := Evaluator.render_again legible s.scene.store s.evaluator
  refine returns_get (SessionAction.returns_onEvaluator (returns_of_run run ⟨rfl, kept, fun later recalls => ?_⟩))
  obtain ⟨found, last, run', kept', _⟩ := Evaluator.render_again legible later.scene.store later.evaluator
  refine returns_get (SessionAction.returns_onEvaluator (returns_of_run run' ⟨?_, rfl, kept'⟩))
  have same := again later.scene.store later.evaluator recalls
  rw [run'] at same
  exact Except.ok.inj same

/-- The material of a blueprint is found, and it is found again later. -/
theorem returns_materialOf {b : Blueprint} (legible : b.LegibleMaterial) (s : Session) :
    Returns (materialOf b) s fun material after => Tinted b material s after := by
  by_cases named : ∃ text, b.material = .text text
  · obtain ⟨text, named⟩ := named
    rw [materialOf_text named]
    refine returns_bind (returns_render (legible text named) s) ?_
    rintro value middle ⟨same, kept, again⟩
    refine returns_mono (returns_takeMaterial value middle) ?_
    rintro material after ⟨recalls, registry, live, confined, found⟩
    have before : s.Recalls middle := ⟨kept, by rw [same]; exact MaterialTable.grows_refl _⟩
    refine ⟨recalls_trans before recalls, registry.trans (by rw [same]), live.trans (by rw [same]), ?_, ?_⟩
    · rw [same] at confined
      exact confined
    · intro later later'
      rw [materialOf_text named]
      refine returns_bind (again later (recalls_trans recalls later').evaluator) ?_
      rintro _ last ⟨rfl, same', kept'⟩
      have grown : later.Recalls last := ⟨kept', by rw [same']; exact MaterialTable.grows_refl _⟩
      exact found last (recalls_trans later' grown)
  · have other : ∀ text, b.material ≠ .text text := fun text same => named ⟨text, same⟩
    rw [materialOf_value other]
    refine returns_mono (returns_takeMaterial b.material s) ?_
    rintro material after ⟨recalls, registry, live, confined, found⟩
    refine ⟨recalls, registry, live, confined, fun later later' => ?_⟩
    rw [materialOf_value other]
    exact found later later'

end Place

end ProceduralScene
