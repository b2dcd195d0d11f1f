import ProceduralScene.Proofs.PlainPlacement
import ProceduralScene.Proofs.WalkSteps

/-!
What a walk over tame actions does: it leaves the scene that it finds alone, and the nodes that it makes belong to one
blueprint each.
-/

set_option autoImplicit false

namespace ProceduralScene

open Store

/-- What a blueprint was made from, and a scope in which it can be made again. -/
structure Framed (source : Action) (index : Option Nat) (path name : String) (content : BlueprintContent)
    (children : List Blueprint) (b : Blueprint) : Prop where
  path : b.path = path
  name : b.name = name
  content : b.content = content
  children : b.children = children
  source : b.source = source
  index : b.instanceIndex = index
  context : b.context.Plain
  scope : ∀ layer ∈ b.scope, Bindings.Plain layer

theorem Framed.anchored {source : Action} {index : Option Nat} {path name : String} {content : BlueprintContent}
    {children : List Blueprint} {b : Blueprint} (framed : Framed source index path name content children b) (anchor : Bool) :
    Framed source index path name content children { b with anchor := anchor } := { framed with }

theorem Framed.numbered {source : Action} {index : Option Nat} {path name : String} {content : BlueprintContent}
    {children : List Blueprint} {b : Blueprint} (framed : Framed source index path name content children b) (number : Nat)
    (place : Value) :
    Framed source (some number) path name content children { b with position := place, instanceIndex := some number } :=
  { framed with index := rfl }

theorem Framed.painted {source : Action} {index : Option Nat} {path name : String} {content : BlueprintContent}
    {children : List Blueprint} {b : Blueprint} (framed : Framed source index path name content children b)
    (material : Value) : Framed source index path name content children { b with material := material } := { framed with }

namespace Walk

open SessionAction

theorem reads_shift (position : Vec3) (offset : Value) : Reads (shift position offset) := by
  unfold shift
  split
  · refine reads_bind (reads_mapM _ fun pair _ => ?_) fun sums => reads_pure _
    exact reads_bind (reads_lift _) fun _ => reads_pure _
  · exact reads_pure _

theorem plain_counterValue (x : Float) : (counterValue x).isPlain = true := by
  unfold counterValue
  split
  · split <;> rfl
  · rfl

variable {names : List String} {free : NodeId → Prop} {s s' : Session}

theorem made_extend {scope : String} {first last : Session} {list : List Blueprint} (ready : Ready names s)
    (before : Walked names s.scene.store.New s first) (made : Made names scope first list last)
    (walked : Walked names first.scene.store.New first last) (after : Walked names last.scene.store.New last s') :
    Made names scope s list s' :=
  have ready' := walked.ready (before.ready ready)
  have whole := apart_new ready (walked_later (walked_later before walked) after)
  ⟨made.nested, Blueprint.allLaid_lower whole before.scene.store.size
    (Blueprint.allLaid_upper list (apart_new ready' after) (allLaid_walked ready'.linked after made.laid))⟩

theorem framed_nested {source : Action} {index : Option Nat} {scope name : String} {content : BlueprintContent}
    {children : List Blueprint} {b : Blueprint} (framed : Framed source index (joinPath scope name) name content children b)
    (tame : source.isTame names = true) (one : source.makesOne index = true)
    (nested : Blueprint.AllNested names (joinPath scope name) children) : Blueprint.AllNested names scope [b] := by
  rw [Blueprint.AllNested, Blueprint.AllNested, Blueprint.nested_iff, framed.path, framed.name, framed.source, framed.index,
    framed.children]
  exact ⟨⟨rfl, tame, one, framed.context, framed.scope, nested⟩, trivial⟩

theorem framed_group {source : Action} {index : Option Nat} {scope name : String} {children : List Blueprint} {b : Blueprint}
    (framed : Framed source index (joinPath scope name) name .group children b) (tame : source.isTame names = true)
    (one : source.makesOne index = true) (made : Made names (joinPath scope name) s children s') :
    Made names scope s [b] s' := by
  refine ⟨framed_nested framed tame one made.nested, Blueprint.allLaid_single ?_⟩
  rw [Blueprint.laid_group framed.content, framed.children]
  exact made.laid

theorem framed_leaf {source : Action} {index : Option Nat} {scope name : String} {content : BlueprintContent} {b : Blueprint}
    (framed : Framed source index (joinPath scope name) name content [] b) (tame : source.isTame names = true)
    (one : source.makesOne index = true) (leaf : content ≠ .group) (ready : Ready names s)
    (walked : Walked names s.scene.store.New s s')
    (holds : content.Holds s'.scene.store s.scene.store.size s'.scene.store.size) : Made names scope s [b] s' := by
  refine ⟨framed_nested framed tame one trivial, Blueprint.allLaid_single ?_⟩
  rw [Blueprint.laid_leaf (framed.content ▸ leaf), framed.content]
  exact ⟨apart_new ready walked, holds⟩

theorem walked_blueprint (opened : Open names free s) (source : Action) {ctx : Context} (plain : ctx.Plain)
    (path name : String) (content : BlueprintContent) (children : List Blueprint) :
    Within (Walked names free) (blueprint source ctx path name content children) s
      fun b _ => Framed source none path name content children b := by
  have steady := steady_walked names free
  refine within_seq steady (walked_evaluateVector plain opened _) fun position first walked => ?_
  have opened := open_walked opened walked
  refine within_seq steady (walked_evaluateVector plain opened _) fun rotation second walked => ?_
  have opened := open_walked opened walked
  refine within_seq steady (walked_evaluateVector plain opened _) fun scale third walked => ?_
  have opened := open_walked opened walked
  refine within_seq steady (walked_evaluateVisible plain opened _) fun visible last _ => ?_
  refine within_get (within_pure steady ?_)
  exact ⟨rfl, rfl, rfl, rfl, rfl, rfl, Context.plain_freeze plain, Context.plain_layersAbove plain _⟩

section

variable {source : Action} {walkChildren : Context → String → Walk (List Blueprint)} (scope : String) {ctx : Context}
  (ready : Ready names s) (tame : source.isTame names = true) (plain : ctx.Plain)
  (walks : ∀ (ctx : Context) (path : String) (s : Session), ctx.Plain → Ready names s →
    WalkWithin names s.scene.store.New (walkChildren ctx path) s (Made names path s))

include ready tame plain walks

theorem made_group (one : source.makesOne none = true) (name : String) :
    Within (Walked names s.scene.store.New) (group source walkChildren ctx (joinPath scope name) name) s
      fun b after => Made names scope s [b] after := by
  have steady := steady_walked names s.scene.store.New
  refine within_bind steady (walk_inside (walks ctx (joinPath scope name) s plain ready)) fun children middle walked made => ?_
  have body := walked_blueprint (open_new (walked.ready ready)) source plain (joinPath scope name) name .group children
  refine within_mono body (fun _ further => walked_mono (new_mono walked) further) fun b after further framed => ?_
  exact framed_group framed tame one (made_extend ready (steady.refl s) made walked further)

theorem made_template (one : source.makesOne none = true) (name : String) {parameters expressions : Bindings}
    (plainParameters : parameters.Plain) (plainExpressions : expressions.Plain) :
    Within (Walked names s.scene.store.New)
      (template source parameters expressions walkChildren ctx (joinPath scope name) name) s
      fun b after => Made names scope s [b] after := by
  have steady := steady_walked names s.scene.store.New
  refine within_get ?_
  refine within_reads steady reads_store fun store => ?_
  have plainOverrides : (((s.pathOverrides.lookup (joinPath scope name)).getD []) : Bindings).Plain := by
    cases found : s.pathOverrides.lookup (joinPath scope name) with
    | none => exact Bindings.plain_nil
    | some overrides => exact ready.overrides _ (Value.lookup_mem found)
  refine within_bind steady (walked_onEvaluator (kept_resolveParameters store.describe plainParameters plainExpressions
    plainOverrides plain s.evaluator ready.evaluator)) ?_
  rintro inner first before ⟨plainInner, _⟩
  have ready' := before.ready ready
  refine within_bind steady (within_mono (walk_inside (walks inner (joinPath scope name) first plainInner ready'))
    (fun _ further => walked_mono (new_mono before) further) fun children middle further made => And.intro further made) ?_
  rintro children middle _ ⟨walked, made⟩
  have body := walked_blueprint (open_new (walked.ready ready')) source plain (joinPath scope name) name .group children
  refine within_bind steady (within_mono body
    (fun _ further => walked_mono (fun id fresh => new_mono before id (new_mono walked id fresh)) further)
    fun b after further framed => And.intro further framed) ?_
  rintro b after _ ⟨further, framed⟩
  refine within_pure steady (framed_group (framed.anchored true) tame one ?_)
  exact made_extend ready before made walked further

theorem made_instance (name : String) {index : Nat} (one : source.makesOne (some index) = true) {parameters : Bindings}
    (plainParameters : parameters.Plain) (position : Vec3) :
    Within (Walked names s.scene.store.New)
      (instanceAt source parameters walkChildren index position ctx (joinPath scope name) name) s
      fun b after => Made names scope s [b] after := by
  have steady := steady_walked names s.scene.store.New
  have opened := open_new ready
  have start : (ctx.child [("index", .int index)]).Plain ∧ Open names s.scene.store.New s :=
    ⟨Context.plain_child plain (by simp [Bindings.Plain, Value.isPlain]), opened⟩
  refine within_bind steady (within_foldlM steady
    (fun (inner : Context) after => inner.Plain ∧ Open names s.scene.store.New after) parameters ?_ _ s start) ?_
  · rintro entry member inner before ⟨plainInner, opened⟩
    refine within_bind steady (walked_evaluate opened (plainParameters entry member) plainInner _) ?_
    rintro value after walked ⟨plainValue, _⟩
    exact within_pure steady ⟨Context.plain_set plainInner entry.1 plainValue, open_walked opened walked⟩
  rintro inner first before ⟨plainInner, opened⟩
  refine within_seq steady (walked_evaluateVector plain opened _) fun offset second walked => ?_
  have before := steady.trans before walked
  have opened := open_walked opened walked
  refine within_reads steady (reads_shift position offset) fun place => ?_
  have ready' := opened.ready
  refine within_bind steady (within_mono (walk_inside (walks inner (joinPath scope name) second plainInner ready'))
    (fun _ further => walked_mono (new_mono before) further) fun children middle further made => And.intro further made) ?_
  rintro children middle _ ⟨walked, made⟩
  have body := walked_blueprint (open_new (walked.ready ready')) source plain (joinPath scope name) name .group children
  refine within_bind steady (within_mono body
    (fun _ further => walked_mono (fun id fresh => new_mono before id (new_mono walked id fresh)) further)
    fun b after further framed => And.intro further framed) ?_
  rintro b after _ ⟨further, framed⟩
  refine within_pure steady (framed_group (framed.numbered index place) tame one ?_)
  exact made_extend ready before made walked further

end

theorem walked_repetitionCount (opened : Open names free s) (count : Value) {ctx : Context} (plain : ctx.Plain)
    (path : String) : Within (Walked names free) (repetitionCount count ctx path) s fun _ _ => True := by
  have steady := steady_walked names free
  have noted : ∀ (code text : String) (s : Session), Within (Walked names free) (do
      record code text (some path)
      return none : SessionAction (Option Nat)) s fun _ _ => True := fun code text s =>
    within_seq steady (within_weaken (walked_record code text _) fun _ _ _ _ => trivial) fun _ _ _ =>
      within_pure steady trivial
  refine within_seq steady (walked_evaluateAny opened count plain _) fun value after _ => ?_
  split
  · refine within_ite (fun _ => ?_) fun _ => within_throw steady
    exact within_reads steady (reads_shown count) fun text => noted _ _ after
  · refine within_ite (fun _ => noted _ _ after) fun _ => ?_
    refine within_reads steady (reads_lift _) fun whole => within_get ?_
    exact within_ite (fun _ => noted _ _ after) fun _ => within_pure steady trivial

theorem walked_loopCount (start stop step : Value) (path : String) :
    Within (Walked names free) (loopCount start stop step path) s fun _ _ => True := by
  have steady := steady_walked names free
  have noted : ∀ (code text : String) (s : Session), Within (Walked names free) (do
      record code text (some path)
      return none : SessionAction (Option (Nat × Float × Float))) s fun _ _ => True := fun code text s =>
    within_seq steady (within_weaken (walked_record code text _) fun _ _ _ _ => trivial) fun _ _ _ =>
      within_pure steady trivial
  unfold loopCount
  split
  · refine within_ite (fun _ => ?_) fun _ => within_throw steady
    exact within_reads steady (reads_shown _) fun low => within_reads steady (reads_shown _) fun high => noted _ _ s
  · refine within_ite (fun _ => noted _ _ s) fun _ => within_ite (fun _ => noted _ _ s) fun _ => ?_
    refine within_reads steady (reads_lift _) fun whole => within_get ?_
    exact within_ite (fun _ => noted _ _ s) fun _ => within_pure steady trivial

theorem walked_placements (opened : Open names free s) (options : Option Bindings) (count : Nat) {ctx : Context}
    (plain : ctx.Plain) (path : String) :
    Within (Walked names free) (placements options count ctx path) s fun _ _ => True := by
  have steady := steady_walked names free
  have chosen : Within (Walked names free) (placementOptions options ctx path) s fun _ _ => True := by
    unfold placementOptions
    dsimp only
    split
    · refine within_seq steady (within_weaken (walked_evaluateText opened plain _) fun _ _ _ _ => trivial) ?_
      exact fun _ _ _ => within_pure steady trivial
    · exact within_pure steady trivial
  refine within_seq steady chosen fun options after walked => ?_
  refine within_reads steady reads_store fun store => ?_
  let request : Placement.Request := ⟨store, options, count, ctx⟩
  have body : Within Evaluator.Kept (Placement.positions request) after.evaluator fun _ _ => True :=
    Placement.kept_positions plain (walked.ready opened.ready).evaluator
  have evaluated : Within (Walked names free) (onEvaluator (Placement.positions request)) after
      fun _ last => True ∧ last.scene = after.scene := walked_onEvaluator body
  exact within_weaken evaluated fun _ _ _ _ => trivial

/-! ### Actions -/

theorem children_walked {value : Value} (walked : Walked names free s s')
    (children : Factory.ChildrenAmong free s.scene.store value) : Factory.ChildrenAmong free s'.scene.store value :=
  fun entries same => among_walked walked (children entries same)

theorem children_range {base : Session} {value : Value}
    (children : Factory.ChildrenAmong base.scene.store.New s.scene.store value) :
    Factory.ChildrenAmong (Range base.scene.store.size s.scene.store.size) s.scene.store value :=
  fun entries same => among_range (children entries same)

theorem reads_helperLabel (label params : Value) : Reads (helperLabel label params) := by
  unfold helperLabel
  split
  · exact reads_pure _
  · split
    · exact reads_pure _
    · exact reads_throw _

theorem walked_storeResult {name : Option String} (stores : ∀ given ∈ name, given ∈ names) (result : Value) :
    Within (Walked names free) (storeResult name result) s fun _ _ => True := by
  have steady := steady_walked names free
  unfold storeResult
  split
  · rename_i name
    split
    · exact within_pure steady trivial
    · refine within_modify ⟨rfl, (steady_confined free).refl s.scene, fun ready => { ready with stored := ?_ }⟩ trivial
      intro entry member
      rcases Bindings.mem_put member with same | before
      · exact same ▸ stores name rfl
      · exact ready.stored entry before
  · exact within_pure steady trivial

theorem plain_shapeEntries {dims : Value} (plain : dims.isPlain = true) :
    ∀ entry ∈ shapeEntries dims, entry.2.isPlain = true := by
  unfold shapeEntries
  split
  · exact fun entry member => Value.plain_list.mp plain _ (List.of_mem_zip member).2
  · have plainGiven := Value.plain_map.mp plain
    split
    · rename_i outer found
      intro entry member
      rcases Value.mem_putEntry member with same | before
      · exact same ▸ Value.plain_entry plain found
      · exact plainGiven entry (List.mem_filter.mp before).1
    · exact plainGiven
  · simp

theorem plain_shapeParams {dims : Value} (plain : dims.isPlain = true) (name : String) :
    (shapeParams dims name).isPlain = true := by
  have each := plain_shapeEntries plain
  unfold shapeParams
  dsimp only
  split
  · exact Value.plain_map.mpr each
  · refine Value.plain_map.mpr fun entry member => ?_
    rcases List.mem_append.mp member with before | last
    · exact each entry before
    · exact List.mem_singleton.mp last ▸ rfl

theorem walk_labelled (opened : Open names free s) (label : Value) (fallback : String) {ctx : Context} (plain : ctx.Plain) :
    WalkWithin names free (labelled label fallback ctx) s fun _ _ => True := by
  unfold labelled
  split
  · exact walk_pure_bind (walk_claim fallback)
  · refine walk_seq (walk_lift (walked_render opened label plain none)) fun text after _ => ?_
    exact walk_reads (reads_plainText text) fun name => walk_claim name

theorem walk_namedOr (opened : Open names free s) (given : Option String) (label : Value) (fallback : String)
    {ctx : Context} (plain : ctx.Plain) : WalkWithin names free (namedOr given label fallback ctx) s fun _ _ => True := by
  unfold namedOr
  split
  · split
    · exact walk_labelled opened label fallback plain
    · exact walk_pure trivial
  · exact walk_labelled opened label fallback plain

/-- What is made later is made as well. -/
theorem walk_givenOr (opened : Open names free s) (given : Option String) (label : Value) (fallback : String)
    {ctx : Context} (plain : ctx.Plain) : WalkWithin names free (givenOr given label fallback ctx) s fun _ _ => True := by
  unfold givenOr
  split
  · exact walk_pure trivial
  · exact walk_labelled opened label fallback plain

theorem made_later {scope : String} {middle : Session} {list : List Blueprint} (ready : Ready names s)
    (before : Walked names s.scene.store.New s middle) (walked : Walked names middle.scene.store.New middle s')
    (made : Made names scope middle list s') : Made names scope s list s' :=
  made_extend ready before made walked ((steady_walked names _).refl s')

/-- A step of a walk that makes all that is asked for. -/
theorem walk_later {α : Type} {scope : String} {middle : Session} {walk : Walk α} {blueprints : α → List Blueprint}
    (ready : Ready names s) (before : Walked names s.scene.store.New s middle)
    (body : WalkWithin names middle.scene.store.New walk middle fun value after => Made names scope middle (blueprints value) after) :
    WalkWithin names s.scene.store.New walk middle fun value after => Made names scope s (blueprints value) after :=
  walk_mono body (new_mono before) fun _ _ walked made => made_later ready before walked made

theorem walk_nothing {scope : String} {middle : Session} (ready : Ready names s) (before : Walked names s.scene.store.New s middle) :
    WalkWithin names s.scene.store.New (pure [] : Walk (List Blueprint)) middle (Made names scope s) :=
  walk_pure (made_nil ready before scope)

section

variable {source : Action} {scope : String} {ctx : Context} (ready : Ready names s) (tame : source.isTame names = true)
  (plain : ctx.Plain)

include ready plain

theorem made_loop (counter : String) (start stop step : Value) {walkBody : Context → Walk (List Blueprint)}
    (walks : ∀ (ctx : Context) (s : Session), ctx.Plain → Ready names s →
      WalkWithin names s.scene.store.New (walkBody ctx) s (Made names scope s)) :
    WalkWithin names s.scene.store.New (loop counter start stop step walkBody ctx scope) s (Made names scope s) := by
  have steady := steady_walked names s.scene.store.New
  have opened := open_new ready
  unfold loop
  dsimp only
  refine walk_seq (walk_lift (walked_evaluateAny opened start plain _)) fun start first before => ?_
  have opened := open_walked opened before
  refine walk_seq (walk_lift (walked_evaluateAny opened stop plain _)) fun stop second walked => ?_
  have before := steady.trans before walked
  have opened := open_walked opened walked
  refine walk_seq (walk_lift (walked_evaluateAny opened step plain _)) fun step third walked => ?_
  have before := steady.trans before walked
  refine walk_seq (walk_lift (walked_loopCount start stop step _)) fun found fourth walked => ?_
  have before := steady.trans before walked
  split
  · exact walk_nothing ready before
  · rename_i count start step
    have round : ∀ n ∈ List.range count, ∀ s, Ready names s → WalkWithin names s.scene.store.New
        (walkBody (ctx.child [(counter, counterValue (start + Float.ofNat n * step))])) s (Made names scope s) := by
      intro n _ s ready
      refine walks _ s (Context.plain_child plain fun entry member => ?_) ready
      rw [List.mem_singleton.mp member]
      exact plain_counterValue _
    refine walk_bind (walk_later ready before (walk_mapM_made id _ round fourth (before.ready ready))) ?_
    intro rounds last _ made
    rw [List.flatMap_id] at made
    exact walk_pure made

include tame

theorem made_instances {walkChildren : Context → String → Walk (List Blueprint)}
    (walks : ∀ (ctx : Context) (path : String) (s : Session), ctx.Plain → Ready names s →
      WalkWithin names s.scene.store.New (walkChildren ctx path) s (Made names path s))
    (one : ∀ index, source.makesOne (some index) = true) (count : Value) (distribution : Option Bindings)
    {parameters : Bindings} (plainParameters : parameters.Plain) (base : String) {first : Session}
    (before : Walked names s.scene.store.New s first) :
    WalkWithin names s.scene.store.New (instances source count distribution parameters walkChildren ctx scope base) first
      (Made names scope s) := by
  have steady := steady_walked names s.scene.store.New
  have opened := open_walked (open_new ready) before
  unfold instances
  refine walk_seq (walk_lift (walked_repetitionCount opened count plain _)) fun found second walked => ?_
  have before := steady.trans before walked
  have opened := open_walked opened walked
  split
  · exact walk_nothing ready before
  · rename_i count
    refine walk_seq (walk_lift (within_weaken (within_attempt
      (walked_placements opened distribution count plain scope)) fun _ _ _ _ => trivial)) fun placed third walked => ?_
    have before := steady.trans before walked
    split
    · split
      · refine walk_seq (walk_lift (within_weaken (walked_record _ _ _) fun _ _ _ _ => trivial)) fun _ last walked => ?_
        exact walk_nothing ready (steady.trans before walked)
      · exact walk_throw
    · rename_i positions
      have single : ∀ item ∈ positions.zipIdx, ∀ s, Ready names s → WalkWithin names s.scene.store.New (do
          let name ← claim (base ++ "_" ++ toString item.2)
          instanceAt source parameters walkChildren item.2 item.1 ctx (joinPath scope name) name) s
          fun b after => Made names scope s [b] after := by
        intro item _ s ready
        refine walk_seq (walk_claim _) fun name middle walked => ?_
        exact walk_later ready walked
          (walk_lift (made_instance scope (walked.ready ready) tame plain walks name (one item.2) plainParameters item.1))
      refine walk_mono (walk_later ready before (walk_mapM_made (fun b => [b]) _ single third (before.ready ready)))
        (fun _ inside => inside) fun list last _ made => ?_
      rwa [List.flatMap_singleton'] at made

theorem made_repetition {walkChildren : Context → String → Walk (List Blueprint)}
    (walks : ∀ (ctx : Context) (path : String) (s : Session), ctx.Plain → Ready names s →
      WalkWithin names s.scene.store.New (walkChildren ctx path) s (Made names path s))
    (one : ∀ index, source.makesOne (some index) = true) (count : Value) (distribution : Option Bindings)
    {parameters : Bindings} (plainParameters : parameters.Plain) :
    WalkWithin names s.scene.store.New (repetition source count distribution parameters walkChildren ctx scope) s
      (Made names scope s) := by
  unfold repetition
  dsimp only
  split
  · have before := (steady_walked names s.scene.store.New).refl s
    exact walk_pure_bind (made_instances ready tame plain walks one count distribution plainParameters "repeat" before)
  · refine walk_seq (walk_lift (walked_render (open_new ready) _ plain none)) fun text first before => ?_
    refine walk_reads (reads_plainText text) fun base => ?_
    exact made_instances ready tame plain walks one count distribution plainParameters base before

/-- The blueprint of a leaf, made in the state that its walk has come to. -/
theorem made_leaf (one : source.makesOne none = true) {middle : Session} (before : Walked names s.scene.store.New s middle)
    (name : String) {content : BlueprintContent} (leaf : content ≠ .group)
    (holds : ∀ after, Walked names s.scene.store.New middle after →
      content.Holds after.scene.store s.scene.store.size after.scene.store.size) (material : Value) :
    Within (Walked names s.scene.store.New) (Walk.leaf source ctx scope name content material) middle
      (Made names scope s) := by
  have steady := steady_walked names s.scene.store.New
  refine within_bind steady (walked_blueprint (open_walked (open_new ready) before) source plain _ name content []) ?_
  intro b after walked framed
  refine within_pure steady ?_
  exact framed_leaf (framed.painted material) tame one leaf ready (steady.trans before walked) (holds after walked)

theorem made_reference (one : source.makesOne none = true) (target : String) (material : Value) (name : String) :
    Within (Walked names s.scene.store.New) (reference source target material ctx (joinPath scope name) name) s
      fun b after => Made names scope s [b] after := by
  have steady := steady_walked names s.scene.store.New
  unfold reference
  refine within_seq steady (walked_render (open_new ready) _ plain _) fun text first before => ?_
  refine within_reads steady (reads_plainText text) fun target => ?_
  refine within_bind steady
    (walked_blueprint (open_walked (open_new ready) before) source plain _ name (.reference target) []) ?_
  intro b after walked framed
  refine within_pure steady ?_
  exact framed_leaf (framed.painted material) tame one (fun same => by cases same) ready (steady.trans before walked) trivial

theorem made_geometry (one : source.makesOne none = true) (shape : String) {dimensions : Value}
    (plainDimensions : dimensions.isPlain = true) (material : Value) (name : Option String) :
    WalkWithin names s.scene.store.New (geometry source shape dimensions material ctx scope name) s
      (Made names scope s) := by
  have steady := steady_walked names s.scene.store.New
  unfold geometry
  dsimp only
  refine walk_seq (walk_givenOr (open_new ready) name _ shape plain) fun name first before => ?_
  have opened := open_walked (open_new ready) before
  refine walk_bind (walk_lift (walked_factoryOrRecord opened _ _ _)) fun found second walked both => ?_
  have before := steady.trans before walked
  have opened := open_walked opened walked
  split
  · exact walk_nothing ready before
  · rename_i entry factory
    obtain ⟨named, sound⟩ := both.2 _ rfl
    refine walk_bind (walk_lift (walked_evaluateDimension plain dimensions second opened plainDimensions)) ?_
    intro dims third walked plainDims
    have before := steady.trans before walked
    have opened := open_walked opened walked
    have plainParams := plain_shapeParams plainDims name
    cases named
    refine walk_bind (walk_lift (walked_runFactory opened sound _ "" _ fun _ =>
      children_of_among (among_of_plain plainParams))) fun result fourth walked among => ?_
    have before := steady.trans before walked
    split
    · exact walk_nothing ready before
    · refine walk_lift (made_leaf ready tame plain one before name (fun same => by cases same) (fun after walked => ?_) material)
      exact among_range (among_walked walked among)

theorem made_call (one : source.makesOne none = true) (verb : String) {params : Bindings} (plainParams : params.Plain)
    (sparing : params.toMap.isSparing names = true) (keeps : verb = "group" → params.toMap.handsOver names = false)
    (material : Value) {storeAs : Option String} (stores : ∀ name ∈ storeAs, name ∈ names) (name : Option String)
    (place : String) :
    WalkWithin names s.scene.store.New (call source verb params material storeAs ctx scope name place) s
      (Made names scope s) := by
  have steady := steady_walked names s.scene.store.New
  unfold call
  refine walk_bind (walk_lift (walked_factoryOrRecord (open_new ready) _ _ _)) fun found first before both => ?_
  have opened := open_walked (open_new ready) before
  split
  · exact walk_nothing ready before
  · rename_i entry factory
    obtain ⟨named, sound⟩ := both.2 _ rfl
    obtain rfl : verb = entry := Value.text.inj named
    refine walk_bind (walk_lift (walked_evaluateParam plain opened (Bindings.plain_toMap plainParams) sparing)) ?_
    intro value second walked evaluated
    have before := steady.trans before walked
    have opened := open_walked opened walked
    refine walk_reads (reads_helperLabel _ _) fun label => ?_
    refine walk_seq (walk_givenOr opened name label _ plain) fun name third walked => ?_
    have before := steady.trans before walked
    have opened := open_walked opened walked
    have children : verb = "group" → Factory.ChildrenAmong s.scene.store.New third.scene.store value := fun group =>
      children_walked walked (evaluated.children (keeps group))
    split
    · refine walk_lift (made_leaf ready tame plain one before name (fun same => by cases same) (fun after walked => ?_) material)
      exact fun group => children_range (children_walked walked (children group))
    · refine walk_bind (walk_lift (walked_runFactory opened sound value "" _ children)) ?_
      intro result fourth walked among
      have before := steady.trans before walked
      split
      · exact walk_nothing ready before
      · refine walk_seq (walk_lift (walked_storeResult stores result)) fun _ fifth walked => ?_
        have among := among_walked walked among
        have before := steady.trans before walked
        refine walk_lift (made_leaf ready tame plain one before name (fun same => by cases same) (fun after walked => ?_) material)
        exact among_range (among_walked walked among)

theorem made_helper (one : source.makesOne none = true) (verb : String) {params : Bindings} (plainParams : params.Plain)
    (sparing : params.toMap.isSparing names = true) (keeps : verb = "group" → params.toMap.handsOver names = false)
    (material : Value) {storeAs : Option String} (stores : ∀ name ∈ storeAs, name ∈ names) (name : Option String) :
    WalkWithin names s.scene.store.New (Walk.helper source verb params material storeAs ctx scope name) s
      (Made names scope s) := by
  unfold Walk.helper
  dsimp only
  split
  · refine walk_reads (reads_plainText _) fun text => ?_
    exact made_call ready tame plain one verb plainParams sparing keeps material stores name _
  · exact walk_pure_bind (made_call ready tame plain one verb plainParams sparing keeps material stores name _)

end

mutual
/-- The walk of a tame action. -/
theorem made_action : ∀ (act : Action) (ctx : Context) (scope : String) (name : Option String) (s : Session),
    ctx.Plain → Ready names s → act.isTame names = true →
    WalkWithin names s.scene.store.New (action ctx scope name act) s (Made names scope s)
  | .group frame children, ctx, scope, name, s, plain, ready, tame => by
    have inner := tame
    rw [Action.isTame, Bool.and_eq_true] at inner
    rw [action]
    refine walk_seq (walk_namedOr (open_new ready) name _ _ plain) fun name first before => ?_
    refine walk_bind (walk_later ready before (walk_lift (made_group scope (before.ready ready) tame plain ?_ rfl name)))
      fun b last _ made => walk_pure made
    exact fun ctx path s plain ready => made_actions children ctx path s plain ready inner.2
  | .template frame parameters expressions body, ctx, scope, name, s, plain, ready, tame => by
    have inner := tame
    simp only [Action.isTame, Bool.and_eq_true, Bindings.isPlain_iff] at inner
    rw [action]
    refine walk_seq (walk_namedOr (open_new ready) name _ _ plain) fun name first before => ?_
    refine walk_bind (walk_later ready before (walk_lift
      (made_template scope (before.ready ready) tame plain ?_ rfl name inner.1.1.2 inner.1.2)))
      fun b last _ made => walk_pure made
    exact fun ctx path s plain ready => made_actions body ctx path s plain ready inner.2
  | .repetition frame count distribution parameters children, ctx, scope, name, s, plain, ready, tame => by
    have inner := tame
    simp only [Action.isTame, Bool.and_eq_true, Bindings.isPlain_iff] at inner
    rw [action]
    refine made_repetition ready tame plain ?_ (fun _ => rfl) count distribution inner.1.2
    exact fun ctx path s plain ready => made_actions children ctx path s plain ready inner.2
  | .loop frame counter start stop step body, ctx, scope, name, s, plain, ready, tame => by
    simp only [Action.isTame, Bool.and_eq_true] at tame
    rw [action]
    refine made_loop ready plain counter start stop step ?_
    exact fun ctx s plain ready => made_actions body ctx scope s plain ready tame.2
  | .conditional frame condition accepted refused, ctx, scope, name, s, plain, ready, tame => by
    simp only [Action.isTame, Bool.and_eq_true] at tame
    rw [action]
    refine walk_seq (walk_lift (walked_evaluateAny (open_new ready) condition plain _)) fun value first before => ?_
    split
    · exact walk_later ready before (made_actions accepted ctx scope first plain (before.ready ready) tame.1.2)
    · exact walk_later ready before (made_actions refused ctx scope first plain (before.ready ready) tame.2)
  | .helper frame helper params material store, ctx, scope, name, s, plain, ready, tame => by
    have inner := tame
    simp only [Action.isTame, Bool.and_eq_true, Bindings.isPlain_iff, Option.all_eq_true, List.contains_eq_mem,
      decide_eq_true_eq] at inner
    rw [action]
    refine made_helper ready tame plain rfl helper inner.1.1.1.1.2 inner.1.1.2 (fun group => ?_) material inner.2 name
    simpa [group] using inner.1.2
  | .reference frame target material, ctx, scope, name, s, plain, ready, tame => by
    rw [action]
    refine walk_seq (walk_namedOr (open_new ready) name _ _ plain) fun name first before => ?_
    refine walk_bind (walk_later ready before
      (walk_lift (made_reference (before.ready ready) tame plain rfl target material name)))
      fun b last _ made => walk_pure made
  | .geometry frame shape dimensions material, ctx, scope, name, s, plain, ready, tame => by
    have inner := tame
    simp only [Action.isTame, Bool.and_eq_true] at inner
    rw [action]
    exact made_geometry ready tame plain rfl shape inner.1.2 material name

theorem made_actions : ∀ (list : List Action) (ctx : Context) (scope : String) (s : Session),
    ctx.Plain → Ready names s → Action.allTame names list = true →
    WalkWithin names s.scene.store.New (actions ctx scope list) s (Made names scope s)
  | [], ctx, scope, s, _, ready, _ => by
    rw [actions]
    exact walk_nothing ready ((steady_walked names _).refl s)
  | first :: rest, ctx, scope, s, plain, ready, tame => by
    rw [Action.allTame, Bool.and_eq_true] at tame
    rw [actions]
    refine walk_bind (made_action first ctx scope none s plain ready tame.1) fun found middle walked made => ?_
    have ready' := walked.ready ready
    refine walk_bind (walk_mono (made_actions rest ctx scope middle plain ready' tame.2) (new_mono walked)
      fun others last further later => And.intro further later) ?_
    rintro others last _ ⟨further, later⟩
    exact walk_pure (made_append ready'.linked made further later)
end

theorem made_all {list : List Action} {ctx : Context} {scope : String} (plain : ctx.Plain) (ready : Ready names s)
    (tame : Action.allTame names list = true) :
    Within (Walked names s.scene.store.New) (all list ctx scope) s (Made names scope s) :=
  walk_inside (made_actions list ctx scope s plain ready tame)

theorem made_head {scope : String} {list : List Blueprint} (made : Made names scope s list s') :
    Made names scope s list.head?.toList s' := by
  cases list with
  | nil => exact made
  | cons first rest =>
    obtain ⟨nested, laid⟩ := made
    rw [Blueprint.AllNested] at nested
    rw [Blueprint.AllLaid] at laid
    obtain ⟨apart, start, mid, low, here, later⟩ := laid
    refine ⟨⟨nested.1, trivial⟩, Blueprint.allLaid_lower apart low ?_⟩
    exact Blueprint.allLaid_upper [first] (Blueprint.allLaid_apart later) (Blueprint.allLaid_single here)

/-- Making the blueprint of one action again makes no more than one. -/
theorem made_again {source : Action} {ctx : Context} (plain : ctx.Plain) (ready : Ready names s)
    (tame : source.isTame names = true) (scope name : String) {index : Option Nat} (one : source.makesOne index = true) :
    Within (Walked names s.scene.store.New) (again source ctx scope name index) s
      fun result after => Made names scope s result.toList after := by
  have steady := steady_walked names s.scene.store.New
  unfold again
  split
  · rename_i frame count distribution parameters children index
    have inner := tame
    simp only [Action.isTame, Bool.and_eq_true, Bindings.isPlain_iff] at inner
    refine within_seq steady (walked_repetitionCount (open_new ready) count plain _) fun found first before => ?_
    split
    · exact within_pure steady (made_nil ready before scope)
    · rename_i count
      refine within_ite (fun _ => within_pure steady (made_nil ready before scope)) fun _ => ?_
      refine within_seq steady (walked_placements (open_walked (open_new ready) before) distribution count plain _)
        fun positions second walked => ?_
      have before := steady.trans before walked
      have ready' := before.ready ready
      have walks := fun ctx path s plain ready => made_actions children ctx path s plain ready inner.2
      have body := made_instance scope ready' tame plain walks name one inner.1.2 (positions.getD index Vec3.zero)
      refine within_bind steady (within_mono body (fun _ further => walked_mono (new_mono before) further)
        fun b after walked made => made_later ready before walked made) ?_
      exact fun b after _ made => within_pure steady made
  · refine within_bind steady (walk_inside (made_action source ctx scope (some name) s plain ready tame)) ?_
    exact fun list after _ made => within_pure steady (made_head made)

end Walk

end ProceduralScene
