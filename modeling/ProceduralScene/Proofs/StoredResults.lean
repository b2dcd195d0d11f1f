import ProceduralScene.Proofs.LayeredNames
import ProceduralScene.Proofs.Walks

/-!
Stored results. A helper that runs at once stores its result under the name that it gives, and until another action
stores under that name every text that is the name means the result. A helper whose parameters hold references runs
when it is placed, and stores nothing.
-/

set_option autoImplicit false

namespace ProceduralScene

mutual
/-- Some action in it stores its result under the name. -/
def Action.stores (name : String) : Action → Bool
  | .group _ children => anyStores name children
  | .template _ _ _ body => anyStores name body
  | .repetition _ _ _ _ children => anyStores name children
  | .loop _ _ _ _ _ body => anyStores name body
  | .conditional _ _ accepted refused => anyStores name accepted || anyStores name refused
  | .helper _ _ _ _ storeAs => storeAs == some name
  | .reference _ _ _ => false
  | .geometry _ _ _ _ => false

def Action.anyStores (name : String) : List Action → Bool
  | [] => false
  | first :: rest => first.stores name || anyStores name rest
end

/-- The same is stored under the name. -/
def SameStored (name : String) (s s' : Session) : Prop := s'.stored.get? name = s.stored.get? name

theorem steady_stored (name : String) : Steady (SameStored name) := ⟨fun _ => rfl, fun first second => second.trans first⟩

/-- Whatever the action does, what is stored under the name stays. -/
def Keeps {α : Type} (name : String) (action : SessionAction α) : Prop :=
  ∀ s, Within (SameStored name) action s fun _ _ => True

section

variable {name : String} {α β : Type} {action : SessionAction α}

theorem keeps_pure (value : α) : Keeps name (pure value) := fun _ => within_pure (steady_stored name) trivial

theorem keeps_throw (failure : Failure) : Keeps name (throw failure : SessionAction α) :=
  fun _ => within_throw (steady_stored name)

theorem keeps_bind {next : α → SessionAction β} (first : Keeps name action) (rest : ∀ value, Keeps name (next value)) :
    Keeps name (action >>= next) := fun s =>
  within_seq (steady_stored name) (first s) fun value after _ => rest value after

theorem keeps_reads (reads : Reads action) : Keeps name action := by
  intro s
  apply within_mono (reads s)
  · rintro _ rfl
    exact (steady_stored name).refl s
  · exact fun _ _ _ _ => trivial

theorem keeps_modify {change : Session → Session} (same : ∀ s, SameStored name s (change s)) :
    Keeps name (modify change : SessionAction PUnit) := fun s => within_modify (same s) trivial

theorem keeps_map {f : α → β} (first : Keeps name action) : Keeps name (f <$> action) := fun s => within_map (first s)

theorem keeps_mapM {step : α → SessionAction β} (items : List α) (each : ∀ item, Keeps name (step item)) :
    Keeps name (items.mapM step) := by
  induction items with
  | nil => exact keeps_pure _
  | cons item rest ih =>
    rw [List.mapM_cons]
    exact keeps_bind (each item) fun value => keeps_bind ih fun others => keeps_pure _

theorem keeps_foldlM {step : β → α → SessionAction β} (items : List α) (each : ∀ acc item, Keeps name (step acc item)) :
    ∀ acc, Keeps name (items.foldlM step acc) := by
  induction items with
  | nil => exact fun acc => keeps_pure acc
  | cons item rest ih =>
    intro acc
    rw [List.foldlM_cons]
    exact keeps_bind (each acc item) ih

end

namespace SessionAction

variable {name : String} {α : Type} {ctx : Context} {path : String}

theorem keeps_onEvaluator (action : Evaluation α) : Keeps name (onEvaluator action) := fun s =>
  ends_onEvaluator (ends_mono (ends_any action s.evaluator) (fun _ _ _ => ⟨rfl, trivial⟩) fun _ _ => rfl)

theorem keeps_onScene (action : SceneAction α) : Keeps name (onScene action) := fun s =>
  ends_onScene (ends_mono (ends_any action s.scene) (fun _ _ _ => ⟨rfl, trivial⟩) fun _ _ => rfl)

theorem keeps_record (code text : String) (path : Option String) : Keeps name (record code text path) :=
  keeps_modify fun _ => rfl

theorem keeps_attempt {action : SessionAction α} (body : Keeps name action) : Keeps name (attempt action) := fun s =>
  within_weaken (within_attempt (body s)) fun _ _ _ _ => trivial

theorem keeps_evaluate (expression : Value) (ctx : Context) (path : Option String) :
    Keeps name (evaluate expression ctx path) := keeps_bind (keeps_reads reads_store) fun _ => keeps_onEvaluator _

theorem keeps_render (label : Value) (ctx : Context) (path : Option String) : Keeps name (render label ctx path) :=
  keeps_bind (keeps_reads reads_store) fun _ => keeps_onEvaluator _

theorem keeps_runFactory (verb : String) (factory : Factory) (params : Value) (announce path : String) :
    Keeps name (runFactory verb factory params announce path) := by
  refine keeps_bind (keeps_attempt (keeps_onScene _)) fun result => ?_
  split
  · exact keeps_pure _
  · exact keeps_bind (keeps_record _ _ _) fun _ => keeps_pure _

theorem keeps_factoryOrRecord (verb : Value) (announce path : String) : Keeps name (factoryOrRecord verb announce path) := by
  have found : Reads (findFactory verb) := reads_bind reads_get fun _ => reads_lift _
  refine keeps_bind (keeps_attempt (keeps_reads found)) fun result => ?_
  split
  · exact keeps_pure _
  · split
    · exact keeps_bind (keeps_record _ _ _) fun _ => keeps_pure _
    · exact keeps_throw _

theorem keeps_expandPath (descriptor : Value) (path : String) : Keeps name (expandPath descriptor path) := by
  unfold expandPath
  split
  · exact keeps_pure _
  · refine keeps_bind (keeps_reads (reads_plainText _)) fun kind => ?_
    exact keeps_bind (keeps_record _ _ _) fun _ => keeps_pure _

theorem keeps_evaluateText (text : String) (ctx : Context) (path : String) : Keeps name (evaluateText text ctx path) := by
  refine keeps_bind (keeps_reads reads_get) fun session => ?_
  split
  · dsimp only
    split
    · exact keeps_pure _
    · exact keeps_bind (keeps_record _ _ _) fun _ => keeps_pure _
  · split
    · exact keeps_pure _
    · split
      · exact keeps_evaluate _ _ _
      · exact keeps_pure _

section

variable {evaluateOne : Value → SessionAction Value} (evaluates : ∀ value, Keeps name (evaluateOne value))

include evaluates

theorem keeps_evaluateEntries (entries : List (Key × Value)) : Keeps name (evaluateEntries evaluateOne entries) := by
  induction entries with
  | nil => exact keeps_pure _
  | cons entry rest ih =>
    rw [evaluateEntries]
    split
    · exact ih
    · exact keeps_bind (evaluates _) fun value => keeps_bind ih fun others => keeps_pure _

theorem keeps_evaluateItems (items : List Value) : Keeps name (evaluateItems evaluateOne items) := by
  induction items with
  | nil => exact keeps_pure _
  | cons item rest ih =>
    rw [evaluateItems]
    refine keeps_bind (keeps_reads (reads_lift _)) fun isPath => keeps_bind (evaluates item) fun value => ?_
    dsimp only
    split
    · exact keeps_bind (keeps_reads (reads_lift _)) fun found => keeps_bind ih fun others => keeps_pure _
    · exact keeps_bind (keeps_pure _) fun found => keeps_bind ih fun others => keeps_pure _

theorem keeps_nestedHelper (entries : List (Key × Value)) (path : String) :
    Keeps name (nestedHelper evaluateOne entries path) := by
  refine keeps_bind (keeps_factoryOrRecord _ _ _) fun found => ?_
  split
  · exact keeps_pure _
  · exact keeps_bind (evaluates _) fun params => keeps_runFactory _ _ _ _ _

end

theorem keeps_evaluateParamWithin (ctx : Context) (path : String) (depth : Nat) : ∀ value : Value,
    Keeps name (evaluateParamWithin ctx path depth value) := by
  induction depth with
  | zero => exact fun value => keeps_pure _
  | succ depth ih =>
    intro value
    -- whatever is nested in the parameter is evaluated one level deeper
    rw [evaluateParamWithin.eq_def]
    dsimp only
    split
    · split
      · exact keeps_nestedHelper ih _ _
      · split
        · refine keeps_bind (keeps_render _ _ _) fun label => ?_
          exact keeps_bind (keeps_reads (reads_plainText _)) fun text => keeps_pure _
        · refine keeps_bind (keeps_evaluateEntries ih _) fun evaluated => ?_
          split
          · exact keeps_pure _
          · refine keeps_bind (keeps_reads (reads_lift _)) fun isPath => ?_
            split
            · exact keeps_expandPath _ _
            · exact keeps_pure _
    · exact keeps_bind (keeps_evaluateItems ih _) fun items => keeps_pure _
    · exact keeps_evaluateText _ _ _
    · exact keeps_pure _

mutual
theorem keeps_evaluateDimension (ctx : Context) (path : String) : ∀ value : Value,
    Keeps name (evaluateDimension ctx path value)
  | .map entries => by
    rw [evaluateDimension]
    refine keeps_bind (keeps_dimensionEntries ctx path entries) fun evaluated => ?_
    refine keeps_bind (keeps_reads (reads_lift _)) fun isPath => ?_
    split
    · exact keeps_expandPath _ _
    · exact keeps_pure _
  | .list items => by
    rw [evaluateDimension]
    exact keeps_bind (keeps_dimensionItems ctx path items) fun items => keeps_pure _
  | .text text => by
    rw [evaluateDimension]
    split
    · exact keeps_evaluate _ _ _
    · exact keeps_pure _
  | .null | .bool _ | .int _ | .float _ | .complex _ _ | .node _ | .marker _ => by
    rw [evaluateDimension] <;> first
      | exact keeps_pure _
      | (intros; contradiction)

theorem keeps_dimensionItems (ctx : Context) (path : String) : ∀ items : List Value,
    Keeps name (evaluateDimensionItems ctx path items)
  | [] => by
    rw [evaluateDimensionItems]
    exact keeps_pure _
  | item :: rest => by
    rw [evaluateDimensionItems]
    refine keeps_bind (keeps_evaluateDimension ctx path item) fun value => ?_
    refine keeps_bind (keeps_reads (reads_lift _)) fun isPath => ?_
    have others : Keeps name (evaluateDimensionItems ctx path rest) := keeps_dimensionItems ctx path rest
    dsimp only
    split
    · exact keeps_bind (keeps_reads (reads_lift _)) fun found => keeps_bind others fun others => keeps_pure _
    · exact keeps_bind (keeps_pure _) fun found => keeps_bind others fun others => keeps_pure _

theorem keeps_dimensionEntries (ctx : Context) (path : String) : ∀ entries : List (Key × Value),
    Keeps name (evaluateDimensionEntries ctx path entries)
  | [] => by
    rw [evaluateDimensionEntries]
    exact keeps_pure _
  | (key, x) :: rest => by
    rw [evaluateDimensionEntries]
    have others : Keeps name (evaluateDimensionEntries ctx path rest) := keeps_dimensionEntries ctx path rest
    dsimp only
    split
    · exact keeps_bind (keeps_pure _) fun value => keeps_bind others fun others => keeps_pure _
    · exact keeps_bind (keeps_evaluateDimension ctx path x) fun value => keeps_bind others fun others => keeps_pure _
end

theorem keeps_vectorOf (ctx : Context) (path : String) (value : Value) : Keeps name (vectorOf ctx path value) := by
  unfold vectorOf
  split
  · exact keeps_pure _
  · exact keeps_pure _
  · exact keeps_pure _
  · refine keeps_bind (keeps_mapM _ fun item => ?_) fun items => keeps_pure _
    exact keeps_bind (keeps_evaluate _ _ _) fun value => keeps_reads (reads_componentOf value)
  · exact keeps_pure _

theorem keeps_evaluateVector (value : Value) (ctx : Context) (path : String) : Keeps name (evaluateVector value ctx path) := by
  unfold evaluateVector
  split
  · exact keeps_bind (keeps_evaluate _ _ _) fun value => keeps_vectorOf ctx path value
  · exact keeps_bind (keeps_pure _) fun value => keeps_vectorOf ctx path value

theorem keeps_evaluateVisible (value : Value) (ctx : Context) (path : String) : Keeps name (evaluateVisible value ctx path) := by
  unfold evaluateVisible
  split
  · exact keeps_bind (keeps_evaluate _ _ _) fun value => keeps_pure _
  · exact keeps_bind (keeps_pure _) fun value => keeps_pure _

end SessionAction

namespace Walk

open SessionAction

/-- Whatever the walk does, what is stored under the name stays. -/
def WalkKeeps {α : Type} (name : String) (walk : Walk α) : Prop := ∀ siblings, Keeps name (walk siblings)

section

variable {name : String} {α β : Type}

theorem walkKeeps_pure (value : α) : WalkKeeps name (pure value) := fun _ => keeps_pure _

theorem walkKeeps_bind {walk : Walk α} {next : α → Walk β} (first : WalkKeeps name walk)
    (rest : ∀ value, WalkKeeps name (next value)) : WalkKeeps name (walk >>= next) := fun siblings =>
  keeps_bind (first siblings) fun result => rest result.1 result.2

theorem walkKeeps_lift {action : SessionAction α} (keeps : Keeps name action) : WalkKeeps name (liftM action : Walk α) :=
  fun _ => keeps_bind keeps fun _ => keeps_pure _

theorem walkKeeps_throw (failure : Failure) : WalkKeeps name (throw failure : Walk α) := fun _ => keeps_throw failure

theorem walkKeeps_claim (label : String) : WalkKeeps name (claim label) := fun _ => keeps_pure _

theorem walkKeeps_mapM {step : α → Walk β} (items : List α) (each : ∀ item, WalkKeeps name (step item)) :
    WalkKeeps name (items.mapM step) := by
  induction items with
  | nil => exact walkKeeps_pure _
  | cons item rest ih =>
    rw [List.mapM_cons]
    exact walkKeeps_bind (each item) fun value => walkKeeps_bind ih fun others => walkKeeps_pure _

theorem keeps_inside {walk : Walk α} (keeps : WalkKeeps name walk) : Keeps name (inside walk) := keeps_map (keeps [])

end

variable {name : String}

/-! ### Steps of a walk -/

theorem walkKeeps_labelled (label : Value) (fallback : String) (ctx : Context) :
    WalkKeeps name (labelled label fallback ctx) := by
  unfold labelled
  split
  · exact walkKeeps_bind (walkKeeps_pure _) fun text => walkKeeps_claim text
  · refine walkKeeps_bind (walkKeeps_lift (keeps_render _ _ _)) fun value => ?_
    exact walkKeeps_bind (walkKeeps_lift (keeps_reads (reads_plainText value))) fun text => walkKeeps_claim text

theorem walkKeeps_namedOr (given : Option String) (label : Value) (fallback : String) (ctx : Context) :
    WalkKeeps name (namedOr given label fallback ctx) := by
  unfold namedOr
  split
  · split
    · exact walkKeeps_labelled _ _ _
    · exact walkKeeps_pure _
  · exact walkKeeps_labelled _ _ _

theorem walkKeeps_givenOr (given : Option String) (label : Value) (fallback : String) (ctx : Context) :
    WalkKeeps name (givenOr given label fallback ctx) := by
  unfold givenOr
  split
  · exact walkKeeps_pure _
  · exact walkKeeps_labelled _ _ _

theorem keeps_blueprint (source : Action) (ctx : Context) (path label : String) (content : BlueprintContent)
    (children : List Blueprint) : Keeps name (blueprint source ctx path label content children) := by
  refine keeps_bind (keeps_evaluateVector _ _ _) fun position => keeps_bind (keeps_evaluateVector _ _ _) fun rotation => ?_
  refine keeps_bind (keeps_evaluateVector _ _ _) fun scale => keeps_bind (keeps_evaluateVisible _ _ _) fun visible => ?_
  exact keeps_bind (keeps_reads reads_get) fun session => keeps_pure _

section

variable {walkChildren : Context → String → Walk (List Blueprint)} (walks : ∀ ctx path, WalkKeeps name (walkChildren ctx path))

include walks

theorem keeps_group (source : Action) (ctx : Context) (path label : String) :
    Keeps name (group source walkChildren ctx path label) :=
  keeps_bind (keeps_inside (walks ctx path)) fun _ => keeps_blueprint _ _ _ _ _ _

theorem keeps_template (source : Action) (parameters expressions : Bindings) (ctx : Context) (path label : String) :
    Keeps name (template source parameters expressions walkChildren ctx path label) := by
  have overrides : Reads (overridesFor path) := reads_bind reads_get fun _ => reads_pure _
  refine keeps_bind (keeps_reads overrides) fun overrides => keeps_bind (keeps_reads reads_store) fun store => ?_
  refine keeps_bind (keeps_onEvaluator _) fun scope => keeps_bind (keeps_inside (walks scope path)) fun children => ?_
  exact keeps_bind (keeps_blueprint _ _ _ _ _ _) fun _ => keeps_pure _

theorem keeps_instanceAt (source : Action) (parameters : Bindings) (index : Nat) (position : Vec3) (ctx : Context)
    (path label : String) : Keeps name (instanceAt source parameters walkChildren index position ctx path label) := by
  refine keeps_bind (keeps_foldlM _ (fun scope entry => ?_) _) fun scope => ?_
  · exact keeps_bind (keeps_evaluate _ _ _) fun value => keeps_pure _
  · refine keeps_bind (keeps_evaluateVector _ _ _) fun offset => keeps_bind (keeps_reads (reads_shift _ _)) fun place => ?_
    refine keeps_bind (keeps_inside (walks scope path)) fun children => ?_
    exact keeps_bind (keeps_blueprint _ _ _ _ _ _) fun _ => keeps_pure _

end

/-- A record in place of a count. -/
theorem keeps_noted {α : Type} (code text path : String) : Keeps name (do
    record code text (some path)
    return none : SessionAction (Option α)) := keeps_bind (keeps_record _ _ _) fun _ => keeps_pure _

theorem keeps_repetitionCount (count : Value) (ctx : Context) (path : String) : Keeps name (repetitionCount count ctx path) := by
  refine keeps_bind (keeps_evaluate _ _ _) fun value => ?_
  split
  · split
    · exact keeps_bind (keeps_reads (reads_shown _)) fun text => keeps_noted _ _ _
    · exact keeps_throw _
  · split
    · exact keeps_noted _ _ _
    · refine keeps_bind (keeps_reads (reads_lift _)) fun whole => keeps_bind (keeps_reads reads_get) fun session => ?_
      dsimp only
      split
      · exact keeps_noted _ _ _
      · exact keeps_pure _

theorem keeps_loopCount (start stop step : Value) (path : String) : Keeps name (loopCount start stop step path) := by
  unfold loopCount
  split
  · split
    · refine keeps_bind (keeps_reads (reads_shown _)) fun low => keeps_bind (keeps_reads (reads_shown _)) fun high => ?_
      exact keeps_noted _ _ _
    · exact keeps_throw _
  · split
    · exact keeps_noted _ _ _
    · split
      · exact keeps_noted _ _ _
      · refine keeps_bind (keeps_reads (reads_lift _)) fun whole => keeps_bind (keeps_reads reads_get) fun session => ?_
        dsimp only
        split
        · exact keeps_noted _ _ _
        · exact keeps_pure _

theorem keeps_placements (options : Option Bindings) (count : Nat) (ctx : Context) (path : String) :
    Keeps name (placements options count ctx path) := by
  have chosen : Keeps name (placementOptions options ctx path) := by
    unfold placementOptions
    dsimp only
    split
    · exact keeps_bind (keeps_evaluateText _ _ _) fun curve => keeps_pure _
    · exact keeps_pure _
  exact keeps_bind chosen fun options => keeps_bind (keeps_reads reads_store) fun store => keeps_onEvaluator _

theorem walkKeeps_repetition {walkChildren : Context → String → Walk (List Blueprint)}
    (walks : ∀ ctx path, WalkKeeps name (walkChildren ctx path)) (source : Action) (count : Value)
    (distribution : Option Bindings) (parameters : Bindings) (ctx : Context) (scope : String) :
    WalkKeeps name (repetition source count distribution parameters walkChildren ctx scope) := by
  have all : ∀ base, WalkKeeps name (instances source count distribution parameters walkChildren ctx scope base) := by
    intro base
    refine walkKeeps_bind (walkKeeps_lift (keeps_repetitionCount _ _ _)) fun found => ?_
    split
    · exact walkKeeps_pure _
    · refine walkKeeps_bind (walkKeeps_lift (keeps_attempt (keeps_placements _ _ _ _))) fun result => ?_
      split
      · split
        · exact walkKeeps_bind (walkKeeps_lift (keeps_record _ _ _)) fun _ => walkKeeps_pure _
        · exact walkKeeps_throw _
      · refine walkKeeps_mapM _ fun item => walkKeeps_bind (walkKeeps_claim _) fun label => ?_
        exact walkKeeps_lift (keeps_instanceAt walks _ _ _ _ _ _ _)
  unfold repetition
  dsimp only
  split
  · exact walkKeeps_bind (walkKeeps_pure _) all
  · refine walkKeeps_bind (walkKeeps_lift (keeps_render _ _ _)) fun label => ?_
    exact walkKeeps_bind (walkKeeps_lift (keeps_reads (reads_plainText _))) all

theorem walkKeeps_loop {walkBody : Context → Walk (List Blueprint)} (walks : ∀ ctx, WalkKeeps name (walkBody ctx))
    (counter : String) (start stop step : Value) (ctx : Context) (scope : String) :
    WalkKeeps name (loop counter start stop step walkBody ctx scope) := by
  refine walkKeeps_bind (walkKeeps_lift (keeps_evaluate _ _ _)) fun start => ?_
  refine walkKeeps_bind (walkKeeps_lift (keeps_evaluate _ _ _)) fun stop => ?_
  refine walkKeeps_bind (walkKeeps_lift (keeps_evaluate _ _ _)) fun step => ?_
  refine walkKeeps_bind (walkKeeps_lift (keeps_loopCount _ _ _ _)) fun found => ?_
  split
  · exact walkKeeps_pure _
  · exact walkKeeps_bind (walkKeeps_mapM _ fun n => walks _) fun rounds => walkKeeps_pure _

theorem keeps_leaf (source : Action) (ctx : Context) (scope label : String) (content : BlueprintContent) (material : Value) :
    Keeps name (leaf source ctx scope label content material) :=
  keeps_bind (keeps_blueprint _ _ _ _ _ _) fun _ => keeps_pure _

theorem walkKeeps_geometry (source : Action) (shape : String) (dimensions material : Value) (ctx : Context) (scope : String)
    (given : Option String) : WalkKeeps name (geometry source shape dimensions material ctx scope given) := by
  refine walkKeeps_bind (walkKeeps_givenOr _ _ _ _) fun label => ?_
  refine walkKeeps_bind (walkKeeps_lift (keeps_factoryOrRecord _ _ _)) fun found => ?_
  split
  · exact walkKeeps_pure _
  · refine walkKeeps_bind (walkKeeps_lift (keeps_evaluateDimension _ _ _)) fun dims => ?_
    refine walkKeeps_bind (walkKeeps_lift (keeps_runFactory _ _ _ _ _)) fun result => ?_
    split
    · exact walkKeeps_pure _
    · exact walkKeeps_lift (keeps_leaf _ _ _ _ _ _)

theorem keeps_storeResult {storeAs : Option String} (other : storeAs ≠ some name) (result : Value) :
    Keeps name (storeResult storeAs result) := by
  unfold storeResult
  split
  · rename_i given
    split
    · exact keeps_pure _
    · refine keeps_modify fun s => ?_
      -- an entry under another name does not touch this one
      have apart : name ≠ given := fun same => other (congrArg some same.symm)
      exact (Bindings.get_put given name result s.stored).trans (if_neg apart)
  · exact keeps_pure _

theorem walkKeeps_helper {storeAs : Option String} (other : storeAs ≠ some name) (source : Action) (verb : String)
    (params : Bindings) (material : Value) (ctx : Context) (scope : String) (given : Option String) :
    WalkKeeps name (helper source verb params material storeAs ctx scope given) := by
  have called : ∀ place, WalkKeeps name (call source verb params material storeAs ctx scope given place) := by
    intro place
    refine walkKeeps_bind (walkKeeps_lift (keeps_factoryOrRecord _ _ _)) fun found => ?_
    split
    · exact walkKeeps_pure _
    · refine walkKeeps_bind (walkKeeps_lift (keeps_evaluateParamWithin _ _ _ _)) fun params => ?_
      refine walkKeeps_bind (walkKeeps_lift (keeps_reads (reads_helperLabel _ _))) fun label => ?_
      refine walkKeeps_bind (walkKeeps_givenOr _ _ _ _) fun label => ?_
      split
      · exact walkKeeps_lift (keeps_leaf _ _ _ _ _ _)
      · refine walkKeeps_bind (walkKeeps_lift (keeps_runFactory _ _ _ _ _)) fun result => ?_
        split
        · exact walkKeeps_pure _
        · refine walkKeeps_bind (walkKeeps_lift (keeps_storeResult other _)) fun _ => ?_
          exact walkKeeps_lift (keeps_leaf _ _ _ _ _ _)
  unfold helper
  dsimp only
  split
  · exact walkKeeps_bind (walkKeeps_lift (keeps_reads (reads_plainText _))) fun text => called _
  · exact walkKeeps_bind (walkKeeps_pure _) fun text => called _

theorem keeps_reference (source : Action) (target : String) (material : Value) (ctx : Context) (path label : String) :
    Keeps name (reference source target material ctx path label) := by
  refine keeps_bind (keeps_render _ _ _) fun text => keeps_bind (keeps_reads (reads_plainText _)) fun target => ?_
  exact keeps_bind (keeps_blueprint _ _ _ _ _ _) fun _ => keeps_pure _

theorem walkKeeps_single {build : String → SessionAction Blueprint} (given : Option String) (label : Value)
    (fallback : String) (ctx : Context) (keeps : ∀ label, Keeps name (build label)) : WalkKeeps name (do
      let label ← namedOr given label fallback ctx
      return [← build label]) :=
  walkKeeps_bind (walkKeeps_namedOr _ _ _ _) fun label => walkKeeps_bind (walkKeeps_lift (keeps label)) fun _ => walkKeeps_pure _

mutual
/-- A walk of actions that store nothing under the name leaves what is stored there. -/
theorem walkKeeps_action (ctx : Context) (scope : String) (given : Option String) : ∀ act : Action, act.stores name = false →
    WalkKeeps name (action ctx scope given act)
  | .group frame children, off => by
    rw [Action.stores] at off
    rw [action]
    exact walkKeeps_single given _ _ ctx fun label =>
      keeps_group (fun ctx path => walkKeeps_actions ctx path children off) _ _ _ _
  | .template frame parameters expressions body, off => by
    rw [Action.stores] at off
    rw [action]
    exact walkKeeps_single given _ _ ctx fun label =>
      keeps_template (fun ctx path => walkKeeps_actions ctx path body off) _ _ _ _ _ _
  | .repetition frame count distribution parameters children, off => by
    rw [Action.stores] at off
    rw [action]
    exact walkKeeps_repetition (fun ctx path => walkKeeps_actions ctx path children off) _ _ _ _ _ _
  | .loop frame counter start stop step body, off => by
    rw [Action.stores] at off
    rw [action]
    exact walkKeeps_loop (fun ctx => walkKeeps_actions ctx scope body off) _ _ _ _ _ _
  | .conditional frame condition accepted refused, off => by
    rw [Action.stores, Bool.or_eq_false_iff] at off
    rw [action]
    refine walkKeeps_bind (walkKeeps_lift (keeps_evaluate _ _ _)) fun value => ?_
    split
    · exact walkKeeps_actions ctx scope accepted off.1
    · exact walkKeeps_actions ctx scope refused off.2
  | .helper frame verb params material storeAs, off => by
    rw [Action.stores] at off
    rw [action]
    exact walkKeeps_helper (by simpa using off) _ _ _ _ _ _ _
  | .reference frame target material, _ => by
    rw [action]
    exact walkKeeps_single given _ _ ctx fun label => keeps_reference _ _ _ _ _ _
  | .geometry frame shape dimensions material, _ => by
    rw [action]
    exact walkKeeps_geometry _ _ _ _ _ _ _

theorem walkKeeps_actions (ctx : Context) (scope : String) : ∀ list : List Action, Action.anyStores name list = false →
    WalkKeeps name (actions ctx scope list)
  | [], _ => by
    rw [actions]
    exact walkKeeps_pure _
  | first :: rest, off => by
    rw [Action.anyStores, Bool.or_eq_false_iff] at off
    rw [actions]
    refine walkKeeps_bind (walkKeeps_action ctx scope .none first off.1) fun found => ?_
    exact walkKeeps_bind (walkKeeps_actions ctx scope rest off.2) fun others => walkKeeps_pure _
end

/-! ### What a name means -/

/-- A stored name means the result, or the curve that it carries, whatever else it is bound to. -/
theorem evaluateText_stored {name : String} {result : Value} {s : Session} (stored : s.stored.get? name = some result)
    (noFont : Expression.dropWord? fontScheme name.toList = none) (ctx : Context) (path : String) :
    (evaluateText name ctx path).run.run s = (.ok (storedContribution s.scene.store result), s) := by
  have read : (get : SessionAction Session).run.run s = (.ok s, s) := rfl
  simp only [evaluateText, noFont]
  rw [ExceptT.run_bind, StateT.run_bind, read]
  dsimp only [bind]
  rw [stored]
  rfl

/-- The call of a helper stored its result under the name; or the helper has not run, or has given nothing, and the same
is stored there as before. -/
def Stored (name : String) (s : Session) (bs : List Blueprint) (s' : Session) : Prop :=
  (∃ b verb params result, bs = [b] ∧ b.content = .call verb params (some result) ∧ s'.stored.get? name = some result) ∨
    SameStored name s s' ∧ ∀ b ∈ bs, ∃ verb params, b.content = .call verb params none

theorem stored_later {name : String} {s middle s' : Session} {bs : List Blueprint} (before : SameStored name s middle)
    (settled : Stored name middle bs s') : Stored name s bs s' :=
  settled.imp_right fun ⟨same, contents⟩ => ⟨(steady_stored name).trans before same, contents⟩

-- Steps before the one that stores are passed over as long as they keep what is stored.
theorem stored_after {α : Type} {name : String} {walk : Walk α} {next : α → Walk (List Blueprint)} {siblings : SiblingNames}
    {s : Session} (keeps : WalkKeeps name walk)
    (rest : ∀ value siblings' middle, Yields (next value siblings') middle fun found after => Stored name middle found.1 after) :
    Yields ((walk >>= next) siblings) s fun found after => Stored name s found.1 after :=
  yields_bind (yields_of_within (keeps siblings s)) fun result middle same =>
    yields_mono (rest result.1 result.2 middle) fun _ _ settled => stored_later same.1 settled

theorem yields_leaf (name : String) (source : Action) (ctx : Context) (scope label : String) (content : BlueprintContent)
    (material : Value) (siblings : SiblingNames) (s : Session) :
    Yields ((liftM (leaf source ctx scope label content material) : Walk (List Blueprint)) siblings) s fun found after =>
      SameStored name s after ∧ ∃ b, found.1 = [b] ∧ b.content = content := by
  have made : Yields (leaf source ctx scope label content material) s fun bs _ => ∃ b, bs = [b] ∧ b.content = content := by
    refine yields_bind (?_ : Yields _ s fun (b : Blueprint) _ => b.content = content) fun b _ same => yields_pure ⟨_, rfl, same⟩
    refine yields_seq fun position first => yields_seq fun rotation second => ?_
    exact yields_seq fun scale third => yields_seq fun visible last => yields_get (yields_pure rfl)
  have same := yields_of_within ((keeps_leaf source ctx scope label content material : Keeps name _) s)
  exact yields_bind (yields_and same made) fun bs after both => yields_pure ⟨both.1.1, both.2⟩

theorem yields_storeResult {name : String} (named : name ≠ "") (result : Value) (s : Session) :
    Yields (storeResult (some name) result) s fun _ after => after.stored.get? name = some result := by
  have opened : storeResult (some name) result =
      modify fun session => { session with stored := session.stored.put name result } := if_neg (by simpa using named)
  rw [opened]
  exact yields_modify ((Bindings.get_put name name result _).trans (if_pos rfl))

theorem stored_call {name : String} (named : name ≠ "") (source : Action) (verb : String) (params : Bindings) (material : Value)
    (ctx : Context) (scope : String) (given : Option String) (place : String) (siblings : SiblingNames) (s : Session) :
    Yields (call source verb params material (some name) ctx scope given place siblings) s
      fun found after => Stored name s found.1 after := by
  have nothing : ∀ siblings (s : Session), Yields ((pure [] : Walk (List Blueprint)) siblings) s
      fun found after => Stored name s found.1 after :=
    fun _ _ => yields_pure (.inr ⟨rfl, fun _ member => nomatch member⟩)
  refine stored_after (walkKeeps_lift (keeps_factoryOrRecord _ _ _)) fun found siblings s => ?_
  split
  · exact nothing siblings s
  · refine stored_after (walkKeeps_lift (keeps_evaluateParamWithin _ _ _ _)) fun params siblings s => ?_
    refine stored_after (walkKeeps_lift (keeps_reads (reads_helperLabel _ _))) fun label siblings s => ?_
    refine stored_after (walkKeeps_givenOr _ _ _ _) fun label siblings s => ?_
    split
    · -- the parameters hold references, so the factory runs later
      refine yields_mono (yields_leaf name _ _ _ _ _ _ siblings s) ?_
      rintro ⟨_, _⟩ after ⟨kept, b, rfl, content⟩
      exact .inr ⟨kept, fun b' member => ⟨_, _, List.mem_singleton.mp member ▸ content⟩⟩
    · refine stored_after (walkKeeps_lift (keeps_runFactory _ _ _ _ _)) fun result siblings s => ?_
      split
      · exact nothing siblings s
      · have stores : Yields ((liftM (storeResult (some name) result) : Walk Unit) siblings) s fun _ after =>
            after.stored.get? name = some result :=
          yields_bind (yields_storeResult named result s) fun _ after stored => yields_pure stored
        refine yields_bind stores fun _ last stored => ?_
        -- the blueprint is made after the result is stored
        refine yields_mono (yields_leaf name _ _ _ _ _ _ _ last) ?_
        rintro ⟨_, _⟩ after ⟨kept, b, rfl, content⟩
        exact .inl ⟨b, _, _, result, rfl, content, kept.trans stored⟩

theorem stored_helper {name : String} (named : name ≠ "") (frame : Frame) (verb : String) (params : Bindings) (material : Value)
    (ctx : Context) (scope : String) (given : Option String) (siblings : SiblingNames) (s : Session) :
    Yields (action ctx scope given (.helper frame verb params material (some name)) siblings) s
      fun found after => Stored name s found.1 after := by
  have called := fun place siblings s => stored_call named (.helper frame verb params material (some name)) verb params
    material ctx scope given place siblings s
  rw [action]
  unfold helper
  dsimp only
  split
  · exact stored_after (walkKeeps_lift (keeps_reads (reads_plainText _))) fun text siblings s => called _ siblings s
  · exact called _ siblings s

/-- From a helper that stores its result on, and as long as no other action stores under the name, a parameter that is the
name is the result, or the curve that it carries. A helper that runs later has not changed what the name means. -/
theorem stored_until {name : String} (named : name ≠ "") (noFont : Expression.dropWord? fontScheme name.toList = none)
    (frame : Frame) (verb : String) (params : Bindings) (material : Value) (ctx : Context) (scope : String)
    (given : Option String) {rest : List Action} (others : Action.anyStores name rest = false) (siblings : SiblingNames)
    (s : Session) : Yields ((do
      let bs ← action ctx scope given (.helper frame verb params material (some name))
      let _ ← actions ctx scope rest
      return bs : Walk (List Blueprint)) siblings) s fun found after =>
      (∃ b verb params result, found.1 = [b] ∧ b.content = .call verb params (some result) ∧
        ∀ ctx path, (evaluateText name ctx path).run.run after =
          (.ok (storedContribution after.scene.store result), after)) ∨
      SameStored name s after ∧ ∀ b ∈ found.1, ∃ verb params, b.content = .call verb params none := by
  refine yields_bind (stored_helper named frame verb params material ctx scope given siblings s) fun found middle settled => ?_
  refine yields_bind (yields_of_within (walkKeeps_actions ctx scope rest others found.2 middle)) fun more after same => ?_
  refine yields_pure ?_
  rcases settled with ⟨b, verb, params, result, bs, content, stored⟩ | ⟨unchanged, contents⟩
  · exact .inl ⟨b, verb, params, result, bs, content, evaluateText_stored (same.1.trans stored) noFont⟩
  · exact .inr ⟨(steady_stored name).trans unchanged same.1, contents⟩

end Walk

end ProceduralScene
