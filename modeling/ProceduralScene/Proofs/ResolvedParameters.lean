import ProceduralScene.Build.Parameter
import ProceduralScene.Proofs.LayeredNames
import ProceduralScene.Proofs.Outcome

/-!
Where parameters get their values from. The declared ones come first, in their order: a value that overrides one wins, then
its literal, then its expression in the scope of those before it. Names that only have an expression come after all of them,
and nothing overrides these.
-/

set_option autoImplicit false

namespace ProceduralScene

/-- Where a parameter gets its value from. -/
inductive ParameterSource where
  | given (value : Value)
  | computed (expression : Value)

namespace ParameterSource

/-- The source of a declared parameter. An expression listed apart serves those without one of their own. -/
def ofDeclared (expressions overrides : Bindings) (entry : String × Value) : ParameterSource :=
  match overrides.get? entry.1 with
  | some value => .given value
  | none =>
    let literal := literalDefault entry.2
    if !literal.isNull then .given literal
    else
      let own := definingExpression entry.2
      let expression := if own.isNull then (expressions.get? entry.1).getD .null else own
      if expression.isNull then .given (.int 0) else .computed expression

/-- The expressions of names that are not declared. -/
def undeclared (specs expressions : Bindings) : Bindings := expressions.filter fun entry => !specs.has entry.1

/-- The parameters in the order of their evaluation. -/
def inOrder (specs expressions overrides : Bindings) : List (String × ParameterSource) :=
  specs.map (fun entry => (entry.1, ofDeclared expressions overrides entry)) ++
    (undeclared specs expressions).map fun entry => (entry.1, .computed entry.2)

/-- Binds a parameter in a scope. -/
def settle (nodeText : NodeText) (scope : Context) (entry : String × ParameterSource) : Evaluation Context :=
  match entry.2 with
  | .given value => return scope.set entry.1 value
  | .computed expression => return scope.set entry.1 (← Evaluator.evaluate nodeText expression scope none)

/-- Whether a source gives a value in a scope. -/
def Gives (nodeText : NodeText) (scope : Context) : ParameterSource → Value → Prop
  | .given found, value => value = found
  | .computed expression, value => ∃ before after : Evaluator,
      (Evaluator.evaluate nodeText expression scope none).run.run before = (.ok value, after)

end ParameterSource

open ParameterSource

variable {nodeText : NodeText} {specs expressions overrides : Bindings} {parent : Context}

theorem resolveParameters_eq : resolveParameters nodeText specs parent expressions overrides =
    (inOrder specs expressions overrides).foldlM (settle nodeText) (parent.child []) := by
  unfold resolveParameters inOrder undeclared
  simp only [List.foldlM_append, List.foldlM_map, List.foldlM_filter]
  congr 1
  · congr 1
    funext scope entry
    cases found : overrides.get? entry.1 with
    | some value => simp only [ofDeclared, found, settle]
    | none =>
      simp only [ofDeclared, found]
      split
      · rfl
      · split
        · split <;> rfl
        · rfl
  · funext declared
    congr 1
    funext scope entry
    cases specs.has entry.1 <;> rfl

/-- Overriding values matter for declared parameters alone. -/
theorem resolveParameters_declared {others : Bindings}
    (agree : ∀ name ∈ specs.names, overrides.get? name = others.get? name) :
    resolveParameters nodeText specs parent expressions overrides =
      resolveParameters nodeText specs parent expressions others := by
  have same : inOrder specs expressions overrides = inOrder specs expressions others := by
    unfold inOrder
    congr 1
    refine List.map_congr_left fun entry member => ?_
    rw [ofDeclared, ofDeclared, agree entry.1 (List.mem_map_of_mem member)]
  rw [resolveParameters_eq, resolveParameters_eq, same]

/-! ### What the scope holds -/

/-- Each source in order gives a value in the scope of those before it. -/
inductive Settles (nodeText : NodeText) (parent : Context) : Bindings → List (String × ParameterSource) → Bindings → Prop
  | done (earlier : Bindings) : Settles nodeText parent earlier [] earlier
  | next {earlier whole : Bindings} {name : String} {source : ParameterSource} {value : Value}
      {sources : List (String × ParameterSource)} : source.Gives nodeText (earlier :: parent) value →
      Settles nodeText parent (earlier ++ [(name, value)]) sources whole →
      Settles nodeText parent earlier ((name, source) :: sources) whole

theorem yields_source {earlier : Bindings} {name : String} (new : name ∉ earlier.names) (source : ParameterSource)
    (ev : Evaluator) : Yields (settle nodeText (earlier :: parent) (name, source)) ev fun ctx _ =>
      ∃ value, source.Gives nodeText (earlier :: parent) value ∧ ctx = (earlier ++ [(name, value)]) :: parent := by
  have set : ∀ value : Value, Context.set name value (earlier :: parent) = (earlier ++ [(name, value)]) :: parent :=
    fun value => congrArg (· :: parent) (Bindings.put_new new value)
  unfold settle
  cases source with
  | given value => exact yields_pure ⟨value, rfl, set value⟩
  | computed expression =>
    refine yields_bind (yields_of_run fun value after run => (⟨ev, after, run⟩ : Gives nodeText _ (.computed expression) value))
      fun value _ gives => yields_pure ⟨value, gives, set value⟩

theorem yields_inOrder (sources : List (String × ParameterSource)) : ∀ {earlier : Bindings},
    (earlier.names ++ sources.map (·.1)).Nodup → ∀ ev : Evaluator,
    Yields (sources.foldlM (settle nodeText) (earlier :: parent)) ev fun ctx _ =>
      ∃ whole, ctx = whole :: parent ∧ Settles nodeText parent earlier sources whole := by
  induction sources with
  | nil => exact fun _ ev => yields_pure ⟨_, rfl, .done _⟩
  | cons entry sources ih =>
    intro earlier once ev
    obtain ⟨name, source⟩ := entry
    have new : name ∉ earlier.names := fun bound => (List.disjoint_of_nodup_append once) bound List.mem_cons_self
    rw [List.foldlM_cons]
    refine yields_bind (yields_source new source ev) ?_
    rintro _ after ⟨value, gives, rfl⟩
    have further : ((earlier ++ [(name, value)]).names ++ sources.map (·.1)).Nodup := by
      rw [Bindings.names, List.map_append, List.append_assoc]
      exact once
    refine yields_mono (ih further after) ?_
    rintro ctx _ ⟨whole, rfl, settles⟩
    exact ⟨whole, rfl, .next gives settles⟩

theorem settles_extends {earlier whole : Bindings} {sources : List (String × ParameterSource)}
    (settles : Settles nodeText parent earlier sources whole) :
    ∃ later : Bindings, whole = earlier ++ later ∧ later.names = sources.map (·.1) := by
  induction settles with
  | done earlier => exact ⟨[], (List.append_nil _).symm, rfl⟩
  | next gives settles ih =>
    obtain ⟨later, rfl, names⟩ := ih
    exact ⟨_, List.append_assoc _ _ _, congrArg (_ :: ·) names⟩

/-- The value of one source, and what its scope was. -/
theorem settles_at {earlier whole : Bindings} {sources : List (String × ParameterSource)}
    (settles : Settles nodeText parent earlier sources whole) : ∀ {before after : List (String × ParameterSource)}
    {name : String} {source : ParameterSource}, sources = before ++ (name, source) :: after →
      ∃ (values : Bindings) (value : Value) (later : Bindings), whole = earlier ++ values ++ (name, value) :: later ∧
        values.names = before.map (·.1) ∧ source.Gives nodeText ((earlier ++ values) :: parent) value := by
  induction settles with
  | done earlier =>
    intro before after name source split
    cases before <;> cases split
  | @next earlier whole first source value sources gives settles ih =>
    intro before after name source' split
    cases before with
    | nil =>
      cases split
      obtain ⟨later, rfl, -⟩ := settles_extends settles
      exact ⟨[], value, later, by simp, rfl, by rwa [List.append_nil]⟩
    | cons entry before =>
      rw [List.cons_append] at split
      cases split
      obtain ⟨values, value', later, rfl, same, gives'⟩ := ih rfl
      refine ⟨(first, value) :: values, value', later, by simp, ?_, by simpa using gives'⟩
      rw [List.map_cons, ← same]
      rfl

theorem once_inOrder (once : specs.names.Nodup) (once' : expressions.names.Nodup) :
    ((inOrder specs expressions overrides).map (·.1)).Nodup := by
  have names : (inOrder specs expressions overrides).map (·.1) = specs.names ++ (undeclared specs expressions).names := by
    simp [inOrder, Bindings.names, Function.comp_def]
  rw [names]
  refine once.append (once'.sublist (List.filter_sublist.map _)) fun name declared further => ?_
  obtain ⟨entry, member, rfl⟩ := List.mem_map.mp further
  have apart := (List.mem_filter.mp member).2
  rw [Bindings.has_iff.mpr declared] at apart
  cases apart

section

variable (once : specs.names.Nodup) (once' : expressions.names.Nodup) (ev : Evaluator)

include once once'

/-- The scope that parameters are resolved to: each name in order has what its source gives in the scope of the names
before it. -/
theorem resolveParameters_inOrder : Yields (resolveParameters nodeText specs parent expressions overrides) ev fun ctx _ =>
    ∃ whole : Bindings, ctx = whole :: parent ∧ whole.names = (inOrder specs expressions overrides).map (·.1) ∧
      ∀ {before after : List (String × ParameterSource)} {name : String} {source : ParameterSource},
        inOrder specs expressions overrides = before ++ (name, source) :: after →
        ∃ (earlier : Bindings) (value : Value) (later : Bindings), whole = earlier ++ (name, value) :: later ∧
          earlier.names = before.map (·.1) ∧ source.Gives nodeText (earlier :: parent) value := by
  have distinct := @once_inOrder specs expressions overrides once once'
  rw [resolveParameters_eq]
  refine yields_mono (@yields_inOrder nodeText parent (inOrder specs expressions overrides) [] distinct ev) ?_
  rintro ctx _ ⟨whole, rfl, settles⟩
  obtain ⟨later, rfl, names⟩ := settles_extends settles
  exact ⟨_, rfl, names, fun split => settles_at settles split⟩

/-- No name that comes later changes the value of another one. -/
theorem resolveParameters_lookup {name : String} {source : ParameterSource}
    (listed : (name, source) ∈ inOrder specs expressions overrides) :
    Yields (resolveParameters nodeText specs parent expressions overrides) ev fun ctx _ =>
      ∃ (value : Value) (earlier : Bindings), ctx.get? name = some value ∧ source.Gives nodeText (earlier :: parent) value := by
  refine yields_mono (resolveParameters_inOrder once once' ev) ?_
  rintro ctx _ ⟨whole, rfl, names, sources⟩
  obtain ⟨before, after, split⟩ := List.append_of_mem listed
  obtain ⟨earlier, value, later, rfl, -, gives⟩ := sources split
  have distinct := @once_inOrder specs expressions overrides once once'
  rw [← names, Bindings.names, List.map_append] at distinct
  have new : name ∉ earlier.names := fun bound => List.disjoint_of_nodup_append distinct bound List.mem_cons_self
  refine ⟨value, earlier, ?_, gives⟩
  have found : Bindings.get? name (earlier ++ (name, value) :: later) = some value := by
    rw [Bindings.get?, List.lookup_append, ← Bindings.get?, Bindings.get_none.mpr new, Option.none_or, ← Bindings.get?,
      Bindings.get_cons, if_pos rfl]
  rw [Context.get?, found]
  rfl

/-- A declared parameter that is overridden has the value that overrides it. -/
theorem resolveParameters_overridden {name : String} (declared : name ∈ specs.names) {value : Value}
    (overridden : overrides.get? name = some value) :
    Yields (resolveParameters nodeText specs parent expressions overrides) ev fun ctx _ => ctx.get? name = some value := by
  obtain ⟨entry, member, rfl⟩ := List.mem_map.mp declared
  have listed : (entry.1, .given value) ∈ inOrder specs expressions overrides := by
    refine List.mem_append_left _ (List.mem_map.mpr ⟨entry, member, ?_⟩)
    rw [ofDeclared, overridden]
  refine yields_mono (resolveParameters_lookup once once' ev listed) ?_
  rintro ctx _ ⟨found, earlier, same, rfl⟩
  exact same

end

end ProceduralScene
