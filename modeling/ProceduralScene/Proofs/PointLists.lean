import Mathlib.Data.List.Forall2
import ProceduralScene.Build.Parameter
import ProceduralScene.Proofs.PlainValue

/-!
Lists of points with path descriptors in them. Helper parameters, dimensions and the plain expansion put the points
of a descriptor in its place in different ways; where the arguments need no evaluation the three give one list.
-/

set_option autoImplicit false

namespace ProceduralScene

namespace Value

mutual
/-- Whether a value holds neither a text nor a map. -/
def isWordless : Value → Bool
  | .text _ | .map _ => false
  | .list items => itemsWordless items
  | _ => true

def itemsWordless : List Value → Bool
  | [] => true
  | x :: rest => isWordless x && itemsWordless rest
end

theorem isText_wordless {value : Value} (wordless : value.isWordless = true) : value.isText = false := by
  cases value <;> first | rfl | cases wordless

theorem same_text_wordless {value : Value} (wordless : value.isWordless = true) (s : String) :
    value.same (.text s) = false := by
  cases value <;> first | rfl | cases wordless

end Value

namespace SessionAction

open Path2D

/-- Every entry but the kind holds neither texts nor maps. -/
def Argued (entries : List (Key × Value)) : Prop := ∀ entry ∈ entries, entry.1 ≠ .text "kind" → entry.2.isWordless = true

/-- What an item of a point list contributes: a path descriptor without texts and maps in its arguments the points of
its path, any other value without texts and maps itself. -/
inductive Contributes : Value → List Value → Prop where
  | kept {value : Value} (wordless : value.isWordless = true) : Contributes value [value]
  | path {entries : List (Key × Value)} {points : Path} (argued : Argued entries)
      (expanded : expandDescriptor (.map entries) = .ok points) : Contributes (.map entries) (points.map Point.toValue)

/-! ### Items -/

/-- What an evaluation puts in the place of an item: the points of a descriptor, one value for anything else. -/
def Yields (evaluateOne : Value → SessionAction Value) (item : Value) (out : List Value) : Prop :=
  (isDescriptor item = .ok true ∧ evaluateOne item = pure (.list out)) ∨
    ∃ value, isDescriptor item = .ok false ∧ evaluateOne item = pure value ∧ out = [value]

theorem evaluateItems_yields {evaluateOne : Value → SessionAction Value} {items : List Value} {outs : List (List Value)}
    (yields : List.Forall₂ (Yields evaluateOne) items outs) : evaluateItems evaluateOne items = pure outs.flatten := by
  induction yields with
  | nil => rfl
  | cons first _ ih =>
    rcases first with ⟨path, evaluated⟩ | ⟨value, kept, evaluated, rfl⟩
    · rw [evaluateItems, path, evaluated, ih]
      rfl
    · rw [evaluateItems, kept, evaluated, ih]
      rfl

theorem dimensionItems_yields {ctx : Context} {path : String} {items : List Value} {outs : List (List Value)}
    (yields : List.Forall₂ (Yields (evaluateDimension ctx path)) items outs) :
    evaluateDimensionItems ctx path items = pure outs.flatten := by
  induction yields with
  | nil => rfl
  | cons first _ ih =>
    rcases first with ⟨path, evaluated⟩ | ⟨value, kept, evaluated, rfl⟩
    · rw [evaluateDimensionItems, path, evaluated, ih]
      rfl
    · rw [evaluateDimensionItems, kept, evaluated, ih]
      rfl

/-! ### Values without texts and maps -/

theorem isDescriptor_wordless {value : Value} (wordless : value.isWordless = true) : isDescriptor value = .ok false := by
  cases value <;> first | rfl | cases wordless

theorem yields_wordless {evaluateOne : Value → SessionAction Value}
    (still : ∀ value : Value, value.isWordless = true → evaluateOne value = pure value) {items : List Value}
    (wordless : Value.itemsWordless items = true) : List.Forall₂ (Yields evaluateOne) items (items.map fun item => [item]) := by
  induction items with
  | nil => exact .nil
  | cons item rest ih =>
    rw [Value.itemsWordless, Bool.and_eq_true] at wordless
    exact .cons (.inr ⟨item, isDescriptor_wordless wordless.1, still item wordless.1, rfl⟩) (ih wordless.2)

theorem evaluateParamWithin_wordless (ctx : Context) (path : String) (depth : Nat) : ∀ value : Value,
    value.isWordless = true → evaluateParamWithin ctx path depth value = pure value := by
  induction depth with
  | zero => exact fun _ _ => rfl
  | succ depth ih =>
    intro value wordless
    cases value with
    | list items =>
      rw [evaluateParamWithin, evaluateItems_yields (yields_wordless ih wordless), ← List.flatMap_def, List.flatMap_singleton']
      rfl
    | text s => cases wordless
    | map entries => cases wordless
    | _ => rfl

mutual
theorem evaluateDimension_wordless (ctx : Context) (path : String) : ∀ value : Value,
    value.isWordless = true → evaluateDimension ctx path value = pure value
  | .list items => fun wordless => by
    rw [evaluateDimension, dimensionItems_wordless ctx path items wordless]
    rfl
  | .text _ | .map _ => fun wordless => by cases wordless
  | .null | .bool _ | .int _ | .float _ | .complex _ _ | .node _ | .marker _ => fun _ => by
    rw [evaluateDimension] <;> (intros; contradiction)

theorem dimensionItems_wordless (ctx : Context) (path : String) : ∀ items : List Value,
    Value.itemsWordless items = true → evaluateDimensionItems ctx path items = pure items
  | [] => fun _ => rfl
  | item :: rest => fun wordless => by
    rw [Value.itemsWordless, Bool.and_eq_true] at wordless
    rw [evaluateDimensionItems, evaluateDimension_wordless ctx path item wordless.1,
      isDescriptor_wordless wordless.1, dimensionItems_wordless ctx path rest wordless.2]
    rfl
end

/-! ### Descriptors -/

theorem entry_wordless {entries : List (Key × Value)} (argued : Argued entries) (name : String) (other : name ≠ "kind") :
    ((Value.entry? name entries).getD .null).isWordless = true := by
  cases found : Value.entry? name entries with
  | none => rfl
  | some value => exact argued (.text name, value) (Value.lookup_mem found) fun same => other (Key.text.inj same)

theorem isHelperDescriptor_argued {entries : List (Key × Value)} (argued : Argued entries) :
    isHelperDescriptor entries = false := by
  have kind := entry_wordless argued "type" (by decide)
  have verb := entry_wordless argued "do" (by decide)
  simp [isHelperDescriptor, Value.same_text_wordless kind, Value.isText_wordless verb]

theorem referenceTarget_argued {entries : List (Key × Value)} (argued : Argued entries) : referenceTarget? entries = none := by
  rw [referenceTarget?, Value.same_text_wordless (entry_wordless argued "type" (by decide))]
  rfl

theorem evaluateEntries_argued {evaluateOne : Value → SessionAction Value}
    (still : ∀ value : Value, value.isWordless = true → evaluateOne value = pure value) {entries : List (Key × Value)}
    (argued : Argued entries) :
    evaluateEntries evaluateOne entries = pure (entries.filter fun entry => entry.1 != .text "kind") := by
  induction entries with
  | nil => rfl
  | cons entry rest ih =>
    obtain ⟨key, value⟩ := entry
    have others := ih fun entry member => argued entry (List.mem_cons_of_mem _ member)
    by_cases same : key = .text "kind"
    · subst same
      rw [evaluateEntries, if_pos (beq_self_eq_true _), others, List.filter_cons_of_neg (by simp)]
    · rw [evaluateEntries, if_neg (by simpa using same), still value (argued _ List.mem_cons_self same), others,
        List.filter_cons_of_pos (by simpa using same)]
      rfl

theorem dimensionEntries_argued (ctx : Context) (path : String) {entries : List (Key × Value)} (argued : Argued entries) :
    evaluateDimensionEntries ctx path entries = pure entries := by
  induction entries with
  | nil => rfl
  | cons entry rest ih =>
    obtain ⟨key, value⟩ := entry
    have others := ih fun entry member => argued entry (List.mem_cons_of_mem _ member)
    by_cases same : key = .text "kind"
    · rw [evaluateDimensionEntries, if_pos (by simpa using same), others]
      rfl
    · rw [evaluateDimensionEntries, if_neg (by simpa using same),
        evaluateDimension_wordless ctx path value (argued _ List.mem_cons_self same), others]
      rfl

theorem expandDescriptor_kind {entries : List (Key × Value)} {kind : Value} {generator : Generator}
    (found : Value.entry? "kind" entries = some kind) (named : kindGenerator kind = .ok (some generator)) :
    expandDescriptor (.map entries) = descriptorArgs entries [] >>= generator.callNamed := by
  rw [expandDescriptor, found]
  dsimp only
  rw [named]
  rfl

/-- A map that expands has a kind that names a generator. -/
theorem expandDescriptor_cases {entries : List (Key × Value)} {points : Path}
    (expanded : expandDescriptor (.map entries) = .ok points) : ∃ kind generator, Value.entry? "kind" entries = some kind ∧
      kindGenerator kind = .ok (some generator) := by
  rw [expandDescriptor] at expanded
  cases found : Value.entry? "kind" entries with
  | none =>
    rw [found] at expanded
    cases expanded
  | some kind =>
    rw [found] at expanded
    dsimp only at expanded
    cases named : kindGenerator kind with
    | error failure =>
      rw [named] at expanded
      cases expanded
    | ok generator =>
      rw [named] at expanded
      cases generator with
      | none => cases expanded
      | some generator => exact ⟨kind, generator, rfl, named⟩

theorem descriptorArgs_text {key : String} (other : key ≠ "kind") (value : Value) (rest : List (Key × Value))
    (args : Bindings) : descriptorArgs ((.text key, value) :: rest) args =
      descriptorArgs rest (args.put (parameterName key) value) := by
  rw [descriptorArgs]
  exact other

/-- The arguments of a descriptor do not depend on where its kind stands. -/
theorem descriptorArgs_moved (kind : Value) (entries : List (Key × Value)) (args : Bindings) :
    descriptorArgs ((entries.filter fun entry => entry.1 != .text "kind") ++ [(.text "kind", kind)]) args =
      descriptorArgs entries args := by
  induction entries generalizing args with
  | nil => rfl
  | cons entry rest ih =>
    obtain ⟨key, value⟩ := entry
    by_cases same : key = .text "kind"
    · subst same
      rw [List.filter_cons_of_neg (by simp), ih, descriptorArgs]
    · rw [List.filter_cons_of_pos (by simpa using same), List.cons_append]
      cases key with
      | text key =>
        have other : key ≠ "kind" := fun again => same (congrArg _ again)
        rw [descriptorArgs_text other, descriptorArgs_text other, ih]
      | _ => rfl

theorem kind_moved (kind : Value) (entries : List (Key × Value)) :
    Value.entry? "kind" ((entries.filter fun entry => entry.1 != .text "kind") ++ [(.text "kind", kind)]) = some kind := by
  induction entries with
  | nil => rfl
  | cons entry rest ih =>
    by_cases same : entry.1 = .text "kind"
    · rwa [List.filter_cons_of_neg (by simpa using same)]
    · rw [List.filter_cons_of_pos (by simpa using same), List.cons_append]
      rw [Value.entry?] at ih ⊢
      rw [List.lookup_cons, beq_false_of_ne (Ne.symm same)]
      exact ih

theorem isDescriptor_expanded {entries : List (Key × Value)} {points : Path}
    (expanded : expandDescriptor (.map entries) = .ok points) : isDescriptor (.map entries) = .ok true := by
  obtain ⟨kind, generator, found, named⟩ := expandDescriptor_cases expanded
  rw [isDescriptor, found, Option.getD_some, named]
  rfl

theorem expandPath_expanded {descriptor : Value} {points : Path} (expanded : expandDescriptor descriptor = .ok points)
    (path : String) : expandPath descriptor path = pure (.list (points.map Point.toValue)) := by
  rw [expandPath, expanded]
  rfl

theorem evaluateParamWithin_path (ctx : Context) (path : String) (depth : Nat) {entries : List (Key × Value)} {points : Path}
    (argued : Argued entries) (expanded : expandDescriptor (.map entries) = .ok points) :
    evaluateParamWithin ctx path (depth + 1) (.map entries) = pure (.list (points.map Point.toValue)) := by
  obtain ⟨kind, generator, found, named⟩ := expandDescriptor_cases expanded
  have moved : expandDescriptor
      (.map ((entries.filter fun entry => entry.1 != .text "kind") ++ [(.text "kind", kind)])) = .ok points := by
    rw [expandDescriptor_kind (kind_moved kind entries) named, descriptorArgs_moved,
      ← expandDescriptor_kind found named, expanded]
  simp only [evaluateParamWithin, isHelperDescriptor_argued argued, referenceTarget_argued argued, Bool.false_eq_true, if_false,
    evaluateEntries_argued (evaluateParamWithin_wordless ctx path depth) argued, found, isDescriptor_expanded expanded,
    pure_bind]
  exact expandPath_expanded moved path

theorem evaluateDimension_path (ctx : Context) (path : String) {entries : List (Key × Value)} {points : Path}
    (argued : Argued entries) (expanded : expandDescriptor (.map entries) = .ok points) :
    evaluateDimension ctx path (.map entries) = pure (.list (points.map Point.toValue)) := by
  rw [evaluateDimension, dimensionEntries_argued ctx path argued]
  simp only [pure_bind, isDescriptor_expanded expanded]
  exact expandPath_expanded expanded path

/-! ### Lists -/

theorem contributes_yields {evaluateOne : Value → SessionAction Value}
    (still : ∀ value : Value, value.isWordless = true → evaluateOne value = pure value)
    (paths : ∀ {entries : List (Key × Value)} {points : Path}, Argued entries →
      expandDescriptor (.map entries) = .ok points → evaluateOne (.map entries) = pure (.list (points.map Point.toValue)))
    {items : List Value} {outs : List (List Value)} (contribute : List.Forall₂ Contributes items outs) :
    List.Forall₂ (Yields evaluateOne) items outs := by
  refine contribute.imp fun item out contributes => ?_
  cases contributes with
  | kept wordless => exact .inr ⟨item, isDescriptor_wordless wordless, still item wordless, rfl⟩
  | path argued expanded => exact .inl ⟨isDescriptor_expanded expanded, paths argued expanded⟩

theorem expandItems_contributes {items : List Value} {outs : List (List Value)}
    (contribute : List.Forall₂ Contributes items outs) : expandItems items = .ok outs.flatten := by
  induction contribute with
  | nil => rfl
  | cons first _ ih =>
    cases first with
    | kept wordless =>
      rw [expandItems, isDescriptor_wordless wordless, ih]
      rfl
    | path argued expanded =>
      rw [expandItems, isDescriptor_expanded expanded, ih]
      simp only [expanded]
      rfl

/-- Helper parameters, dimensions and the plain expansion agree on a list of points and path descriptors without
texts and maps in their arguments: each descriptor is replaced by its points, and every other item is kept. -/
theorem expansions_agree (ctx : Context) (path : String) {items : List Value} {outs : List (List Value)}
    (contribute : List.Forall₂ Contributes items outs) :
    evaluateParam (.list items) ctx path = pure (.list outs.flatten) ∧
      evaluateDimension ctx path (.list items) = pure (.list outs.flatten) ∧ expandItems items = .ok outs.flatten := by
  refine ⟨?_, ?_, expandItems_contributes contribute⟩
  · rw [evaluateParam, evaluateParamWithin, evaluateItems_yields (contributes_yields
      (evaluateParamWithin_wordless ctx path _) (evaluateParamWithin_path ctx path _) contribute)]
    rfl
  · rw [evaluateDimension, dimensionItems_yields (contributes_yields
      (evaluateDimension_wordless ctx path) (evaluateDimension_path ctx path) contribute)]
    rfl

theorem expansions_agree_polyline :
    let corner := Value.ofFloats [5.0, 5.0]
    let descriptor := Value.map [(.text "kind", .text "polyline"),
      (.text "points", .list [Value.ofFloats [0.0, 0.0], Value.ofFloats [1.0, 2.0]])]
    let outs := [[corner], [Value.ofFloats [0.0, 0.0], Value.ofFloats [1.0, 2.0]], [corner]]
    List.Forall₂ Contributes [corner, descriptor, corner] outs ∧
      evaluateParam (.list [corner, descriptor, corner]) [] "path" = pure (.list outs.flatten) ∧
      evaluateDimension [] "path" (.list [corner, descriptor, corner]) = pure (.list outs.flatten) ∧
      expandItems [corner, descriptor, corner] = .ok outs.flatten := by
  intro corner descriptor outs
  have expanded : expandDescriptor descriptor = .ok [⟨0.0, 0.0⟩, ⟨1.0, 2.0⟩] := rfl
  have contribute : List.Forall₂ Contributes [corner, descriptor, corner] outs := by
    refine .cons (.kept rfl) (.cons (.path ?_ expanded) (.cons (.kept rfl) .nil))
    rintro entry (_ | ⟨_, _ | ⟨_, ⟨⟩⟩⟩) other
    · exact absurd rfl other
    · rfl
  exact ⟨contribute, expansions_agree [] "path" contribute⟩

end SessionAction

end ProceduralScene
