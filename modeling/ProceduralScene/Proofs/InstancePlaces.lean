import Mathlib.Data.List.Forall2
import ProceduralScene.Proofs.GivenNames

/-!
Where the instances of a repetition stand. A placement has one offset for each instance, and the position of the
repetition is added to it component by component, as far as the position has components: where it has fewer than
three, the later components of the offset are lost.
-/

set_option autoImplicit false

namespace ProceduralScene

namespace Vec3

/-- The offset moved by the components of a position; where the position has none, the place is zero. -/
def moved (offset : Vec3) : List Float → Vec3
  | [] => zero
  | [x] => ⟨offset.x + x, 0.0, 0.0⟩
  | [x, y] => ⟨offset.x + x, offset.y + y, 0.0⟩
  | x :: y :: z :: _ => offset.add ⟨x, y, z⟩

theorem toFloat_floats (xs : List Float) : (xs.map Value.float).mapM Value.toFloat = .ok xs := by
  induction xs with
  | nil => rfl
  | cons x xs ih =>
    rw [List.map_cons, List.mapM_cons, ih]
    rfl

theorem ofTransform_floats (missing : Float) (xs : List Float) :
    ofTransform missing (Value.ofFloats xs) = .ok (ofList missing (xs.take 3)) := by
  change (do return ofList missing (← ((xs.map Value.float).take 3).mapM Value.toFloat) : Except Failure Vec3) = _
  rw [← List.map_take, toFloat_floats]
  rfl

-- The sum has the components of the shorter one, and is filled up only after that.
theorem ofTransform_sums (offset : Vec3) (xs : List Float) :
    ofTransform 0.0 (Value.ofFloats (List.zipWith (· + ·) offset.toList xs)) = .ok (offset.moved xs) := by
  rw [ofTransform_floats]
  match xs with
  | [] | [_] | [_, _] | _ :: _ :: _ :: _ => rfl

/-- With three components or more nothing is lost. -/
theorem moved_eq_add (offset : Vec3) {xs : List Float} (three : 3 ≤ xs.length) :
    offset.moved xs = offset.add (ofList 0.0 xs) := by
  match xs with
  | x :: y :: z :: _ => rfl

/-- With fewer the rest of the offset is lost, where any other position is filled up with zeros. -/
example : (moved ⟨1.0, 0.0, 2.0⟩ [10.0]).z = 0.0 ∧ ((⟨1.0, 0.0, 2.0⟩ : Vec3).add (ofList 0.0 [10.0])).z = 2.0 := ⟨rfl, rfl⟩

end Vec3

/-! ### Offsets -/

namespace Placement

open Evaluation

section

variable {request : Request} {ev : Evaluator}

theorem length_fractions (request : Request) : request.fractions.length = request.count := by
  unfold Request.fractions Request.indices
  split <;> simp

theorem length_triples (count : ℕ) : ∀ {xs : List Float}, xs.length = 3 * count → (triples count xs).length = count := by
  induction count with
  | zero =>
    intro xs _
    cases xs <;> rfl
  | succ count ih =>
    intro xs length
    match xs with
    | x :: y :: z :: rest =>
      rw [triples, List.length_cons, ih (by simp only [List.length_cons] at length; omega)]
    | [] | [_] | [_, _] => simp only [List.length_cons, List.length_nil] at length; omega

theorem length_take (count : ℕ) : ∀ stream : Number.RandomStream, (stream.take count).length = count := by
  induction count with
  | zero => exact fun _ => rfl
  | succ count ih =>
    intro stream
    rw [Number.RandomStream.take, List.length_cons, ih]

theorem length_pointsAlong (line : Option Polyline) : (pointsAlong request line).length = request.count := by
  cases line with
  | none => exact List.length_replicate
  | some line => exact (List.length_map _).trans (length_fractions request)

theorem yields_refused {α β : Type} {failure : Failure} {next : α → Evaluation β} {post : β → Evaluator → Prop} :
    Yields (throw failure >>= next) ev post :=
  yields_bind (yields_throw : Yields (throw failure) ev fun _ _ => False) fun _ _ impossible => impossible.elim

theorem yields_grid (request : Request) (ev : Evaluator) :
    Yields (grid request) ev fun offsets _ => offsets.length = request.count := by
  unfold grid
  refine yields_seq fun spacingX first => yields_seq fun spacingZ second => yields_seq fun chosen third => ?_
  dsimp only
  split
  · refine yields_seq fun columns last => ?_
    split
    · exact yields_refused
    · exact yields_pure (by rw [List.length_map, List.length_range])
  · refine yields_pure_bind ?_
    split
    · exact yields_refused
    · exact yields_pure (by rw [List.length_map, List.length_range])

theorem yields_random (request : Request) (ev : Evaluator) :
    Yields (random request) ev fun offsets _ => offsets.length = request.count := by
  unfold random
  refine yields_seq fun seed first => yields_seq fun sizes second => yields_seq fun seed third => ?_
  have scattered : ∀ place : Vec3 → Vec3, ((triples request.count
      ((Number.RandomStream.ofSeed seed.toNat).take (3 * request.count))).map place).length = request.count := by
    intro place
    rw [List.length_map, length_triples _ (length_take _ _)]
  dsimp only
  split
  · exact yields_refused
  · split
    · exact yields_pure_bind (yields_pure (scattered _))
    · exact yields_pure_bind (yields_pure (scattered _))
    · exact yields_refused

/-- A placement gives as many offsets as it is asked for. -/
theorem yields_positions (request : Request) (ev : Evaluator) :
    Yields (positions request) ev fun offsets _ => offsets.length = request.count := by
  unfold positions
  split
  · refine yields_seq fun spacing first => yields_seq fun along second => yields_pure ?_
    rw [List.length_map, Request.indices, List.length_map, List.length_range]
  · exact yields_grid request ev
  · refine yields_seq fun radius first => yields_seq fun start second => yields_seq fun stop third => yields_pure ?_
    rw [List.length_map, length_fractions]
  · unfold alongCurve
    dsimp only
    split
    · exact yields_seq fun source first => yields_seq fun line second => yields_pure (length_pointsAlong line)
    · exact yields_pure_bind (yields_seq fun line second => yields_pure (length_pointsAlong line))
  · exact yields_random request ev
  · exact yields_throw
  · exact yields_throw
  · exact yields_pure List.length_replicate

end

end Placement

/-! ### Instances -/

namespace Walk

open SessionAction

abbrev Measures (items : List Value) (xs : List Float) : Prop := List.Forall₂ (fun item x => item.toFloat = .ok x) items xs

/-- Wherever it is evaluated, the part of a transform has these components. -/
def Measured (part : Value) (ctx : Context) (xs : List Float) : Prop :=
  ∀ path s, Yields (evaluateVector part ctx path) s fun value _ => ∃ items, value = .list items ∧ Measures items xs

theorem measures_floats (xs : List Float) : Measures (xs.map .float) xs := by
  induction xs with
  | nil => exact .nil
  | cons x xs ih => exact .cons rfl ih

theorem measured_floats (ctx : Context) (xs : List Float) : Measured (.list (xs.map .float)) ctx xs := by
  intro path s
  -- numbers are evaluated to themselves, in any context
  have kept : ∀ xs : List Float, (xs.map Value.float).mapM (fun item => do componentOf (← evaluate item ctx (some path))) =
      (pure (xs.map Value.float) : SessionAction (List Value)) := by
    intro xs
    induction xs with
    | nil => rfl
    | cons x xs ih =>
      rw [List.map_cons, List.mapM_cons, ih]
      rfl
  have opened : evaluateVector (.list (xs.map .float)) ctx path = (do
      return .list (← (xs.map Value.float).mapM fun item => do componentOf (← evaluate item ctx (some path)))) := rfl
  rw [opened, kept]
  exact yields_pure_bind (yields_pure ⟨_, rfl, measures_floats xs⟩)

theorem mapM_sums {items : List Value} {xs : List Float} (measures : Measures items xs) : ∀ ps : List Float,
    ((ps.zip items).mapM fun (p, o) => do return Value.float (p + (← lift o.toFloat)) : SessionAction (List Value)) =
      pure ((List.zipWith (· + ·) ps xs).map Value.float) := by
  induction measures with
  | nil => intro ps; cases ps <;> rfl
  | @cons item x items xs known measures ih =>
    intro ps
    cases ps with
    | nil => rfl
    | cons p ps =>
      rw [List.zip_cons_cons, List.mapM_cons, ih]
      dsimp only
      rw [known]
      rfl

theorem shift_eq {items : List Value} {xs : List Float} (measures : Measures items xs) (offset : Vec3) :
    shift offset (.list items) = pure (Value.ofFloats (List.zipWith (· + ·) offset.toList xs)) := by
  rw [shift, mapM_sums measures]
  rfl

/-- An instance stands at its offset, moved by the position of the repetition. -/
def StandsAt (offset : Vec3) (index : ℕ) (xs : List Float) (b : Blueprint) : Prop :=
  b.instanceIndex = some index ∧ Vec3.ofTransform 0.0 b.position = .ok (offset.moved xs)

theorem instance_stands {source : Action} {ctx : Context} {xs : List Float} (measured : Measured source.frame.position ctx xs)
    (parameters : Bindings) (walkChildren : Context → String → Walk (List Blueprint)) (index : ℕ) (offset : Vec3)
    (path name : String) (s : Session) :
    Yields (instanceAt source parameters walkChildren index offset ctx path name) s fun b _ => StandsAt offset index xs b := by
  refine yields_seq fun scope first => yields_bind (measured path first) ?_
  rintro _ second ⟨items, rfl, measures⟩
  rw [shift_eq measures offset]
  refine yields_pure_bind (yields_seq fun children third => yields_seq fun b last => yields_pure ⟨rfl, ?_⟩)
  exact Vec3.ofTransform_sums offset xs

theorem walkYields_mapM {α β : Type} {step : α → Walk β} {post : α → β → Prop} (items : List α)
    (each : ∀ item, WalkYields (step item) (post item)) : WalkYields (items.mapM step) (List.Forall₂ post items) := by
  induction items with
  | nil => exact walkYields_pure .nil
  | cons item rest ih =>
    rw [List.mapM_cons]
    intro siblings s
    refine yields_bind (each item siblings s) fun first after here => ?_
    refine yields_bind (ih first.2 after) fun others last there => ?_
    exact yields_pure (.cons here there)

/-- A placement gave these offsets. -/
def OffsetsOf (distribution : Option Bindings) (count : Nat) (ctx : Context) (scope : String) (offsets : List Vec3) : Prop :=
  offsets.length = count ∧ ∃ before after, (placements distribution count ctx scope).run.run before = (.ok offsets, after)

theorem yields_placements (distribution : Option Bindings) (count : Nat) (ctx : Context) (scope : String) (s : Session) :
    Yields (placements distribution count ctx scope) s fun offsets _ => OffsetsOf distribution count ctx scope offsets := by
  have lengths : Yields (placements distribution count ctx scope) s fun offsets _ => offsets.length = count := by
    refine yields_seq fun options first => yields_seq fun store second => ?_
    exact ends_onEvaluator (Placement.yields_positions ⟨store, options, count, ctx⟩ second.evaluator)
  exact yields_and lengths (yields_of_run fun offsets after run => ⟨s, after, run⟩)

/-- The instances of a repetition stand, in order, at the offsets that its placement gave, moved by its position; or it
is left out as a whole. -/
theorem instances_stand {source : Action} {ctx : Context} {xs : List Float} (measured : Measured source.frame.position ctx xs)
    (count : Value) (distribution : Option Bindings) (parameters : Bindings)
    (walkChildren : Context → String → Walk (List Blueprint)) (scope base : String) :
    WalkYields (instances source count distribution parameters walkChildren ctx scope base) fun bs => bs = [] ∨
      ∃ offsets, OffsetsOf distribution bs.length ctx scope offsets ∧
        List.Forall₂ (fun item b => StandsAt item.1 item.2 xs b) offsets.zipIdx bs := by
  unfold instances
  refine walkYields_seq fun found => ?_
  split
  · exact walkYields_pure (.inl rfl)
  · rename_i n
    have tried : ∀ s, Yields (attempt (placements distribution n ctx scope)) s fun result _ =>
        ∀ offsets, result = .ok offsets → OffsetsOf distribution n ctx scope offsets := by
      refine fun s => ends_attempt (ends_mono (yields_placements distribution n ctx scope s) ?_ ?_)
      · rintro offsets after placed _ ⟨⟩
        exact placed
      · rintro after _ failure _ ⟨⟩
    refine walkYields_lift_bind tried fun result placed => ?_
    split
    · split
      · exact walkYields_seq fun _ => walkYields_pure (.inl rfl)
      · exact fun siblings s => yields_throw
    · rename_i offsets
      -- only the number of the offsets is carried along; each instance is an item of its own
      have each : ∀ item : Vec3 × Nat, WalkYields (do
          let name ← claim (base ++ "_" ++ toString item.2)
          instanceAt source parameters walkChildren item.2 item.1 ctx (joinPath scope name) name)
          (StandsAt item.1 item.2 xs) := fun item => walkYields_seq fun name =>
        walkYields_lift (instance_stands measured parameters walkChildren item.2 item.1 (joinPath scope name) name)
      intro siblings s
      refine yields_mono (walkYields_mapM offsets.zipIdx each siblings s) fun found after stand => .inr ⟨offsets, ?_, stand⟩
      have length := stand.length_eq
      rw [List.length_zipIdx, (placed offsets rfl).1] at length
      exact length ▸ placed offsets rfl

/-- A position written with all its components loses nothing of the offsets. -/
theorem instances_stand_sums {source : Action} {xs : List Float} (written : source.frame.position = .list (xs.map .float))
    (three : 3 ≤ xs.length) (count : Value) (distribution : Option Bindings) (parameters : Bindings)
    (walkChildren : Context → String → Walk (List Blueprint)) (ctx : Context) (scope base : String) :
    WalkYields (instances source count distribution parameters walkChildren ctx scope base) fun bs => bs = [] ∨
      ∃ offsets, OffsetsOf distribution bs.length ctx scope offsets ∧
        List.Forall₂ (fun item b => b.instanceIndex = some item.2 ∧
          Vec3.ofTransform 0.0 b.position = .ok (item.1.add (Vec3.ofList 0.0 xs))) offsets.zipIdx bs := by
  intro siblings s
  have measured : Measured source.frame.position ctx xs := written ▸ measured_floats ctx xs
  refine yields_mono (instances_stand measured count distribution parameters walkChildren scope base siblings s) ?_
  rintro ⟨bs, names⟩ after (none | ⟨offsets, given, stand⟩)
  · exact .inl none
  · refine .inr ⟨offsets, given, stand.imp fun item b here => ⟨here.1, ?_⟩⟩
    rw [here.2, Vec3.moved_eq_add item.1 three]

end Walk

end ProceduralScene
