import ProceduralScene.Proofs.PlainArithmetic

/-!
The stock functions of expressions give plain values for plain arguments.
-/

set_option autoImplicit false

namespace ProceduralScene

theorem plain_points (path : Path2D.Path) : (Path2D.toValue path).isPlain = true := by
  refine Value.plain_list.mpr fun x member => ?_
  obtain ⟨point, _, same⟩ := List.mem_map.mp member
  rw [← same]
  rfl

namespace Expression

/-- A function that gives plain values for plain arguments, however often it was called before. -/
def Function.Plain (function : Function) : Prop :=
  ∀ before args, (∀ arg ∈ args, arg.isPlain = true) → PlainResult (function.call before args)

/-- A pure function whose results are plain whatever its arguments are. -/
theorem plain_always {f : List Value → Except Failure Value} (plain : ∀ args, PlainResult (f args)) :
    (Function.pure f).Plain := fun _ args _ => plain args

theorem plain_oneNumber (domain : Float → Bool) (f : Float → Float) : (oneNumber domain f).Plain := by
  refine plain_always fun args => ?_
  split
  · refine sure_bind fun x _ => ?_
    dsimp only
    repeat' split
    all_goals first
      | exact sure_pure rfl
      | exact sure_throw _
  · exact sure_error _

theorem plain_atan2 : atan2.Plain := by
  refine plain_always fun args => ?_
  split
  · exact sure_bind fun _ _ => sure_bind fun _ _ => sure_pure rfl
  · exact sure_error _

theorem plain_absolute : absolute.Plain := by
  refine plain_always fun args => ?_
  split
  · refine sure_bind fun scalar _ => ?_
    split <;> exact sure_pure rfl
  · exact sure_error _

theorem plain_squareRoot : squareRoot.Plain := by
  refine plain_always fun args => ?_
  split
  · refine sure_bind fun negative _ => ?_
    split
    · exact sure_bind fun _ _ => sure_throw _
    · exact sure_bind fun _ _ => sure_pure rfl
  · exact sure_error _

theorem plain_floatPow : floatPow.Plain := by
  refine plain_always fun args => ?_
  split
  · refine sure_bind fun x _ => sure_bind fun y _ => ?_
    dsimp only
    repeat' split
    all_goals first
      | exact sure_pure rfl
      | exact sure_throw _
  · exact sure_error _

theorem plain_logarithm : logarithm.Plain := by
  refine plain_always fun args => ?_
  split
  · exact sure_bind fun _ _ => sure_pure rfl
  · refine sure_bind fun above _ => sure_bind fun below _ => ?_
    split
    · exact sure_throw _
    · exact sure_pure rfl
  · exact sure_error _

theorem plain_spread {args : List Value} (plain : ∀ arg ∈ args, arg.isPlain = true) :
    ∀ x ∈ spread args, x.isPlain = true := by
  unfold spread
  split
  · exact Value.plain_list.mp (plain _ (by simp))
  · exact plain

theorem plain_extremumOf {pick : Value → List Value → Except Failure Value}
    (picks : ∀ items best, best.isPlain = true → (∀ x ∈ items, x.isPlain = true) → PlainResult (pick best items)) :
    (extremumOf pick).Plain := by
  intro before args plain
  have each := plain_spread plain
  simp only [extremumOf, Function.pure]
  split
  · rename_i first rest found
    rw [found] at each
    exact picks rest first (each first (by simp)) fun x member => each x (by simp [member])
  · exact sure_error _

theorem plain_roundHalfUp : roundHalfUp.Plain := by
  refine plain_always fun args => ?_
  split
  · exact sure_bind fun _ _ => sure_bind fun _ _ => sure_pure rfl
  · exact sure_error _

theorem plain_sign : sign.Plain := by
  refine plain_always fun args => ?_
  split
  · exact sure_bind fun _ _ => sure_bind fun _ _ => sure_pure rfl
  · exact sure_error _

theorem plain_clamp : clamp.Plain := by
  intro before args plain
  simp only [clamp, Function.pure]
  split
  · rename_i x low high
    refine sure_bind fun upper found => Value.plain_greatestFrom _ low (plain low (by simp)) ?_
    have upperPlain : upper.isPlain = true :=
      Value.plain_leastFrom [x] high (plain high (by simp)) (by simpa using plain x (by simp)) upper found
    simpa using upperPlain
  · exact sure_error _

theorem plain_lerp : lerp.Plain := by
  intro before args plain
  simp only [lerp, Function.pure]
  split
  · rename_i a b t
    refine sure_bind fun span spanned => sure_bind fun step stepped => ?_
    have plainSpan := Value.plain_sub b a span spanned
    exact Value.plain_add (plain a (by simp)) (Value.plain_mul plainSpan (plain t (by simp)) step stepped)
  · exact sure_error _

theorem plain_floorMod : floorMod.Plain := by
  refine plain_always fun args => ?_
  split
  · exact sure_bind fun _ _ => sure_bind fun _ _ => sure_bind fun _ _ => sure_bind fun _ _ => sure_bind fun _ _ =>
      Scalar.plain_flooredRemainder _ _
  · exact sure_error _

theorem plain_hexOfDegrees (degrees s v : Value) : PlainResult (hexOfDegrees degrees s v) := by
  refine sure_bind fun _ _ => sure_bind fun _ _ => sure_bind fun _ _ => sure_bind fun _ _ => ?_
  refine sure_bind fun _ _ => sure_bind fun _ _ => sure_bind fun _ _ => ?_
  exact sure_bind fun _ _ => sure_bind fun _ _ => sure_bind fun _ _ => sure_pure rfl

theorem plain_hsvToHex : hsvToHex.Plain := by
  refine plain_always fun args => ?_
  split
  · refine sure_bind fun turn _ => ?_
    split
    · exact sure_bind fun degrees _ => plain_hexOfDegrees degrees _ _
    · exact plain_hexOfDegrees _ _ _
  · exact sure_error _

theorem plain_cyclicItem {items : List Value} (plain : ∀ x ∈ items, x.isPlain = true) (index : Value) :
    PlainResult (cyclicItem items index) := by
  refine sure_bind fun n _ => ?_
  split
  · exact sure_throw _
  · exact fun value found => plain value (Value.itemAt_mem found)

theorem plain_alternating : alternating.Plain := by
  intro before args plain
  simp only [alternating, Function.pure]
  split
  · exact plain_cyclicItem (fun x member => plain x (by simp [member])) _
  · exact sure_error _

theorem plain_nth : nth.Plain := by
  intro before args plain
  simp only [nth, Function.pure]
  split
  · exact plain_cyclicItem (Value.plain_list.mp (plain _ (by simp))) _
  · exact sure_ok (plain _ (by simp))
  · exact sure_error _

theorem plain_length : length.Plain := by
  refine plain_always fun args => ?_
  split
  · exact sure_ok rfl
  · exact sure_ok rfl
  · exact sure_ok rfl
  · exact sure_error _

theorem plain_rounded {round : Value → Except Failure Int} :
    (Function.pure fun
      | [a] => return .int (← round a)
      | _ => .error .wrongKind).Plain := by
  refine plain_always fun args => ?_
  split
  · exact sure_bind fun _ _ => sure_pure rfl
  · exact sure_error _

theorem plain_degrees :
    (Function.pure fun
      | [a] => return .float (toDegrees (← a.number))
      | _ => .error .wrongKind).Plain := by
  refine plain_always fun args => ?_
  split
  · exact sure_bind fun _ _ => sure_pure rfl
  · exact sure_error _

/-- All functions of a table are plain. -/
def PlainFunctions (functions : List (String × Function)) : Prop := ∀ entry ∈ functions, entry.2.Plain

theorem plain_functions : PlainFunctions functions := by
  intro entry member
  rcases List.mem_append.mp member with named | path
  · simp only [List.mem_cons, List.not_mem_nil, or_false] at named
    rcases named with rfl | rfl | rfl | rfl | rfl | rfl | rfl | rfl | rfl | rfl | rfl | rfl | rfl | rfl | rfl | rfl |
      rfl | rfl | rfl | rfl | rfl | rfl | rfl | rfl | rfl | rfl | rfl
    · exact plain_oneNumber _ _
    · exact plain_oneNumber _ _
    · exact plain_oneNumber _ _
    · exact plain_oneNumber _ _
    · exact plain_oneNumber _ _
    · exact plain_oneNumber _ _
    · exact plain_atan2
    · exact plain_absolute
    · exact plain_squareRoot
    · exact plain_floatPow
    · exact plain_oneNumber _ _
    · exact plain_logarithm
    · exact plain_extremumOf Value.plain_leastFrom
    · exact plain_extremumOf Value.plain_greatestFrom
    · exact plain_rounded
    · exact plain_rounded
    · exact plain_roundHalfUp
    · exact plain_sign
    · exact plain_clamp
    · exact plain_lerp
    · exact plain_floorMod
    · exact plain_oneNumber _ _
    · exact plain_degrees
    · exact plain_hsvToHex
    · exact plain_alternating
    · exact plain_nth
    · exact plain_length
  · obtain ⟨named, _, rfl⟩ := List.mem_map.mp path
    exact plain_always fun args => sure_bind fun points _ => sure_pure (plain_points points)

theorem plain_putFunction {functions : List (String × Function)} (plain : PlainFunctions functions) (name : String)
    {function : Function} (good : function.Plain) : PlainFunctions (Evaluator.putFunction name function functions) := by
  induction functions with
  | nil =>
    intro entry member
    exact List.mem_singleton.mp member ▸ good
  | cons first rest ih =>
    have others := ih fun entry member => plain entry (by simp [member])
    intro entry member
    rw [Evaluator.putFunction] at member
    split at member
    · rcases List.mem_cons.mp member with same | later
      · exact same ▸ good
      · exact plain entry (by simp [later])
    · rcases List.mem_cons.mp member with same | later
      · exact same ▸ plain first (by simp)
      · exact others entry later

theorem plain_withFunctions {stock added : List (String × Function)} (plain : PlainFunctions stock)
    (good : PlainFunctions added) : PlainFunctions (Evaluator.withFunctions stock added) := by
  unfold Evaluator.withFunctions
  induction added generalizing stock with
  | nil => exact plain
  | cons entry rest ih =>
    exact ih (plain_putFunction plain _ (good entry (by simp))) fun other member => good other (by simp [member])

end Expression

end ProceduralScene
