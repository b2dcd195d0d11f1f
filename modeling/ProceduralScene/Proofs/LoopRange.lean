import Mathlib
import ProceduralScene.Build.Run
import ProceduralScene.Proofs.FloatArithmetic

/-!
The range of a loop. Its bounds and its step are turned into floating numbers, and the body is walked in order for as
many values as the rounded quotient of the distance and the step says. Where the three are multiples of one unit
within the bits of the format nothing is rounded: the values are exactly those strictly before the end.
-/

set_option autoImplicit false

namespace ProceduralScene

open Number

/-! ### Values of the variable -/

/-- The quantity lies strictly before the end of a range, in the direction of the step. -/
def Before (stop step v : ℚ) : Prop := if 0 < step then v < stop else stop < v

/-- A numeric value denotes a quantity. -/
def Amount (value : Value) (v : ℚ) : Prop := (∃ n : ℤ, value = .int n ∧ v = n) ∨ ∃ x, value = .float x ∧ Denotes x v

/-- The variable of a loop has a quantity, as an integer when that is whole. -/
def Counts (value : Value) (v : ℚ) : Prop :=
  (∃ n : ℤ, value = .int n ∧ v = n) ∨ ∃ x, value = .float x ∧ Denotes x v ∧ ∀ n : ℤ, v ≠ n

-- A multiple of the unit 2 ^ e that has at most the bits of the format.
structure Multiple (e : ℤ) (n : ℤ) (v : ℚ) : Prop where
  eq : v = n * 2 ^ e
  most : |n| ≤ 2 ^ 53

/-- The bounds, their distance and the step are multiples of one unit within the bits of the format. -/
structure Gridded (e p q r : ℤ) (start stop step : ℚ) : Prop where
  start : Multiple e p start
  stop : Multiple e q stop
  step : Multiple e r step
  distance : |q - p| ≤ 2 ^ 53
  least : -1074 ≤ e
  greatest : e ≤ 969

theorem before_iff {start stop step : ℚ} (moves : step ≠ 0) (n : ℕ) :
    Before stop step (start + n * step) ↔ (n : ℚ) < (stop - start) / step := by
  unfold Before
  rcases lt_or_gt_of_ne moves with down | up
  · rw [if_neg down.not_gt, lt_div_iff_of_neg down, sub_lt_iff_lt_add']
  · rw [if_pos up, lt_div_iff₀ up, lt_sub_iff_add_lt', add_comm]

-- The way from the start is at most the distance, and the place lies between the bounds.
theorem multiples_inside {p q r : ℤ} {n : ℕ} (inside : (n : ℚ) < (q - p : ℤ) / r) (low : |p| ≤ 2 ^ 53) (high : |q| ≤ 2 ^ 53)
    (distance : |q - p| ≤ 2 ^ 53) : n < 2 ^ 53 ∧ |n * r| ≤ 2 ^ 53 ∧ |p + n * r| ≤ 2 ^ 53 := by
  rw [abs_le] at low high distance
  rcases lt_trichotomy r 0 with down | rfl | up
  · have cast : (r : ℚ) < 0 := by exact_mod_cast down
    rw [lt_div_iff_of_neg cast] at inside
    have way : q - p < n * r := by exact_mod_cast inside
    have back : (n : ℤ) * r ≤ -n := by nlinarith [Int.natCast_nonneg n]
    exact ⟨by omega, abs_le.mpr ⟨by omega, by omega⟩, abs_le.mpr ⟨by omega, by omega⟩⟩
  · rw [Int.cast_zero, div_zero] at inside
    exact absurd inside (not_lt.mpr (Nat.cast_nonneg n))
  · have cast : (0 : ℚ) < r := by exact_mod_cast up
    rw [lt_div_iff₀ cast] at inside
    have way : n * r < q - p := by exact_mod_cast inside
    have forth : (n : ℤ) ≤ n * r := by nlinarith [Int.natCast_nonneg n]
    exact ⟨by omega, abs_le.mpr ⟨by omega, by omega⟩, abs_le.mpr ⟨by omega, by omega⟩⟩

theorem quotient_small {p r : ℤ} (most : |p| ≤ 2 ^ 53) (some : r ≠ 0) : |(p / r : ℚ)| < 2 ^ (1023 : ℤ) := by
  have least : (1 : ℚ) ≤ |(r : ℚ)| := by exact_mod_cast Int.one_le_abs some
  have bits : |(p : ℚ)| ≤ 2 ^ (53 : ℤ) := by exact_mod_cast most
  rw [abs_div]
  calc |(p : ℚ)| / |(r : ℚ)| ≤ |(p : ℚ)| := div_le_self (abs_nonneg _) least
    _ ≤ 2 ^ (53 : ℤ) := bits
    _ < 2 ^ (1023 : ℤ) := zpow_lt_zpow_right₀ (by norm_num) (by norm_num)

theorem Multiple.exact {e n : ℤ} {v : ℚ} (multiple : Multiple e n v) (least : -1074 ≤ e) (greatest : e ≤ 969) :
    Number.Dyadic.Exact v := ⟨n, e, multiple.eq, multiple.most, least, by omega⟩

theorem Multiple.small {e n : ℤ} {v : ℚ} (multiple : Multiple e n v) (greatest : e ≤ 969) : |v| < 2 ^ (1023 : ℤ) := by
  have unit := Number.Dyadic.unit_pos e
  rw [multiple.eq, abs_mul, abs_of_pos unit]
  have bits : |(n : ℚ)| ≤ 2 ^ (53 : ℤ) := by exact_mod_cast multiple.most
  calc |(n : ℚ)| * 2 ^ e ≤ 2 ^ (53 : ℤ) * 2 ^ (969 : ℤ) := by gcongr; norm_num
    _ = 2 ^ (1022 : ℤ) := by rw [← zpow_add₀ (by norm_num)]; rfl
    _ < 2 ^ (1023 : ℤ) := zpow_lt_zpow_right₀ (by norm_num) (by norm_num)

theorem Amount.toFloat {value : Value} {v : ℚ} (amount : Amount value v) (exact : Number.Dyadic.Exact v) :
    ∃ x, value.toFloat = .ok x ∧ Denotes x v := by
  rcases amount with ⟨n, rfl, rfl⟩ | ⟨x, rfl, denotes⟩
  · exact Scalar.toFloat_int exact
  · exact ⟨x, rfl, denotes⟩

namespace Gridded

section

variable {e p q r : ℤ} {u v w : ℚ} (fits : Gridded e p q r u v w) {x y z : Float}

include fits

theorem gap : Multiple e (q - p) (v - u) :=
  ⟨by rw [fits.start.eq, fits.stop.eq]; push_cast; ring, fits.distance⟩

theorem quotient : (v - u) / w = (q - p : ℤ) / r := by
  rw [fits.gap.eq, fits.step.eq, mul_div_mul_right _ _ (Number.Dyadic.unit_pos e).ne']

-- The distance is exact, and rounding the quotient crosses no whole number.
theorem count (xDenotes : Denotes x u) (yDenotes : Denotes y v) (zDenotes : Denotes z w) (moves : w ≠ 0) :
    ∃ d, decode ((y - x) / z) = .finite d ∧ ∀ n : ℕ, n < ⌈d.value⌉₊ ↔ Before v w (u + n * w) := by
  have some : r ≠ 0 := by
    rintro rfl
    exact moves (by rw [fits.step.eq]; simp)
  have distance : Denotes (y - x) (v - u) :=
    (sub_rounds yDenotes xDenotes (fits.gap.small fits.greatest)).denotes (fits.gap.exact fits.least fits.greatest)
  obtain ⟨d, decoded, nearest⟩ := div_rounds distance zDenotes moves
    (by rw [fits.quotient]; exact quotient_small fits.distance some)
  refine ⟨d, decoded, fun n => ?_⟩
  rw [fits.quotient] at nearest
  rw [before_iff moves, fits.quotient]
  exact Nat.lt_ceil.trans (Number.Dyadic.nat_lt_quotient_iff nearest fits.distance fits.step.most n)

-- Neither the product nor the sum rounds as long as the range is not left.
theorem place (xDenotes : Denotes x u) (zDenotes : Denotes z w) (moves : w ≠ 0) {n : ℕ} (inside : Before v w (u + n * w)) :
    Denotes (x + Float.ofNat n * z) (u + n * w) := by
  rw [before_iff moves, fits.quotient] at inside
  obtain ⟨few, wayBits, placeBits⟩ := multiples_inside inside fits.start.most fits.stop.most fits.distance
  have way : Multiple e (n * r) (n * w) := ⟨by rw [fits.step.eq]; push_cast; ring, wayBits⟩
  have place : Multiple e (p + n * r) (u + n * w) := ⟨by rw [fits.start.eq, fits.step.eq]; push_cast; ring, placeBits⟩
  have product : Denotes (Float.ofNat n * z) (n * w) :=
    (mul_rounds (denotes_ofNat few) zDenotes (way.small fits.greatest)).denotes (way.exact fits.least fits.greatest)
  exact (add_rounds xDenotes product (place.small fits.greatest)).denotes (place.exact fits.least fits.greatest)

end

end Gridded

namespace Walk

theorem counts_counterValue {x : Float} {v : ℚ} (denotes : Denotes x v) : Counts (counterValue x) v := by
  obtain ⟨d, decoded, rfl⟩ := denotes
  unfold counterValue
  rw [decoded]
  dsimp only
  by_cases whole : ∃ k : ℤ, d.value = k
  · obtain ⟨k, same⟩ := whole
    obtain ⟨integer, truncated⟩ := Dyadic.truncate_eq same
    rw [if_pos integer, truncated]
    exact .inl ⟨k, rfl, same⟩
  · rw [if_neg (fun integer => whole (d.isInteger_iff.mp integer))]
    exact .inr ⟨x, rfl, ⟨d, decoded, rfl⟩, fun n same => whole ⟨n, same⟩⟩

/-! ### Runs -/

def runFrom {α : Type} (walk : Walk α) (siblings : SiblingNames) (s : Session) : Except Failure (α × SiblingNames) × Session :=
  (walk siblings).run.run s

def recorded (code text : String) (path : Option String) (s : Session) : Session :=
  { s with evaluator := { s.evaluator with log := s.evaluator.log.record code text path } }

def Evaluates (expression : Value) (ctx : Context) (place : String) (s : Session) (value : Value) (after : Session) : Prop :=
  (SessionAction.evaluate expression ctx (some place)).run.run s = (.ok value, after)

/-- The body is walked once for each value of the variable, in order. -/
def visits (counter : String) (body : List Action) (ctx : Context) (scope : String) (values : List Value) :
    Walk (List Blueprint) := do
  return (← values.mapM fun value => actions (ctx.child [(counter, value)]) scope body).flatten

section

variable {α β : Type} {siblings : SiblingNames} {s after : Session}

theorem runFrom_bind {action : SessionAction α} {value : α} (run : action.run.run s = (.ok value, after)) (next : α → Walk β) :
    runFrom (liftM action >>= next) siblings s = (next value).runFrom siblings after := by
  have opened : runFrom (liftM action >>= next) siblings s = (action >>= fun value => next value siblings).run.run s := by
    unfold runFrom
    congr 2
    exact bind_assoc action _ _
  rw [opened, ExceptT.run_bind, StateT.run_bind, run]
  rfl

theorem max_ceil (v : ℚ) : max 0 ⌈v⌉ = (⌈v⌉₊ : ℤ) := by
  rw [← Int.ceil_toNat]
  omega

variable {a b c : Value} {x y z : Float} {d : Number.Dyadic}

theorem ceil_decoded (decoded : decode x = .finite d) : (Value.float x).ceil = .ok ⌈d.value⌉ := by
  have number : (Value.float x).scalar = .ok (.float x) := rfl
  rw [Value.ceil, number]
  dsimp only [bind, Except.bind]
  rw [decoded, ← d.ceil_eq]
  rfl

-- The guards on the numbers pass, so only the limit is left to decide.
theorem loopCount_run (bounds : loopBounds a b c = .ok (x, y, z))
    (finite : isFinite x = true ∧ isFinite y = true ∧ isFinite z = true) (moves : (z == 0.0) = false)
    (decoded : decode ((y - x) / z) = .finite d) (place : String) (s : Session) :
    (loopCount a b c place).run.run s = if (⌈d.value⌉₊ : ℤ) ≤ s.limits.loop then (.ok (some (⌈d.value⌉₊, x, z)), s)
      else (.ok none, recorded "L01" (limitText "loop" ⌈d.value⌉₊ s.limits.loop) (some place) s) := by
  unfold loopCount
  rw [bounds]
  dsimp only
  rw [if_neg (by simp [finite.1, finite.2.1, finite.2.2]), if_neg (by simp [moves]), ceil_decoded decoded]
  simp only [SessionAction.lift, pure_bind, max_ceil]
  change (if s.limits.loop < (⌈d.value⌉₊ : ℤ) then do
      SessionAction.record "L01" (limitText "loop" ⌈d.value⌉₊ s.limits.loop) (some place)
      return none
    else return some ((⌈d.value⌉₊ : ℤ).toNat, x, z) : SessionAction (Option (ℕ × Float × Float))).run.run s = _
  by_cases within : (⌈d.value⌉₊ : ℤ) ≤ s.limits.loop
  · rw [if_pos within, if_neg (not_lt.mpr within), Int.toNat_natCast]
    rfl
  · rw [if_neg within, if_pos (not_le.mp within)]
    rfl

/-- While their number is within the limit a loop walks its body for these values, in order and for no others; past the
limit it is skipped, which is recorded. -/
def LoopsOver (walk : Walk (List Blueprint)) (s after : Session) (counter : String) (body : List Action) (ctx : Context)
    (scope : String) (values : List Value) : Prop :=
  ∀ siblings, walk.runFrom siblings s = if (values.length : ℤ) ≤ after.limits.loop
    then (visits counter body ctx scope values).runFrom siblings after
    else (.ok ([], siblings), recorded "L01" (limitText "loop" values.length after.limits.loop)
      (some (joinPath scope ("loop(" ++ counter ++ ")"))) after)

end

section

variable {start stop step : Value} {ctx : Context} {scope counter : String} {s s₁ s₂ s₃ : Session} {a b c : Value}

theorem loop_rounded (frame : Frame) (body : List Action) (name : Option String)
    (startIs : Evaluates start ctx (joinPath scope ("loop(" ++ counter ++ ")")) s a s₁)
    (stopIs : Evaluates stop ctx (joinPath scope ("loop(" ++ counter ++ ")")) s₁ b s₂)
    (stepIs : Evaluates step ctx (joinPath scope ("loop(" ++ counter ++ ")")) s₂ c s₃) {x y z : Float}
    (bounds : loopBounds a b c = .ok (x, y, z)) (finite : isFinite x = true ∧ isFinite y = true ∧ isFinite z = true)
    (moves : (z == 0.0) = false) {d : Number.Dyadic} (decoded : decode ((y - x) / z) = .finite d) :
    LoopsOver (action ctx scope name (.loop frame counter start stop step body)) s s₃ counter body ctx scope
      ((List.range ⌈d.value⌉₊).map fun n => counterValue (x + Float.ofNat n * z)) := by
  intro siblings
  have count := loopCount_run bounds finite moves decoded (joinPath scope ("loop(" ++ counter ++ ")")) s₃
  rw [action, loop, runFrom_bind startIs, runFrom_bind stopIs, runFrom_bind stepIs, List.length_map, List.length_range]
  by_cases within : (⌈d.value⌉₊ : ℤ) ≤ s₃.limits.loop
  · rw [if_pos within] at count
    rw [if_pos within, runFrom_bind count, visits, List.mapM_map]
    rfl
  · rw [if_neg within] at count
    rw [if_neg within, runFrom_bind count]
    rfl

theorem loop_exact (frame : Frame) (body : List Action) (name : Option String)
    (startIs : Evaluates start ctx (joinPath scope ("loop(" ++ counter ++ ")")) s a s₁)
    (stopIs : Evaluates stop ctx (joinPath scope ("loop(" ++ counter ++ ")")) s₁ b s₂)
    (stepIs : Evaluates step ctx (joinPath scope ("loop(" ++ counter ++ ")")) s₂ c s₃) {u v w : ℚ}
    (amounts : Amount a u ∧ Amount b v ∧ Amount c w) (moves : w ≠ 0) {e p q r : ℤ} (fits : Gridded e p q r u v w) :
    ∃ values : List Value, (∀ n, n < values.length ↔ Before v w (u + n * w)) ∧
      (∀ n (inside : n < values.length), Counts values[n] (u + n * w)) ∧
      LoopsOver (action ctx scope name (.loop frame counter start stop step body)) s s₃ counter body ctx scope values := by
  obtain ⟨first, second, third⟩ := amounts
  obtain ⟨x, xIs, xDenotes⟩ := first.toFloat (fits.start.exact fits.least fits.greatest)
  obtain ⟨y, yIs, yDenotes⟩ := second.toFloat (fits.stop.exact fits.least fits.greatest)
  obtain ⟨z, zIs, zDenotes⟩ := third.toFloat (fits.step.exact fits.least fits.greatest)
  obtain ⟨d, decoded, reached⟩ := fits.count xDenotes yDenotes zDenotes moves
  have bounds : loopBounds a b c = .ok (x, y, z) := by
    unfold loopBounds
    rw [xIs, yIs, zIs]
    rfl
  refine ⟨_, ?_, ?_, loop_rounded frame body name startIs stopIs stepIs bounds
    ⟨xDenotes.isFinite, yDenotes.isFinite, zDenotes.isFinite⟩ (zDenotes.beq_zero moves) decoded⟩
  · intro n
    rw [List.length_map, List.length_range, reached]
  · intro n bound
    rw [List.length_map, List.length_range, reached] at bound
    rw [List.getElem_map, List.getElem_range]
    exact counts_counterValue (fits.place xDenotes zDenotes moves bound)

/-- A loop walks its body in order for as many values as the rounded quotient says, and past the limit it is skipped. Of
numbers that fit the format these are exactly the values strictly before the end. -/
theorem loop_visits (frame : Frame) (body : List Action) (name : Option String)
    (startIs : Evaluates start ctx (joinPath scope ("loop(" ++ counter ++ ")")) s a s₁)
    (stopIs : Evaluates stop ctx (joinPath scope ("loop(" ++ counter ++ ")")) s₁ b s₂)
    (stepIs : Evaluates step ctx (joinPath scope ("loop(" ++ counter ++ ")")) s₂ c s₃) :
    (∀ {x y z : Float} {d : Number.Dyadic}, loopBounds a b c = .ok (x, y, z) →
      isFinite x = true ∧ isFinite y = true ∧ isFinite z = true → (z == 0.0) = false → decode ((y - x) / z) = .finite d →
      LoopsOver (action ctx scope name (.loop frame counter start stop step body)) s s₃ counter body ctx scope
        ((List.range ⌈d.value⌉₊).map fun n => counterValue (x + Float.ofNat n * z))) ∧
    ∀ {u v w : ℚ} {e p q r : ℤ}, Amount a u ∧ Amount b v ∧ Amount c w → w ≠ 0 → Gridded e p q r u v w →
      ∃ values : List Value, (∀ n, n < values.length ↔ Before v w (u + n * w)) ∧
        (∀ n (inside : n < values.length), Counts values[n] (u + n * w)) ∧
        LoopsOver (action ctx scope name (.loop frame counter start stop step body)) s s₃ counter body ctx scope values :=
  ⟨fun bounds finite moves decoded => loop_rounded frame body name startIs stopIs stepIs bounds finite moves decoded,
    fun amounts moves fits => loop_exact frame body name startIs stopIs stepIs amounts moves fits⟩

end

namespace Sample

def session : Session :=
  Session.new Limits.standard WarningPolicy.none [] (fun _ => .error .wrongKind) Factory.stock Scene.empty

def frame : Frame := ⟨.null, .null, .null, .null, .bool true⟩

def body : List Action := [.helper frame "createBox" [] .null none]

def loop (start stop step : Value) : Walk (List Blueprint) := action [[]] "" none (.loop frame "i" start stop step body)

def made (walk : Walk (List Blueprint)) : Option ℕ := (walk.runFrom [] session).1.toOption.map (·.1.length)

end Sample

/-- Down in halves, with an integer and a floating number in turn. -/
theorem loop_visits_halves :
    LoopsOver (Sample.loop (.int 2) (.int 0) (.float (-0.5))) Sample.session Sample.session "i" Sample.body [[]] ""
      [.int 2, .float 1.5, .int 1, .float 0.5] ∧
    ∃ values : List Value, (∀ n, n < values.length ↔ Before 0 (-1 / 2) (2 + n * (-1 / 2))) ∧
      (∀ n (inside : n < values.length), Counts values[n] (2 + n * (-1 / 2))) ∧
      LoopsOver (Sample.loop (.int 2) (.int 0) (.float (-0.5))) Sample.session Sample.session "i" Sample.body [[]] "" values := by
  have both := loop_visits (s := Sample.session) Sample.frame Sample.body none
    (rfl : Evaluates (.int 2) [[]] (joinPath "" ("loop(" ++ "i" ++ ")")) Sample.session (.int 2) Sample.session)
    (rfl : Evaluates (.int 0) [[]] _ Sample.session (.int 0) Sample.session)
    (rfl : Evaluates (.float (-0.5)) [[]] _ Sample.session (.float (-0.5)) Sample.session)
  have fourSteps : Number.Dyadic.value ⟨false, 4503599627370496, -50⟩ = 4 := by
    simp only [Number.Dyadic.value, Number.Dyadic.magnitude]
    norm_num
  have half : Denotes (-0.5) (-1 / 2) := by
    refine ⟨⟨true, 4503599627370496, -53⟩, rfl, ?_⟩
    simp only [Number.Dyadic.value, Number.Dyadic.magnitude]
    norm_num
  constructor
  · have walks := both.1 (x := 2.0) (y := 0.0) (z := -0.5) (d := ⟨false, 4503599627370496, -50⟩) rfl ⟨rfl, rfl, rfl⟩ rfl rfl
    rw [fourSteps, Nat.ceil_ofNat] at walks
    exact walks
  · exact both.2 ⟨.inl ⟨2, rfl, by norm_num⟩, .inl ⟨0, rfl, by norm_num⟩, .inr ⟨-0.5, rfl, half⟩⟩ (by norm_num)
      (⟨⟨by norm_num, by norm_num⟩, ⟨by norm_num, by norm_num⟩, ⟨by norm_num, by norm_num⟩, by norm_num, by norm_num,
        by norm_num⟩ :
        Gridded (-1) 4 0 (-1) 2 0 (-1 / 2))

/-- Past the bits of the format the end is rounded onto the start, and nothing is walked. -/
theorem loop_loses : Before 9007199254740993 1 (9007199254740992 + (0 : ℕ) * 1) ∧ 1 ≤ Sample.session.limits.loop ∧
    Sample.made (Sample.loop (.int 9007199254740992) (.int 9007199254740993) (.int 1)) = some 0 ∧
    Sample.made (visits "i" Sample.body [[]] "" [.int 9007199254740992]) = some 1 :=
  ⟨by norm_num [Before], by decide, by decide +kernel, by decide +kernel⟩

end Walk

end ProceduralScene
