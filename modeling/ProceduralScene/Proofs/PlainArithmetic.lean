import ProceduralScene.Proofs.PlainValue

/-!
Arithmetic makes plain values from plain values.
-/

set_option autoImplicit false

namespace ProceduralScene

section

variable {α β : Type} {good : β → Prop}

/-- When there is a result, it is good. -/
def Sure (good : β → Prop) (result : Except Failure β) : Prop := ∀ value, result = .ok value → good value

theorem sure_ok {value : β} (holds : good value) : Sure good (.ok value) := by
  intro found same
  cases same
  exact holds

theorem sure_pure {value : β} (holds : good value) : Sure good (pure value) := sure_ok holds

theorem sure_error (failure : Failure) : Sure good (.error failure) := fun _ same => nomatch same

theorem sure_throw (failure : Failure) : Sure good (throw failure) := fun _ same => nomatch same

theorem sure_bind {first : Except Failure α} {next : α → Except Failure β}
    (rest : ∀ value, first = .ok value → Sure good (next value)) : Sure good (first >>= next) := by
  cases first with
  | error failure => exact sure_error failure
  | ok value => exact rest value rfl

theorem sure_then {middle : α → Prop} {first : Except Failure α} {next : α → Except Failure β} (sure : Sure middle first)
    (rest : ∀ value, middle value → Sure good (next value)) : Sure good (first >>= next) :=
  sure_bind fun value found => rest value (sure value found)

end

/-- A result that is plain when there is one. -/
abbrev PlainResult (result : Except Failure Value) : Prop := Sure (fun value => value.isPlain = true) result

namespace Scalar

theorem plain_toValue (scalar : Scalar) : scalar.toValue.isPlain = true := by
  cases scalar <;> rfl

theorem plain_combine (onInts : Int → Int → Int) (onFloats : Float → Float → Float)
    (onComplex : Number.ComplexFloat → Number.ComplexFloat → Number.ComplexFloat) (a b : Scalar) :
    PlainResult (combine onInts onFloats onComplex a b) := by
  unfold combine
  split
  · exact sure_ok rfl
  · split
    · exact sure_bind fun _ _ => sure_bind fun _ _ => sure_pure rfl
    · exact sure_bind fun _ _ => sure_bind fun _ _ => sure_pure rfl

theorem plain_complexPower (a b : Number.ComplexFloat) : PlainResult (complexPower a b) := by
  unfold complexPower
  dsimp only
  repeat' split
  all_goals first
    | exact sure_error _
    | exact sure_ok rfl

theorem plain_floatPower (x y : Float) : PlainResult (floatPower x y) := by
  unfold floatPower
  dsimp only
  repeat' split
  all_goals first
    | exact sure_error _
    | exact sure_ok rfl
    | exact plain_complexPower _ _

theorem plain_power (a b : Scalar) : PlainResult (power a b) := by
  unfold power
  repeat' split
  all_goals first
    | exact sure_error _
    | exact sure_ok rfl
    | exact sure_bind fun _ _ => sure_bind fun _ _ => plain_floatPower _ _
    | exact sure_bind fun _ _ => sure_bind fun _ _ => plain_complexPower _ _

theorem plain_divide (a b : Scalar) : PlainResult (divide a b) := by
  unfold divide
  repeat' split
  all_goals first
    | exact sure_error _
    | exact sure_ok rfl
    | exact sure_bind fun _ _ => sure_bind fun _ _ => sure_pure rfl

theorem plain_truncatedRemainder (a b : Scalar) : PlainResult (truncatedRemainder a b) := by
  refine sure_bind fun x _ => sure_bind fun y _ => ?_
  dsimp only
  repeat' split
  all_goals first
    | exact sure_throw _
    | exact sure_pure rfl

theorem plain_flooredRemainder (a b : Scalar) : PlainResult (flooredRemainder a b) := by
  unfold flooredRemainder
  repeat' split
  all_goals first
    | exact sure_error _
    | exact sure_ok rfl
    | skip
  refine sure_bind fun x _ => sure_bind fun y _ => ?_
  dsimp only
  split
  · exact sure_throw _
  · exact sure_pure rfl

end Scalar

namespace Value

theorem items_plain {value : Value} (plain : value.isPlain = true) {found : List Value} (listed : value.items = .ok found) :
    ∀ x ∈ found, x.isPlain = true := by
  unfold items at listed
  split at listed
  · cases listed
    exact plain_list.mp plain
  · cases listed
    intro x member
    obtain ⟨c, _, same⟩ := List.mem_map.mp member
    exact same ▸ rfl
  · cases listed
    intro x member
    obtain ⟨entry, _, same⟩ := List.mem_map.mp member
    rw [← same]
    cases entry.1 <;> rfl
  · cases listed

theorem plain_add {a b : Value} (plainA : a.isPlain = true) (plainB : b.isPlain = true) : PlainResult (a.add b) := by
  unfold add
  split
  · refine sure_ok (plain_list.mpr fun x member => ?_)
    exact (List.mem_append.mp member).elim (plain_list.mp plainA x) (plain_list.mp plainB x)
  · exact sure_ok rfl
  · exact sure_bind fun _ _ => sure_bind fun _ _ => Scalar.plain_combine _ _ _ _ _

theorem plain_sub (a b : Value) : PlainResult (a.sub b) :=
  sure_bind fun _ _ => sure_bind fun _ _ => Scalar.plain_combine _ _ _ _ _

theorem repeatItems_mem {α : Type} {count : Int} {items found : List α} (repeated : repeatItems count items = .ok found) :
    ∀ x ∈ found, x ∈ items := by
  unfold repeatItems at repeated
  split at repeated
  · cases repeated
    exact fun x member => by cases member
  · split at repeated
    · cases repeated
    · cases repeated
      intro x member
      obtain ⟨copy, listed, inside⟩ := List.mem_flatten.mp member
      exact (List.mem_replicate.mp listed).2 ▸ inside

theorem plain_times {value : Value} (plain : value.isPlain = true) (n : Int) : PlainResult (value.times n) := by
  unfold times
  split
  · exact sure_bind fun _ _ => sure_pure rfl
  · refine sure_bind fun found repeated => sure_pure (plain_list.mpr fun x member => ?_)
    exact plain_list.mp plain x (repeatItems_mem repeated x member)
  · exact sure_error _

theorem plain_repetition {count repeated : Value} (plain : repeated.isPlain = true) :
    PlainResult (repetition count times repeated) := by
  unfold repetition
  split
  · exact plain_times plain _
  · exact sure_error _

theorem plain_mul {a b : Value} (plainA : a.isPlain = true) (plainB : b.isPlain = true) : PlainResult (a.mul b) := by
  unfold mul
  split
  · exact plain_repetition rfl
  · exact plain_repetition plainA
  · exact plain_repetition rfl
  · exact plain_repetition plainB
  · exact sure_bind fun _ _ => sure_bind fun _ _ => Scalar.plain_combine _ _ _ _ _

theorem plain_div (a b : Value) : PlainResult (a.div b) :=
  sure_bind fun _ _ => sure_bind fun _ _ => Scalar.plain_divide _ _

theorem plain_pow (a b : Value) : PlainResult (a.pow b) :=
  sure_bind fun _ _ => sure_bind fun _ _ => Scalar.plain_power _ _

theorem plain_neg (a : Value) : PlainResult a.neg :=
  sure_bind fun _ _ => sure_pure (Scalar.plain_toValue _)

theorem itemAt_mem {α : Type} {items : List α} {n : Int} {found : α} (item : itemAt items n = .ok found) :
    found ∈ items := by
  unfold itemAt at item
  dsimp only at item
  generalize (if n < 0 then n + (items.length : Int) else n) = place at item
  split at item
  · cases item
  · split at item
    · rename_i read
      cases item
      exact List.mem_of_getElem? read
    · cases item

theorem findKey_mem {key : Key} {entries : List (Key × Value)} {value : Value} (found : findKey key entries = some value) :
    ∃ name, (name, value) ∈ entries := by
  have inside : ∀ name, entries.lookup name = some value → ∃ name, (name, value) ∈ entries :=
    fun name read => ⟨name, lookup_mem read⟩
  unfold findKey at found
  repeat' split at found
  all_goals first
    | exact inside _ found
    | simp only [Option.orElse_eq_orElse, Option.orElse_eq_or, Option.or_eq_some_iff, reduceCtorEq, and_false,
        or_false] at found
  all_goals first
    | exact inside _ found
    | exact found.elim (inside _) fun later => inside _ later.2

theorem plain_index {value at' : Value} (plain : value.isPlain = true) : PlainResult (value.index at') := by
  unfold index
  split
  · split
    · intro found item
      exact plain_list.mp plain found (itemAt_mem item)
    · exact sure_error _
  · split
    · exact sure_bind fun _ _ => sure_pure rfl
    · exact sure_error _
  · split
    · split
      · rename_i found read
        obtain ⟨name, member⟩ := findKey_mem read
        exact sure_ok (plain_map.mp plain _ member)
      · exact sure_error _
    · exact sure_error _
  · exact sure_error _

theorem plain_leastFrom (items : List Value) : ∀ best : Value, best.isPlain = true →
    (∀ x ∈ items, x.isPlain = true) → PlainResult (leastFrom best items) := by
  induction items with
  | nil => exact fun best plain _ => sure_ok plain
  | cons x rest ih =>
    intro best plain others
    refine sure_bind fun smaller _ => ?_
    split
    · exact ih x (others x (by simp)) fun y member => others y (by simp [member])
    · exact ih best plain fun y member => others y (by simp [member])

theorem plain_greatestFrom (items : List Value) : ∀ best : Value, best.isPlain = true →
    (∀ x ∈ items, x.isPlain = true) → PlainResult (greatestFrom best items) := by
  induction items with
  | nil => exact fun best plain _ => sure_ok plain
  | cons x rest ih =>
    intro best plain others
    refine sure_bind fun larger _ => ?_
    split
    · exact ih x (others x (by simp)) fun y member => others y (by simp [member])
    · exact ih best plain fun y member => others y (by simp [member])

end Value

end ProceduralScene
