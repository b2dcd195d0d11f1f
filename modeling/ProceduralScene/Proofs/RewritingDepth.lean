import Mathlib.Logic.Function.Iterate
import ProceduralScene.Proofs.Dispatch
import ProceduralScene.Proofs.SettledSpelling

/-!
Older spellings are replaced again at each depth of an action. Where they were not stacked once is enough, so that
the depth of a text does not matter.
-/

set_option autoImplicit false

namespace ProceduralScene.Spelling

/-- No older spelling is left in the entries. -/
def Current (entries : List (Key × Value)) : Prop := modernEntries entries = entries

theorem current_cons {key : Key} {value : Value} {entries : List (Key × Value)} :
    Current ((key, value) :: entries) ↔ modern value = value ∧ Current entries := by
  simp [Current, modernEntries]

theorem current_entry {name : String} {entries : List (Key × Value)} (current : Current entries) {value : Value}
    (found : Value.entry? name entries = some value) : modern value = value := by
  induction entries with
  | nil => cases found
  | cons entry entries ih =>
    obtain ⟨own, rest⟩ := current_cons.mp current
    rw [Value.entry?, List.lookup_cons] at found
    split at found
    · cases found
      exact own
    · exact ih rest found

theorem current_getD {name : String} {entries : List (Key × Value)} (current : Current entries) {other : Value}
    (kept : modern other = other) : modern ((Value.entry? name entries).getD other) = (Value.entry? name entries).getD other := by
  cases found : Value.entry? name entries with
  | none => exact kept
  | some value => exact current_entry current found

theorem current_items {items : List Value} (current : modernItems items = items) : ∀ item ∈ items, modern item = item := by
  induction items with
  | nil => exact List.forall_mem_nil _
  | cons item items ih =>
    rw [modernItems, List.cons.injEq] at current
    exact List.forall_mem_cons.mpr ⟨current.1, ih current.2⟩

end ProceduralScene.Spelling

namespace ProceduralScene.Normalize

open Spelling

/-- Normalizes an item in which no older spelling is left: nothing is rewritten, at no depth. -/
def currentWithin (store : Store) : Nat → Normalizer
  | 0, _, _ => pure none
  | depth + 1, raw, place =>
    match raw with
    | .map entries => dispatch store (currentWithin store depth) entries place
    | _ => leaveOut (place ++ ": action must be a mapping, got " ++ raw.kindName store.titleOf)

theorem current_listed {value : Value} (kept : modern value = value) : ∀ item ∈ listed value, modern item = item := by
  match value with
  | .null => exact List.forall_mem_nil _
  | .list items => exact current_items (by rwa [modern, Value.list.injEq] at kept)
  | .bool _ | .int _ | .float _ | .complex _ _ | .text _ | .map _ | .node _ | .marker _ =>
    exact List.forall_mem_singleton.mpr kept

theorem itemWithin_current (store : Store) (depth : Nat) {raw : Value} (kept : modern raw = raw) (place : String) :
    itemWithin store depth raw place = currentWithin store depth raw place := by
  induction depth generalizing raw place with
  | zero => rfl
  | succ depth ih =>
    match raw with
    | .map entries =>
      rw [modern, Value.map.injEq] at kept
      rw [itemWithin_map, currentWithin, kept]
      exact dispatch_agree store (fun name item member => ih (current_listed (current_getD kept rfl) item member)) place
    | .null | .bool _ | .int _ | .float _ | .complex _ _ | .text _ | .list _ | .node _ | .marker _ => rfl

theorem itemWithin_modern (store : Store) (depth : Nat) {raw : Value} (settled : modern (modern raw) = modern raw) (place : String) :
    itemWithin store depth raw place = itemWithin store depth (modern raw) place := by
  cases depth with
  | zero => rfl
  | succ depth =>
    match raw with
    | .map entries =>
      rw [modern, modern, Value.map.injEq] at settled
      rw [modern, itemWithin_map, itemWithin_map, settled]
    | .null | .bool _ | .int _ | .float _ | .complex _ _ | .text _ | .list _ | .node _ | .marker _ => rfl

/-- Normalizes a list of actions, or a single one, in which no older spelling is left. -/
def currentActions (store : Store) (raw : Value) (place : String) : Normalizing (List Action) :=
  nested (currentWithin store (raw.depth + 1)) raw place

theorem iterate_modern {raw : Value} (settled : modern (modern raw) = modern raw) (n : Nat) : modern^[n + 1] raw = modern raw := by
  induction n with
  | zero => rfl
  | succ n ih => rw [Function.iterate_succ_apply', ih, settled]

theorem listed_modern (raw : Value) : listed (modern raw) = (listed raw).map modern := by
  match raw with
  | .list items =>
    rw [modern, listed, listed]
    induction items with
    | nil => rfl
    | cons item items ih => rw [modernItems, List.map_cons, ih]
  | .null | .bool _ | .int _ | .float _ | .complex _ _ | .text _ | .map _ | .node _ | .marker _ => rfl

theorem settled_listed {raw : Value} (settled : modern (modern raw) = modern raw) :
    ∀ item ∈ listed raw, modern (modern item) = modern item := by
  have kept := current_listed settled
  rw [listed_modern] at kept
  exact fun item member => kept _ (List.mem_map_of_mem member)

theorem nested_modern (store : Store) (depth : Nat) {raw : Value} (settled : modern (modern raw) = modern raw) (place : String) :
    nested (itemWithin store depth) raw place = nested (itemWithin store depth) (modern raw) place := by
  have items := settled_listed settled
  rw [nested_listed, nested_listed, listed_modern, List.zipIdx_map, List.mapM_map, mapM_agree]
  intro item member
  exact itemWithin_modern store depth (items _ (List.fst_mem_of_mem_zipIdx member)) _

/-- A second rewriting changes a text, or a value, exactly when older spellings were stacked in it. Where they were
not, it does not matter how often an item was rewritten before it is normalized, and to rewrite the whole once is the
same as to rewrite it again at each depth. -/
theorem rewriting_settles (store : Store) :
    (∀ text, modernText (modernText text) = modernText text ↔ ¬ Stacked (lexemes text.toList)) ∧
      (∀ raw, modern (modern raw) = modern raw ↔ Unstacked (texts raw)) ∧
      ∀ raw, Unstacked (texts raw) →
        (∀ n depth place, itemWithin store depth (modern^[n] raw) place = itemWithin store depth raw place) ∧
          ∀ place, actions store raw place = currentActions store (modern raw) place := by
  refine ⟨modernText_again, modern_again, fun raw unstacked => ⟨fun n depth place => ?_, fun place => ?_⟩⟩
  · have settled := (modern_again raw).mpr unstacked
    cases n with
    | zero => rfl
    | succ n => rw [iterate_modern settled, ← itemWithin_modern store depth settled]
  · have settled := (modern_again raw).mpr unstacked
    rw [actions, nested_modern store _ settled, currentActions, depth_modern]
    exact nested_agree (fun item member => itemWithin_current store _ (current_listed settled item member)) place

theorem rewriting_settles_nested :
    let raw := Value.map [(.text "type", .text "group"), (.text "children", .list [.map
      [(.text "do", .text "createBox"), (.text "id", .text "ctx.row === Math.floor(ctx.ctx)")]])]
    Unstacked (texts raw) ∧ (∀ n depth place, itemWithin .empty depth (modern^[n] raw) place = itemWithin .empty depth raw place) ∧
      ∀ place, actions .empty raw place = currentActions .empty (modern raw) place := by
  intro raw
  have unstacked : Unstacked (texts raw) := by
    intro text member
    have settled : ∀ text ∈ ["group", "createBox", "ctx.row === Math.floor(ctx.ctx)"],
        modernText (modernText text) = modernText text := by
      decide
    exact ((rewriting_settles .empty).1 text).mp (settled text member)
  exact ⟨unstacked, (rewriting_settles .empty).2.2 raw unstacked⟩

/-- Of four equals signs each rewriting takes one. -/
theorem rewriting_unsettled : ¬ ∀ text, modernText (modernText text) = modernText text :=
  fun settles => absurd (settles "====") (by decide)

end ProceduralScene.Normalize
