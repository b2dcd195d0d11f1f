import ProceduralScene.Schema.Normalize

/-!
One step of normalization: the fields of an item and the items nested in them. The bound on the depth of an item never
runs out, so that any larger bound gives the same.
-/

set_option autoImplicit false

namespace ProceduralScene.Value

theorem entry_append (name : String) (first second : List (Key × Value)) :
    entry? name (first ++ second) = (Value.entry? name first).or (Value.entry? name second) :=
  List.lookup_append

theorem entry_cons (name : String) (key : Key) (value : Value) (entries : List (Key × Value)) :
    entry? name ((key, value) :: entries) = if .text name = key then some value else entry? name entries := by
  rw [Value.entry?, List.lookup_cons]
  by_cases same : Key.text name = key
  · rw [if_pos same, beq_iff_eq.mpr same]
  · rw [if_neg same, beq_eq_false_iff_ne.mpr same, entry?]

theorem entry_filter (name other : String) (entries : List (Key × Value)) :
    entry? name (entries.filter (·.1 != .text other)) = if name = other then none else entry? name entries := by
  induction entries with
  | nil => simp [Value.entry?]
  | cons entry entries ih =>
    obtain ⟨key, value⟩ := entry
    rw [List.filter_cons, entry_cons]
    by_cases dropped : key = .text other
    · subst dropped
      by_cases same : name = other <;> simp_all
    · have kept : (key != Key.text other) = true := by simpa using dropped
      rw [if_pos kept, entry_cons, ih]
      by_cases here : Key.text name = key
      · subst here
        have different : name ≠ other := fun same => dropped (by rw [same])
        simp [different]
      · simp [here]

theorem entry_put (name : String) (key : Key) (value : Value) (entries : List (Key × Value)) :
    entry? name (putEntry key value entries) = if .text name = key then some value else entry? name entries := by
  induction entries with
  | nil => rw [putEntry, entry_cons]
  | cons entry entries ih =>
    obtain ⟨found, old⟩ := entry
    rw [putEntry]
    by_cases same : found = key
    · subst same
      rw [if_pos (beq_self_eq_true _), entry_cons, entry_cons]
      by_cases here : Key.text name = found <;> simp [here]
    · rw [if_neg (by simpa using same), entry_cons, entry_cons, ih]
      by_cases here : Key.text name = found
      · subst here
        simp [same]
      · simp [here]

theorem depth_entry {name : String} {entries : List (Key × Value)} {value : Value} (found : entry? name entries = some value) :
    value.depth ≤ depthOfEntries entries := by
  induction entries with
  | nil => cases found
  | cons entry entries ih =>
    obtain ⟨key, own⟩ := entry
    rw [entry_cons] at found
    rw [depthOfEntries]
    by_cases here : Key.text name = key
    · rw [if_pos here] at found
      cases found
      exact Nat.le_max_left _ _
    · rw [if_neg here] at found
      exact Nat.le_trans (ih found) (Nat.le_max_right _ _)

theorem depth_item {item : Value} {items : List Value} (member : item ∈ items) : item.depth ≤ depthOfItems items := by
  induction items with
  | nil => cases member
  | cons first items ih =>
    rw [depthOfItems]
    rcases List.mem_cons.mp member with rfl | later
    · exact Nat.le_max_left _ _
    · exact Nat.le_trans (ih later) (Nat.le_max_right _ _)

end ProceduralScene.Value

namespace ProceduralScene.Spelling

mutual
theorem depth_modern (value : Value) : (modern value).depth = value.depth := by
  match value with
  | .list items => rw [modern, Value.depth, Value.depth, depth_modernItems items]
  | .map entries => rw [modern, Value.depth, Value.depth, depth_modernEntries entries]
  | .null | .bool _ | .int _ | .float _ | .complex _ _ | .text _ | .node _ | .marker _ => rfl

theorem depth_modernItems (items : List Value) : Value.depthOfItems (modernItems items) = Value.depthOfItems items := by
  match items with
  | [] => rfl
  | x :: rest => rw [modernItems, Value.depthOfItems, Value.depthOfItems, depth_modern x, depth_modernItems rest]

theorem depth_modernEntries (entries : List (Key × Value)) : Value.depthOfEntries (modernEntries entries) = Value.depthOfEntries entries := by
  match entries with
  | [] => rfl
  | (_, x) :: rest => rw [modernEntries, Value.depthOfEntries, Value.depthOfEntries, depth_modern x, depth_modernEntries rest]
end

end ProceduralScene.Spelling

namespace ProceduralScene.Normalize

open Spelling

abbrev Normalizer := Value → String → Normalizing (Option Action)

/-- What is done with the entries of an item, once the older spellings in them are replaced. -/
def dispatch (store : Store) (normalize : Normalizer) (entries : Entries) (place : String) : Normalizing (Option Action) :=
  let thought := given "thought" entries
  let entries := entries.filter (·.1 != .text "thought")
  if thought.truthy && entries.isEmpty then pure none
  else if (Value.entry? "do" entries).isSome then fromVerb store normalize entries place
  else if (given "type" entries).isNull && (Value.entry? "helper" entries).isSome then fromStep store entries place
  else fromKind store normalize entries place

theorem itemWithin_map (store : Store) (depth : Nat) (entries : Entries) (place : String) :
    itemWithin store (depth + 1) (.map entries) place = dispatch store (itemWithin store depth) (modernEntries entries) place :=
  rfl

/-- The items that a nested field lists: none, a list of them or a single one. -/
def listed : Value → List Value
  | .null => []
  | .list items => items
  | item => [item]

theorem nested_listed (normalize : Normalizer) (value : Value) (place : String) : nested normalize value place = (do
    let found ← (listed value).zipIdx.mapM fun item => normalize item.1 (place ++ "[" ++ toString item.2 ++ "]")
    return found.filterMap id) := by
  cases value <;> rfl

theorem mapM_agree {α β : Type} {first second : α → Normalizing β} {items : List α} (agree : ∀ item ∈ items, first item = second item) :
    items.mapM first = items.mapM second := by
  induction items with
  | nil => rfl
  | cons item items ih =>
    rw [List.mapM_cons, List.mapM_cons, agree item List.mem_cons_self, ih fun other member => agree other (List.mem_cons_of_mem item member)]

section

variable {first second : Normalizer}

theorem nested_agree {value : Value} (agree : ∀ item ∈ listed value, ∀ place, first item place = second item place)
    (place : String) : nested first value place = nested second value place := by
  rw [nested_listed, nested_listed, mapM_agree]
  intro item member
  exact agree _ (List.fst_mem_of_mem_zipIdx member) _

/-- Only the items listed in fields of the entries are normalized in turn. -/
theorem dispatch_agree (store : Store) {entries : Entries}
    (agree : ∀ name, ∀ item ∈ listed (given name entries), ∀ place, first item place = second item place) (place : String) :
    dispatch store first entries place = dispatch store second entries place := by
  rw [dispatch, dispatch]
  generalize kept : entries.filter (·.1 != .text "thought") = rest
  have fields : ∀ name place, nested first (given name rest) place = nested second (given name rest) place := by
    intro name place
    refine nested_agree (fun item member => agree name item ?_) place
    rw [given, ← kept, Value.entry_filter] at member
    by_cases dropped : name = "thought"
    · rw [if_pos dropped] at member
      cases member
    · rwa [if_neg dropped] at member
  have either : ∀ name other place, nested first ((Value.entry? name rest).getD (given other rest)) place =
      nested second ((Value.entry? name rest).getD (given other rest)) place := by
    intro name other place
    have own := fields name place
    rw [given] at own
    cases found : Value.entry? name rest with
    | none => exact fields other place
    | some value => rwa [found] at own
  simp only [fromVerb, fromKind, fields, either]

end

theorem depth_listed {item value : Value} (member : item ∈ listed value) : item.depth ≤ value.depth := by
  match value with
  | .null => cases member
  | .list items => exact Nat.le_succ_of_le (Value.depth_item member)
  | .bool _ | .int _ | .float _ | .complex _ _ | .text _ | .map _ | .node _ | .marker _ =>
    exact Nat.le_of_eq (congrArg Value.depth (List.mem_singleton.mp member))

/-- A bound above the depth of an item gives what any other does. -/
theorem itemWithin_enough (store : Store) (depth other : Nat) {raw : Value} (enough : raw.depth < depth)
    (enough' : raw.depth < other) (place : String) : itemWithin store depth raw place = itemWithin store other raw place := by
  induction depth generalizing other raw place with
  | zero => exact absurd enough (Nat.not_lt_zero _)
  | succ depth ih =>
    obtain _ | other := other
    · exact absurd enough' (Nat.not_lt_zero _)
    match raw with
    | .map entries =>
      rw [Value.depth] at enough enough'
      rw [itemWithin_map, itemWithin_map]
      refine dispatch_agree store (fun name item member place => ?_) place
      have bound : item.depth ≤ Value.depthOfEntries entries := by
        rw [← depth_modernEntries]
        rw [given] at member
        cases found : Value.entry? name (modernEntries entries) with
        | none =>
          rw [found] at member
          cases member
        | some value =>
          rw [found] at member
          exact Nat.le_trans (depth_listed member) (Value.depth_entry found)
      exact ih other (by omega) (by omega) place
    | .null | .bool _ | .int _ | .float _ | .complex _ _ | .text _ | .list _ | .node _ | .marker _ => rfl

theorem itemWithin_item (store : Store) {depth : Nat} {raw : Value} (enough : raw.depth < depth) (place : String) :
    itemWithin store depth raw place = item store raw place :=
  itemWithin_enough store depth (raw.depth + 1) enough (Nat.lt_succ_self _) place

end ProceduralScene.Normalize
