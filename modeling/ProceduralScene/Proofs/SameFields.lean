import ProceduralScene.Proofs.Dispatch

/-!
What is read of an action depends only on the fields that belong to its kind, wherever they stand among the entries
and however they were put there.
-/

set_option autoImplicit false

namespace ProceduralScene.Value

/-- The entries have the same values, or none, at these names. -/
def Same (names : List String) (first second : List (Key × Value)) : Prop :=
  ∀ name ∈ names, entry? name first = entry? name second

section

variable {names : List String} {first second : List (Key × Value)}

theorem same_part (part : List String) (same : Same names first second) (within : ∀ name ∈ part, name ∈ names) :
    Same part first second :=
  fun name member => same name (within name member)

end

end ProceduralScene.Value

namespace ProceduralScene.Reading

open Value

variable {names : List String} {first second : List (Key × Value)} (same : Same names first second)

include same

theorem find_same : names.find? (fun name => (Value.entry? name first).isSome) = names.find? (fun name => (Value.entry? name second).isSome) := by
  induction names with
  | nil => rfl
  | cons name names ih =>
    rw [List.find?_cons, List.find?_cons, same name List.mem_cons_self, ih fun other member => same other (List.mem_cons_of_mem name member)]

theorem field_same {α : Type} (missing : Reading α) (read : Value → Reading α) :
    field names missing read first = field names missing read second := by
  rw [field, field, find_same same]
  cases found : names.find? fun name => (Value.entry? name second).isSome with
  | none => rfl
  | some name => dsimp only; rw [same name (List.mem_of_find?_eq_some found)]

end ProceduralScene.Reading

namespace ProceduralScene.Action

open Value

theorem free_same {names : List String} {first second : List (Key × Value)} (same : Same names first second) (missing : Value) :
    free names missing first = free names missing second := by
  have found : names.filterMap (fun name => entry? name first) = names.filterMap (fun name => entry? name second) := by
    induction names with
    | nil => rfl
    | cons name names ih =>
      rw [List.filterMap_cons, List.filterMap_cons, same name List.mem_cons_self,
        ih fun other member => same other (List.mem_cons_of_mem name member)]
  rw [free, free, found]

theorem free_one (name : String) (missing : Value) (entries : List (Key × Value)) :
    free [name] missing entries = (Value.entry? name entries).getD missing := by
  rw [free, List.filterMap_cons, List.filterMap_nil]
  cases entry? name entries <;> rfl

/-- The fields of a frame, which may also be null, with the visibility that is assumed where none is given. -/
theorem readFrame_same {first second : List (Key × Value)}
    (same : ∀ name ∈ "id" :: Normalize.transformKeys, Normalize.given name first = Normalize.given name second)
    (visible : (Value.entry? "visible" first).getD (.bool true) = (Value.entry? "visible" second).getD (.bool true)) :
    readFrame first = readFrame second := by
  have one : ∀ name ∈ "id" :: Normalize.transformKeys, free [name] .null first = free [name] .null second :=
    fun name member => by rw [free_one, free_one]; exact same name member
  have seen : free ["visible"] (.bool true) first = free ["visible"] (.bool true) second := by rw [free_one, free_one, visible]
  rw [readFrame, readFrame, one "id" (by decide), one "position" (by decide), one "rotation" (by decide), one "scale" (by decide), seen]

theorem frame_of_same {first second : List (Key × Value)} (same : Same ("id" :: "visible" :: Normalize.transformKeys) first second) :
    readFrame first = readFrame second := by
  refine readFrame_same (fun name member => ?_) (by rw [same "visible" (by decide)])
  have within : name ∈ "id" :: "visible" :: Normalize.transformKeys := by
    rcases List.mem_cons.mp member with rfl | transform
    · exact List.mem_cons_self
    · exact List.mem_cons_of_mem _ (List.mem_cons_of_mem _ transform)
  rw [Normalize.given, Normalize.given, same name within]

section

variable {first second : List (Key × Value)} (frame : readFrame first = readFrame second)

include frame

theorem readLoop_same (type : readType "loop" first = readType "loop" second)
    (own : Same ["var", "from", "from_", "to", "step"] first second) (body : List Action) : readLoop first body = readLoop second body := by
  have counter := Reading.field_same (same_part ["var"] own (by simp)) (.ok "i") Reading.text
  have start := free_same (same_part ["from", "from_"] own (by simp)) (.int 0)
  have stop := free_same (same_part ["to"] own (by simp)) (.int 0)
  have step := free_same (same_part ["step"] own (by simp)) (.int 1)
  simp only [readLoop, frame, type, counter, start, stop, step]

theorem readConditional_same (type : readType "if" first = readType "if" second) (own : Same ["condition"] first second)
    (accepted refused : List Action) : readConditional first accepted refused = readConditional second accepted refused := by
  rw [readConditional, readConditional, frame, type, free_same own]

theorem readRepetition_same (type : readType "repeat" first = readType "repeat" second)
    (own : Same ["count", "distribution", "instance_parameters"] first second) (children : List Action) :
    readRepetition first children = readRepetition second children := by
  have count := free_same (same_part ["count"] own (by simp)) (.int 0)
  have distribution := Reading.field_same (same_part ["distribution"] own (by simp)) (.ok none) (Reading.optional Reading.bindings)
  have parameters := Reading.field_same (same_part ["instance_parameters"] own (by simp)) (.ok []) Reading.bindings
  simp only [readRepetition, frame, type, count, distribution, parameters]

theorem readReference_same (target : Same ["target"] first second)
    (material : Normalize.given "material" first = Normalize.given "material" second) : readReference first = readReference second := by
  rw [readReference, readReference, Reading.required, Reading.required, Reading.field_same target, frame, free_one, free_one]
  rw [Normalize.given, Normalize.given] at material
  rw [material]

theorem readHelper_same (name : Same ["helper"] first second)
    (params : Reading.field ["params"] (.ok []) Reading.bindings first = Reading.field ["params"] (.ok []) Reading.bindings second)
    (store : Reading.field ["as", "store"] (.ok none) (Reading.optional Reading.text) first =
      Reading.field ["as", "store"] (.ok none) (Reading.optional Reading.text) second)
    (material : Normalize.given "material" first = Normalize.given "material" second) : readHelper first = readHelper second := by
  have called := Reading.field_same name (.error [["helper"]]) Reading.text
  have made : free ["material"] .null first = free ["material"] .null second := by rw [free_one, free_one]; exact material
  simp only [readHelper, Reading.required, Reading.under, Reading.misfit, List.map_cons, List.map_nil, called, params, store, frame, made]

end

end ProceduralScene.Action

namespace ProceduralScene.Normalize

open Value

/-! ### Transforms -/

theorem entry_putGiven (name key : String) (source fields : Entries) : entry? name (putGiven source fields key) =
    if name = key ∧ (given key source).isNull = false then some (given key source) else entry? name fields := by
  rw [putGiven]
  by_cases absent : (given key source).isNull = true
  · simp [absent]
  · rw [if_neg absent, entry_put]
    by_cases here : name = key <;> simp [here, absent]

/-- The value that is put last for a key among several sources, else what stood there. -/
theorem entry_putAll (name : String) (source : Entries) (keys : List String) : ∀ fields : Entries,
    entry? name (keys.foldl (putGiven source) fields) =
      if name ∈ keys ∧ (given name source).isNull = false then some (given name source) else entry? name fields := by
  induction keys with
  | nil => intro fields; simp
  | cons key keys ih =>
    intro fields
    rw [List.foldl_cons, ih, entry_putGiven]
    by_cases later : name ∈ keys
    · by_cases absent : (given name source).isNull = true
      · by_cases here : name = key
        · subst here
          simp [absent]
        · simp [absent, here]
      · simp [later, absent]
    · by_cases here : name = key
      · subst here
        simp [later]
      · simp [later, here]

/-- The part of a transform, as the field `transform` or the action itself gives it. -/
def transformPart (name : String) (raw : Entries) : Option Value :=
  let inner := (given "transform" raw).fieldOrNull name
  if name ∈ transformKeys then
    if inner.isNull = false then some inner
    else if (given name raw).isNull = false then some (given name raw) else none
  else none

theorem entry_transformFields (name : String) (raw : Entries) : entry? name (transformFields raw) = transformPart name raw := by
  rw [transformFields, transformPart]
  split
  · rename_i transform is
    rw [is, entry_putAll, entry_putAll]
    by_cases part : name ∈ transformKeys
    · simp only [part, true_and, if_true]
      rfl
    · simp [part, entry?]
  · rename_i noMap
    have absent : ((given "transform" raw).fieldOrNull name).isNull = true := by
      cases value : given "transform" raw with
      | map transform => exact absurd value (noMap transform)
      | _ => rfl
    rw [entry_putAll]
    by_cases part : name ∈ transformKeys <;> simp [part, absent, entry?]

theorem keys_put (key : Key) (value : Value) (entries : Entries) : (putEntry key value entries).map (·.1) =
    if key ∈ entries.map (·.1) then entries.map (·.1) else entries.map (·.1) ++ [key] := by
  induction entries with
  | nil => rfl
  | cons entry entries ih =>
    obtain ⟨found, old⟩ := entry
    rw [putEntry]
    by_cases same : found = key
    · subst same
      simp
    · have other : ¬ key = found := fun equal => same equal.symm
      rw [if_neg (by simpa using same), List.map_cons, List.map_cons, ih]
      by_cases later : key ∈ entries.map (·.1)
      · rw [if_pos later, if_pos (List.mem_cons_of_mem _ later)]
      · rw [if_neg later, if_neg (by simp only [List.mem_cons, not_or]; exact ⟨other, later⟩), List.cons_append]

theorem nodup_put {key : Key} {value : Value} {entries : Entries} (nodup : (entries.map (·.1)).Nodup) :
    ((putEntry key value entries).map (·.1)).Nodup := by
  rw [keys_put]
  by_cases present : key ∈ entries.map (·.1)
  · rwa [if_pos present]
  · rw [if_neg present, List.nodup_append]
    refine ⟨nodup, by simp, fun a member b only => ?_⟩
    rw [List.mem_singleton.mp only]
    exact fun same => present (same ▸ member)

theorem nodup_transformFields (raw : Entries) : ((transformFields raw).map (·.1)).Nodup := by
  have all : ∀ (source : Entries) (keys : List String) (fields : Entries), (fields.map (·.1)).Nodup →
      ((keys.foldl (putGiven source) fields).map (·.1)).Nodup := by
    intro source keys
    induction keys with
    | nil => exact fun _ nodup => nodup
    | cons key keys ih =>
      intro fields nodup
      refine ih _ ?_
      rw [putGiven]
      split
      · exact nodup
      · exact nodup_put nodup
  rw [transformFields]
  split
  · exact all _ _ _ (all _ _ _ List.nodup_nil)
  · exact all _ _ _ List.nodup_nil

theorem entry_overlaid (name : String) {upper : Entries} (nodup : (upper.map (·.1)).Nodup) : ∀ lower : Entries,
    entry? name (upper.foldl (fun entries entry => putEntry entry.1 entry.2 entries) lower) =
      (Value.entry? name upper).or (Value.entry? name lower) := by
  induction upper with
  | nil => exact fun _ => rfl
  | cons entry upper ih =>
    intro lower
    obtain ⟨key, value⟩ := entry
    rw [List.map_cons, List.nodup_cons] at nodup
    rw [List.foldl_cons, ih nodup.2, entry_put, entry_cons]
    by_cases here : Key.text name = key
    · subst here
      have once : entry? name upper = none := by
        refine List.lookup_eq_none_iff.mpr fun entry member => bne_iff_ne.mpr fun same => ?_
        exact nodup.1 (List.mem_map.mpr ⟨entry, member, same.symm⟩)
      simp [once]
    · simp [here]

theorem entry_withTransform (name : String) (raw : Entries) :
    entry? name (withTransform raw) = (transformPart name raw).or (Value.entry? name raw) := by
  rw [withTransform, entry_overlaid name (nodup_transformFields raw), entry_transformFields]

theorem transformPart_same {first second : Entries} (same : Same ("transform" :: transformKeys) first second) (name : String) :
    transformPart name first = transformPart name second := by
  rw [transformPart, transformPart, given, given, same "transform" List.mem_cons_self]
  by_cases part : name ∈ transformKeys
  · rw [given, given, same name (List.mem_cons_of_mem _ part)]
  · rw [if_neg part, if_neg part]

theorem same_withTransform {names : List String} {first second : Entries} (same : Same names first second)
    (within : ∀ name ∈ "transform" :: transformKeys, name ∈ names) : Same names (withTransform first) (withTransform second) := by
  intro name member
  rw [entry_withTransform, entry_withTransform, transformPart_same (same_part _ same within), same name member]

theorem entry_dressed {name : String} (other : name ∉ transformKeys) (raw : Entries) : entry? name (withTransform raw) = entry? name raw := by
  rw [entry_withTransform, transformPart, if_neg other, Option.none_or]

theorem same_put {name : String} {value : Value} {entries : Entries} (there : entry? name entries = some value) (names : List String) :
    Same names (putEntry (.text name) value entries) entries := by
  intro other _
  rw [entry_put]
  split
  · rename_i same
    rw [Key.text.inj same, there]
  · rfl

theorem filter_absent {name : String} {entries : Entries} (absent : entry? name entries = none) :
    entries.filter (·.1 != .text name) = entries :=
  List.filter_eq_self.mpr fun entry member => bne_iff_ne.mpr fun same =>
    bne_iff_ne.mp (List.lookup_eq_none_iff.mp absent entry member) same.symm

theorem entry_chosen (name : String) (fields : Bindings) (raw : Entries) :
    entry? name (chosen fields raw) = (fields.lookup name).or (transformPart name raw) := by
  rw [chosen, entry_append, entry_transformFields]
  congr 1
  induction fields with
  | nil => rfl
  | cons field fields ih =>
    rw [List.map_cons, entry_cons, List.lookup_cons, ih]
    by_cases here : name = field.1
    · simp [here]
    · rw [if_neg (by simpa using here), beq_eq_false_iff_ne.mpr here]

theorem entry_chosen_own {name : String} (other : name ∉ transformKeys) (fields : Bindings) (raw : Entries) :
    entry? name (chosen fields raw) = fields.lookup name := by
  rw [entry_chosen, transformPart, if_neg other, Option.or_none]

theorem given_chosen {name : String} (other : name ∉ transformKeys) (fields : Bindings) (raw : Entries) :
    given name (chosen fields raw) = (fields.lookup name).getD .null :=
  congrArg (·.getD .null) (entry_chosen_own other fields raw)

theorem given_dressed_own {name : String} (other : name ∉ transformKeys) (raw : Entries) : given name (withTransform raw) = given name raw :=
  congrArg (·.getD .null) (entry_dressed other raw)

theorem given_dressed {name : String} (part : name ∈ transformKeys) (raw : Entries) :
    given name (withTransform raw) = (transformPart name raw).getD .null := by
  rw [given, entry_withTransform]
  cases found : transformPart name raw with
  | some value => rfl
  | none =>
    rw [transformPart, if_pos part] at found
    rw [Option.none_or, Option.getD_none]
    split at found
    · cases found
    · split at found
      · cases found
      · rename_i absent
        rw [given] at absent
        cases own : (Value.entry? name raw).getD .null with
        | null => rfl
        | _ => simp [own, isNull] at absent

theorem readType_dressed {expected : String} {raw : Entries} (fits : entry? "type" raw = none ∨ entry? "type" raw = some (.text expected)) :
    Action.readType expected (withTransform raw) = .ok () := by
  have dressed := entry_dressed (by decide : "type" ∉ transformKeys) raw
  rw [Action.readType, Reading.field, List.find?_cons, dressed]
  rcases fits with none | named
  · rw [none]
    rfl
  · rw [named]
    simp [Reading.under, dressed, named]

end ProceduralScene.Normalize
