import ProceduralScene.Proofs.SameFields
import ProceduralScene.Proofs.SettledSpelling

/-!
Actions as they are written with a verb in `do` or with a kind in `type`: a loop, a condition, a repetition, a copy or
a call of a helper. Replacing older spellings in what is written is the same as replacing them in the action first.
-/

set_option autoImplicit false

namespace ProceduralScene.Spelling

theorem entry_modern (name : String) (entries : List (Key × Value)) :
    Value.entry? name (modernEntries entries) = (Value.entry? name entries).map modern := by
  induction entries with
  | nil => rfl
  | cons entry entries ih =>
    obtain ⟨key, value⟩ := entry
    rw [modernEntries, Value.entry_cons, Value.entry_cons, ih]
    split <;> rfl

theorem truthy_modern (value : Value) : (modern value).truthy = value.truthy := by
  match value with
  | .text s =>
    have same : (modernText s == "") = (s == "") := Bool.eq_iff_iff.mpr (by simp only [beq_iff_eq, modernText_empty])
    rw [modern, Value.truthy, Value.truthy, bne, bne, same]
  | .list [] | .list (_ :: _) | .map [] | .map (_ :: _) => rfl
  | .null | .bool _ | .int _ | .float _ | .complex _ _ | .node _ | .marker _ => rfl

theorem isMap_modern (value : Value) : (modern value).isMap = value.isMap := by
  cases value <;> rfl

end ProceduralScene.Spelling

namespace ProceduralScene.Normalize

open Value Spelling

/-- An action as it is written in either way: the fields that come with it, and what each way puts in its own place. -/
inductive Written where
  | loop (fields : Entries) (body : List Written)
  | conditional (fields : Entries) (accepted refused : List Written)
  | repetition (fields : Entries) (children : List Written)
  | clone (fields : Entries) (target : String)
  | helper (fields : Entries) (name : String)

def only (names : List String) (fields : Entries) : Entries :=
  fields.filter fun entry => names.any fun name => entry.1 == .text name

def sharedNames : List String := "material" :: "as" :: "transform" :: "visible" :: transformKeys

def loopNames : List String := ["id", "params", "var", "from", "from_", "to", "step"] ++ sharedNames

def conditionalNames : List String := ["id", "params", "condition"] ++ sharedNames

def repetitionNames : List String := ["id", "params", "count", "distribution", "instance_parameters"] ++ sharedNames

def cloneNames : List String := "id" :: sharedNames

/-- The verbs that do not name a helper. -/
def reservedVerbs : List String := ["loop", "if", "repeat", "clone"]

namespace Written

mutual
/-- Written with a verb. -/
def verb : Written → Value
  | .loop fields body => .map ([(.text "do", .text "loop"), (.text "body", .list (verbs body))] ++ only loopNames fields)
  | .conditional fields accepted refused =>
    .map ([(.text "do", .text "if"), (.text "then", .list (verbs accepted)), (.text "else", .list (verbs refused))] ++
      only conditionalNames fields)
  | .repetition fields children =>
    .map ([(.text "do", .text "repeat"), (.text "body", .list (verbs children))] ++ only repetitionNames fields)
  | .clone fields target =>
    .map ([(.text "do", .text "clone"), (.text "params", .map [(.text "id", .text target)])] ++ only cloneNames fields)
  | .helper fields name => .map ((.text "do", .text name) :: only ("id" :: "params" :: sharedNames) fields)

def verbs : List Written → List Value
  | [] => []
  | action :: rest => verb action :: verbs rest
end

mutual
/-- Written with a kind. -/
def kind : Written → Value
  | .loop fields body => .map ([(.text "type", .text "loop"), (.text "body", .list (kinds body))] ++ only loopNames fields)
  | .conditional fields accepted refused =>
    .map ([(.text "type", .text "if"), (.text "then", .list (kinds accepted)), (.text "else", .list (kinds refused))] ++
      only conditionalNames fields)
  | .repetition fields children =>
    .map ([(.text "type", .text "repeat"), (.text "children", .list (kinds children))] ++ only repetitionNames fields)
  | .clone fields target =>
    .map ([(.text "type", .text "reference"), (.text "target", .text target)] ++ only cloneNames fields)
  | .helper fields name =>
    .map ([(.text "type", .text "helper"), (.text "helper", .text name),
        (.text "id", either (given "id" fields) (given "as" fields))] ++ only ("params" :: sharedNames) fields)

def kinds : List Written → List Value
  | [] => []
  | action :: rest => kind action :: kinds rest
end

mutual
/-- With the current spelling in all its texts. -/
def current : Written → Written
  | .loop fields body => .loop (modernEntries fields) (currents body)
  | .conditional fields accepted refused => .conditional (modernEntries fields) (currents accepted) (currents refused)
  | .repetition fields children => .repetition (modernEntries fields) (currents children)
  | .clone fields target => .clone (modernEntries fields) (modernText target)
  | .helper fields name => .helper (modernEntries fields) (modernText name)

def currents : List Written → List Written
  | [] => []
  | action :: rest => current action :: currents rest
end

/-- The fields of a call that is read alike in both ways. -/
structure Callable (fields : Entries) (name : String) : Prop where
  named : name ≠ ""
  ordinary : name ∉ reservedVerbs
  /-- Parameters that are no map and count as false stand for none after a verb, but are refused after a kind. -/
  params : ∀ value, entry? "params" fields = some value → value.isMap = true ∨ value.truthy = true

mutual
/-- What keeps both ways apart is not used: no copy is hidden, or of nothing, and no helper is called like a verb. -/
def Regular : Written → Prop
  | .loop _ body => RegularAll body
  | .conditional _ accepted refused => RegularAll accepted ∧ RegularAll refused
  | .repetition _ children => RegularAll children
  | .clone fields target => target ≠ "" ∧ (Value.entry? "visible" fields).getD (.bool true) = .bool true
  | .helper fields name => Callable fields name

def RegularAll : List Written → Prop
  | [] => True
  | action :: rest => Regular action ∧ RegularAll rest
end

theorem verbs_map (actions : List Written) : verbs actions = actions.map verb := by
  induction actions with
  | nil => rfl
  | cons action actions ih => rw [verbs, List.map_cons, ih]

theorem kinds_map (actions : List Written) : kinds actions = actions.map kind := by
  induction actions with
  | nil => rfl
  | cons action actions ih => rw [kinds, List.map_cons, ih]

theorem regularAll_iff {actions : List Written} : RegularAll actions ↔ ∀ action ∈ actions, Regular action := by
  induction actions with
  | nil => simp [RegularAll]
  | cons action actions ih => rw [RegularAll, ih, List.forall_mem_cons]

end Written

theorem entry_only (name : String) (names : List String) (fields : Entries) :
    entry? name (only names fields) = if name ∈ names then entry? name fields else none := by
  induction fields with
  | nil => simp [only, entry?]
  | cons field fields ih =>
    obtain ⟨key, value⟩ := field
    rw [only, List.filter_cons]
    by_cases here : Key.text name = key
    · subst here
      by_cases admitted : name ∈ names
      · simp [admitted, entry_cons]
      · rw [if_neg (by simpa using admitted)]
        exact ih.trans (by simp [admitted])
    · split
      · rw [entry_cons, if_neg here, entry_cons, if_neg here]
        exact ih
      · rw [entry_cons, if_neg here]
        exact ih

theorem entry_fixed {name : String} {names : List String} (foreign : name ∉ names) (fixed fields : Entries) :
    entry? name (fixed ++ only names fields) = entry? name fixed := by
  rw [entry_append, entry_only, if_neg foreign, Option.or_none]

theorem same_only {names : List String} {first second : Entries} (fields : Entries)
    (apart : ∀ name ∈ names, entry? name first = none ∧ entry? name second = none) :
    Same names (first ++ only names fields) (second ++ only names fields) := by
  intro name member
  rw [entry_append, entry_append, (apart name member).1, (apart name member).2]

theorem modernEntries_only (names : List String) (fields : Entries) : modernEntries (only names fields) = only names (modernEntries fields) := by
  induction fields with
  | nil => rfl
  | cons field fields ih =>
    obtain ⟨key, value⟩ := field
    rw [modernEntries, only, only, List.filter_cons, List.filter_cons]
    split
    · rw [modernEntries]
      exact congrArg _ ih
    · exact ih

theorem modern_either (first second : Value) : modern (either first second) = either (modern first) (modern second) := by
  rw [either, either, truthy_modern]
  split <;> rfl

theorem given_modern (name : String) (fields : Entries) : given name (modernEntries fields) = modern (given name fields) := by
  rw [given, given, entry_modern]
  cases entry? name fields <;> rfl

theorem modernText_verb {word : String} (verb : word ∈ reservedVerbs) {text : String} : modernText text = word ↔ text = word := by
  have plain : ∀ word ∈ reservedVerbs, word.toList ≠ [] ∧ word.toList.all Text.isWord = true ∧
      (constants.all fun entry => entry.2 != word.toList) = true ∧ modernText word = word := by
    decide
  obtain ⟨nonempty, whole, other, kept⟩ := plain word verb
  refine modernText_word ⟨nonempty, List.all_eq_true.mp whole⟩ (fun old known => ?_) kept
  exact absurd rfl (bne_iff_ne.mp (List.all_eq_true.mp other _ known))

namespace Written

mutual
theorem verb_current (action : Written) : modern action.verb = action.current.verb := by
  match action with
  | .loop fields body =>
    simp only [verb, current, modern, modernEntries, List.cons_append, List.nil_append, modernEntries_only, verbs_current body]
    rw [show modernText "loop" = "loop" by decide]
  | .conditional fields accepted refused =>
    simp only [verb, current, modern, modernEntries, List.cons_append, List.nil_append, modernEntries_only, verbs_current accepted,
      verbs_current refused]
    rw [show modernText "if" = "if" by decide]
  | .repetition fields children =>
    simp only [verb, current, modern, modernEntries, List.cons_append, List.nil_append, modernEntries_only, verbs_current children]
    rw [show modernText "repeat" = "repeat" by decide]
  | .clone fields target =>
    simp only [verb, current, modern, modernEntries, List.cons_append, List.nil_append, modernEntries_only]
    rw [show modernText "clone" = "clone" by decide]
  | .helper fields name => simp only [verb, current, modern, modernEntries, modernEntries_only]

theorem verbs_current (actions : List Written) : modernItems (verbs actions) = verbs (currents actions) := by
  match actions with
  | [] => rfl
  | action :: rest => rw [verbs, modernItems, currents, verbs, verb_current action, verbs_current rest]
end

mutual
theorem kind_current (action : Written) : modern action.kind = action.current.kind := by
  match action with
  | .loop fields body =>
    simp only [kind, current, modern, modernEntries, List.cons_append, List.nil_append, modernEntries_only, kinds_current body]
    rw [show modernText "loop" = "loop" by decide]
  | .conditional fields accepted refused =>
    simp only [kind, current, modern, modernEntries, List.cons_append, List.nil_append, modernEntries_only, kinds_current accepted,
      kinds_current refused]
    rw [show modernText "if" = "if" by decide]
  | .repetition fields children =>
    simp only [kind, current, modern, modernEntries, List.cons_append, List.nil_append, modernEntries_only, kinds_current children]
    rw [show modernText "repeat" = "repeat" by decide]
  | .clone fields target =>
    simp only [kind, current, modern, modernEntries, List.cons_append, List.nil_append, modernEntries_only]
    rw [show modernText "reference" = "reference" by decide]
  | .helper fields name =>
    simp only [kind, current, modern, modernEntries, List.cons_append, List.nil_append, modernEntries_only, modern_either, given_modern]
    rw [show modernText "helper" = "helper" by decide]

theorem kinds_current (actions : List Written) : modernItems (kinds actions) = kinds (currents actions) := by
  match actions with
  | [] => rfl
  | action :: rest => rw [kinds, modernItems, currents, kinds, kind_current action, kinds_current rest]
end

theorem callable_current {fields : Entries} {name : String} (callable : Callable fields name) :
    Callable (modernEntries fields) (modernText name) where
  named := fun empty => callable.named (modernText_empty.mp empty)
  ordinary := by
    intro member
    have kept : name = modernText name := (modernText_verb member).mp (Eq.refl (modernText name))
    exact callable.ordinary (kept ▸ member)
  params := by
    intro value found
    rw [entry_modern, Option.map_eq_some_iff] at found
    obtain ⟨older, found, rfl⟩ := found
    rw [isMap_modern, truthy_modern]
    exact callable.params older found

mutual
theorem regular_current {action : Written} (regular : action.Regular) : action.current.Regular := by
  match action with
  | .loop fields body | .repetition fields body => exact regularAll_current body regular
  | .conditional fields accepted refused =>
    exact ⟨regularAll_current accepted regular.1, regularAll_current refused regular.2⟩
  | .clone fields target =>
    refine ⟨fun empty => regular.1 (modernText_empty.mp empty), ?_⟩
    have shown := regular.2
    rw [entry_modern]
    cases found : entry? "visible" fields with
    | none => rfl
    | some value =>
      rw [found] at shown
      rw [Option.map_some, Option.getD_some, show value = .bool true from shown]
      rfl
  | .helper fields name => exact callable_current regular

theorem regularAll_current (actions : List Written) (regular : RegularAll actions) : RegularAll (currents actions) := by
  match actions with
  | [] => trivial
  | action :: rest => exact ⟨regular_current regular.1, regularAll_current rest regular.2⟩
end

end Written

end ProceduralScene.Normalize
