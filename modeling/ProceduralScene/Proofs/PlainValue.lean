import ProceduralScene.Context
import ProceduralScene.Expression.Library

/-!
Plain values hold no scene node and no marker of a reference. A document and everything that is computed from it by
expressions is plain, so nodes reach the parameters of a factory only through nested helpers and stored results.
-/

set_option autoImplicit false

namespace ProceduralScene

namespace Value

mutual
/-- The nodes that a value holds. -/
def nodes : Value → List NodeId
  | .node id => [id]
  | .list items => nodesOfItems items
  | .map entries => nodesOfEntries entries
  | _ => []

def nodesOfItems : List Value → List NodeId
  | [] => []
  | x :: rest => nodes x ++ nodesOfItems rest

def nodesOfEntries : List (Key × Value) → List NodeId
  | [] => []
  | (_, x) :: rest => nodes x ++ nodesOfEntries rest
end

mutual
/-- Whether a value holds neither a node nor a marker. -/
def isPlain : Value → Bool
  | .node _ | .marker _ => false
  | .list items => itemsPlain items
  | .map entries => entriesPlain entries
  | _ => true

def itemsPlain : List Value → Bool
  | [] => true
  | x :: rest => isPlain x && itemsPlain rest

def entriesPlain : List (Key × Value) → Bool
  | [] => true
  | (_, x) :: rest => isPlain x && entriesPlain rest
end

theorem itemsPlain_iff (items : List Value) : itemsPlain items = true ↔ ∀ x ∈ items, x.isPlain = true := by
  induction items with
  | nil => simp [itemsPlain]
  | cons x rest ih => simp [itemsPlain, ih]

theorem entriesPlain_iff (entries : List (Key × Value)) :
    entriesPlain entries = true ↔ ∀ entry ∈ entries, entry.2.isPlain = true := by
  induction entries with
  | nil => simp [entriesPlain]
  | cons entry rest ih => simp [entriesPlain, ih]

theorem mem_nodesOfItems {id : NodeId} (items : List Value) :
    id ∈ nodesOfItems items ↔ ∃ x ∈ items, id ∈ x.nodes := by
  induction items with
  | nil => simp [nodesOfItems]
  | cons x rest ih => simp [nodesOfItems, ih]

theorem mem_nodesOfEntries {id : NodeId} (entries : List (Key × Value)) :
    id ∈ nodesOfEntries entries ↔ ∃ entry ∈ entries, id ∈ entry.2.nodes := by
  induction entries with
  | nil => simp [nodesOfEntries]
  | cons entry rest ih => simp [nodesOfEntries, ih]

mutual
theorem plain_nodes : ∀ value : Value, value.isPlain = true → value.nodes = []
  | .null, _ | .bool _, _ | .int _, _ | .float _, _ | .complex _ _, _ | .text _, _ => rfl
  | .list items, plain => plain_nodes_items items plain
  | .map entries, plain => plain_nodes_entries entries plain
  | .node _, plain | .marker _, plain => nomatch plain

theorem plain_nodes_items : ∀ items : List Value, itemsPlain items = true → nodesOfItems items = []
  | [], _ => rfl
  | x :: rest, plain => by
    rw [itemsPlain, Bool.and_eq_true] at plain
    rw [nodesOfItems, plain_nodes x plain.1, plain_nodes_items rest plain.2, List.append_nil]

theorem plain_nodes_entries : ∀ entries : List (Key × Value), entriesPlain entries = true → nodesOfEntries entries = []
  | [], _ => rfl
  | (_, x) :: rest, plain => by
    rw [entriesPlain, Bool.and_eq_true] at plain
    rw [nodesOfEntries, plain_nodes x plain.1, plain_nodes_entries rest plain.2, List.append_nil]
end

theorem plain_list {items : List Value} : (Value.list items).isPlain = true ↔ ∀ x ∈ items, x.isPlain = true := by
  rw [isPlain, itemsPlain_iff]

theorem plain_map {entries : List (Key × Value)} :
    (Value.map entries).isPlain = true ↔ ∀ entry ∈ entries, entry.2.isPlain = true := by
  rw [isPlain, entriesPlain_iff]

theorem lookup_mem {α : Type} [BEq α] [LawfulBEq α] {β : Type} {key : α} {value : β} {entries : List (α × β)}
    (found : entries.lookup key = some value) : (key, value) ∈ entries := by
  induction entries with
  | nil => cases found
  | cons entry rest ih =>
    obtain ⟨name, other⟩ := entry
    rw [List.lookup_cons] at found
    split at found
    · rename_i same
      rw [beq_iff_eq] at same
      simp_all
    · exact List.mem_cons_of_mem _ (ih found)

theorem mem_putEntry {key : Key} {value : Value} {entry : Key × Value} {entries : List (Key × Value)}
    (member : entry ∈ putEntry key value entries) : entry = (key, value) ∨ entry ∈ entries := by
  induction entries with
  | nil => exact Or.inl (List.mem_singleton.mp member)
  | cons first rest ih =>
    obtain ⟨found, old⟩ := first
    rw [putEntry] at member
    split at member
    · rename_i same
      rcases List.mem_cons.mp member with here | later
      · exact Or.inl (here.trans (by rw [eq_of_beq same]))
      · exact Or.inr (List.mem_cons_of_mem _ later)
    · rcases List.mem_cons.mp member with here | later
      · exact Or.inr (List.mem_cons.mpr (Or.inl here))
      · exact (ih later).imp_right (List.mem_cons_of_mem _)

theorem plain_entry {name : String} {entries : List (Key × Value)} {value : Value}
    (plain : (Value.map entries).isPlain = true) (found : Value.entry? name entries = some value) :
    value.isPlain = true := plain_map.mp plain _ (lookup_mem found)

theorem plain_entry_getD {name : String} {entries : List (Key × Value)} {missing : Value}
    (plain : (Value.map entries).isPlain = true) (other : missing.isPlain = true) :
    ((Value.entry? name entries).getD missing).isPlain = true := by
  cases found : Value.entry? name entries with
  | none => exact other
  | some value => exact plain_entry plain found

end Value

/-- All values of some bindings are plain. -/
def Bindings.Plain (bindings : Bindings) : Prop := ∀ entry ∈ bindings, entry.2.isPlain = true

namespace Bindings

theorem plain_nil : Plain [] := fun _ member => nomatch member

theorem plain_get {bindings : Bindings} (plain : bindings.Plain) {name : String} {value : Value}
    (found : bindings.get? name = some value) : value.isPlain = true := plain _ (Value.lookup_mem found)

theorem mem_put {name : String} {value : Value} {entry : String × Value} {bindings : Bindings}
    (member : entry ∈ bindings.put name value) : entry = (name, value) ∨ entry ∈ bindings := by
  induction bindings with
  | nil => exact Or.inl (List.mem_singleton.mp member)
  | cons first rest ih =>
    obtain ⟨key, old⟩ := first
    rw [put] at member
    split at member
    · rename_i same
      rw [beq_iff_eq] at same
      rcases List.mem_cons.mp member with here | later
      · exact Or.inl (same ▸ here)
      · exact Or.inr (List.mem_cons_of_mem _ later)
    · rcases List.mem_cons.mp member with here | later
      · exact Or.inr (here ▸ List.mem_cons_self)
      · exact (ih later).imp_right (List.mem_cons_of_mem _)

theorem plain_put {bindings : Bindings} (plain : bindings.Plain) (name : String) {value : Value}
    (good : value.isPlain = true) : (bindings.put name value).Plain := by
  intro entry member
  rcases mem_put member with same | before
  · exact same ▸ good
  · exact plain entry before

theorem plain_overlay {lower upper : Bindings} (plainLower : lower.Plain) (plainUpper : upper.Plain) :
    (overlay lower upper).Plain := by
  unfold overlay
  induction upper generalizing lower with
  | nil => exact plainLower
  | cons entry rest ih =>
    exact ih (plain_put plainLower _ (plainUpper entry (by simp))) fun other member => plainUpper other (by simp [member])

theorem plain_toMap {bindings : Bindings} (plain : bindings.Plain) : bindings.toMap.isPlain = true := by
  refine Value.plain_map.mpr fun entry member => ?_
  obtain ⟨before, listed, same⟩ := List.mem_map.mp member
  exact same ▸ plain before listed

theorem plain_append {first second : Bindings} (plainFirst : first.Plain) (plainSecond : second.Plain) :
    (first ++ second).Plain := by
  intro entry member
  exact (List.mem_append.mp member).elim (plainFirst entry) (plainSecond entry)

end Bindings

/-- All layers of a context are plain. -/
def Context.Plain (ctx : Context) : Prop := ∀ layer ∈ ctx, Bindings.Plain layer

namespace Context

theorem plain_child {ctx : Context} (plain : ctx.Plain) {bindings : Bindings} (good : bindings.Plain) :
    (ctx.child bindings).Plain := by
  intro layer member
  rcases List.mem_cons.mp member with same | outer
  · exact same ▸ Bindings.plain_overlay Bindings.plain_nil good
  · exact plain layer outer

theorem plain_set {ctx : Context} (plain : ctx.Plain) (name : String) {value : Value} (good : value.isPlain = true) :
    (ctx.set name value).Plain := by
  cases ctx with
  | nil =>
    intro layer member
    rw [List.mem_singleton.mp member]
    exact Bindings.plain_put Bindings.plain_nil name good
  | cons first outer =>
    intro layer member
    rcases List.mem_cons.mp member with same | inside
    · exact same ▸ Bindings.plain_put (plain first (by simp)) name good
    · exact plain layer (by simp [inside])

theorem plain_flatten {ctx : Context} (plain : ctx.Plain) : ctx.flatten.Plain := by
  induction ctx with
  | nil => exact Bindings.plain_nil
  | cons layer outer ih =>
    exact Bindings.plain_overlay (ih fun other member => plain other (by simp [member])) (plain layer (by simp))

theorem plain_freeze {ctx : Context} (plain : ctx.Plain) : ctx.freeze.Plain := fun _ member =>
  List.mem_singleton.mp member ▸ plain_flatten plain

theorem plain_layersAbove {ctx : Context} (plain : ctx.Plain) (root : Context) :
    ∀ layer ∈ ctx.layersAbove root, Bindings.Plain layer := by
  intro layer member
  exact plain layer (List.mem_of_mem_take (List.mem_reverse.mp member))

theorem plain_stack {root : Context} (plain : root.Plain) {layers : List Bindings}
    (good : ∀ layer ∈ layers, Bindings.Plain layer) : (stack root layers).Plain := by
  unfold stack
  induction layers generalizing root with
  | nil => exact plain
  | cons layer rest ih =>
    exact ih (plain_child plain (good layer (by simp))) fun other member => good other (by simp [member])

theorem plain_parameterDefault {spec : Value} (plain : spec.isPlain = true) :
    (parameterDefault spec).isPlain = true := by
  unfold parameterDefault
  split
  · exact Value.plain_entry_getD plain rfl
  · exact plain

theorem plain_bindMissing {bindings : Bindings} (plain : bindings.Plain) {extra : Bindings} (good : extra.Plain) :
    (extra.foldl bindMissing bindings).Plain := by
  induction extra generalizing bindings with
  | nil => exact plain
  | cons entry rest ih =>
    refine ih ?_ fun other member => good other (by simp [member])
    unfold bindMissing
    split
    · exact plain
    · refine Bindings.plain_append plain fun other member => ?_
      exact good other (by simp [List.mem_singleton.mp member])

theorem plain_bindDeclared {overrides : Bindings} (plainOverrides : overrides.Plain) {bindings : Bindings}
    (plain : bindings.Plain) {entry : String × Value} (good : entry.2.isPlain = true) :
    (bindDeclared overrides bindings entry).Plain := by
  have preset := plain_parameterDefault good
  unfold bindDeclared
  split
  · exact Bindings.plain_put plain _ preset
  · exact Bindings.plain_put plain _ preset
  · exact Bindings.plain_put plain _ (Bindings.plain_get plainOverrides ‹_›)

theorem plain_declared {overrides : Bindings} (plainOverrides : overrides.Plain) {specs : Bindings} (good : specs.Plain) :
    ∀ bindings : Bindings, bindings.Plain → (specs.foldl (bindDeclared overrides) bindings).Plain := by
  induction specs with
  | nil => exact fun bindings plain => plain
  | cons entry rest ih =>
    intro bindings plain
    refine ih (fun other member => good other (by simp [member])) _ ?_
    exact plain_bindDeclared plainOverrides plain (good entry (by simp))

theorem plain_globals {parameters constants overrides : Bindings} (plainParameters : parameters.Plain)
    (plainConstants : constants.Plain) (plainOverrides : overrides.Plain) :
    (globals parameters constants overrides).Plain := by
  have declared := plain_declared plainOverrides plainParameters [] Bindings.plain_nil
  intro layer member
  rw [List.mem_singleton.mp member]
  exact plain_bindMissing (plain_bindMissing declared plainOverrides) plainConstants

end Context

end ProceduralScene
