import ProceduralScene.Context
import Mathlib.Data.List.Nodup

/-!
Layers of names. A layer keeps each name once and in its place; shadowing a name and putting it back leaves the layer as
it was. Whatever way a stack of layers is read, a name means its binding in the innermost layer that has it.
-/

set_option autoImplicit false

namespace ProceduralScene

namespace Bindings

variable {name other : String} {value : Value} {bindings : Bindings}

/-- The names that are bound, in order. -/
def names (bindings : Bindings) : List String := bindings.map (·.1)

theorem get_cons (name key : String) (value : Value) (rest : Bindings) :
    get? name ((key, value) :: rest) = if name = key then some value else rest.get? name := by
  by_cases same : name = key
  · rw [get?, List.lookup_cons, beq_iff_eq.mpr same, if_pos same]
  · rw [get?, List.lookup_cons, beq_eq_false_iff_ne.mpr same, if_neg same]
    rfl

theorem put_cons (name key : String) (value old : Value) (rest : Bindings) :
    put name value ((key, old) :: rest) = if key = name then (key, value) :: rest else (key, old) :: put name value rest := by
  simp [put]

theorem mem_names_cons {key : String} {rest : Bindings} :
    name ∈ names ((key, value) :: rest) ↔ name = key ∨ name ∈ rest.names := List.mem_cons

theorem has_iff : bindings.has name = true ↔ name ∈ bindings.names := by
  simp [has, names]

theorem get_none : bindings.get? name = none ↔ name ∉ bindings.names := by
  induction bindings with
  | nil => simp [get?, names]
  | cons entry rest ih =>
    rw [get_cons, mem_names_cons]
    split <;> simp [*]

theorem isSome_get (name : String) (bindings : Bindings) : (bindings.get? name).isSome = bindings.has name := by
  rw [Bool.eq_iff_iff, has_iff, Option.isSome_iff_ne_none, ne_eq, get_none, not_not]

/-! ### One layer -/

theorem get_put (name other : String) (value : Value) (bindings : Bindings) :
    (bindings.put name value).get? other = if other = name then some value else bindings.get? other := by
  induction bindings with
  | nil => rw [put, get_cons]
  | cons entry rest ih =>
    rw [put_cons]
    by_cases here : entry.1 = name
    · rw [if_pos here, get_cons, get_cons, here]
      split <;> rfl
    · rw [if_neg here, get_cons, get_cons, ih]
      by_cases same : other = entry.1
      · rw [if_pos same, if_pos same, if_neg (same ▸ here)]
      · rw [if_neg same, if_neg same]

/-- A name that is bound keeps its place. -/
theorem names_put (bound : name ∈ bindings.names) (value : Value) : (bindings.put name value).names = bindings.names := by
  induction bindings with
  | nil => cases bound
  | cons entry rest ih =>
    rw [put_cons]
    by_cases here : entry.1 = name
    · rw [if_pos here]
      rfl
    · rw [if_neg here]
      exact congrArg (entry.1 :: ·) (ih ((mem_names_cons.mp bound).resolve_left fun same => here same.symm))

/-- A new name goes to the end. -/
theorem put_new (new : name ∉ bindings.names) (value : Value) : bindings.put name value = bindings ++ [(name, value)] := by
  induction bindings with
  | nil => rfl
  | cons entry rest ih =>
    obtain ⟨other, further⟩ := not_or.mp fun member => new (mem_names_cons.mpr member)
    rw [put_cons, if_neg fun same => other same.symm, ih further]
    rfl

theorem nodup_put (once : bindings.names.Nodup) : (bindings.put name value).names.Nodup := by
  by_cases bound : name ∈ bindings.names
  · rwa [names_put bound]
  · rw [put_new bound, names, List.map_append]
    exact once.append (List.nodup_singleton name) (List.disjoint_singleton.mpr bound)

theorem nodup_erase (once : bindings.names.Nodup) : (bindings.erase name).names.Nodup :=
  once.sublist (List.filter_sublist.map _)

theorem put_put (name : String) (first second : Value) (bindings : Bindings) :
    (bindings.put name first).put name second = bindings.put name second := by
  induction bindings with
  | nil => simp [put]
  | cons entry rest ih =>
    rw [put_cons, put_cons]
    split
    · rw [put_cons, if_pos ‹_›]
    · rw [put_cons, if_neg ‹_›, ih]

theorem put_get (bound : bindings.get? name = some value) : bindings.put name value = bindings := by
  induction bindings with
  | nil => cases bound
  | cons entry rest ih =>
    rw [get_cons] at bound
    rw [put_cons]
    by_cases here : entry.1 = name
    · rw [if_pos here.symm] at bound
      rw [if_pos here, ← Option.some.inj bound]
    · rw [if_neg fun same => here same.symm] at bound
      rw [if_neg here, ih bound]

theorem erase_new (new : name ∉ bindings.names) : bindings.erase name = bindings :=
  List.filter_eq_self.mpr fun _ member => bne_iff_ne.mpr fun same => new (same ▸ List.mem_map_of_mem member)

theorem get_erase (name : String) (bindings : Bindings) : (bindings.erase name).get? name = none := by
  rw [get_none]
  intro member
  obtain ⟨entry, kept, same⟩ := List.mem_map.mp member
  exact bne_iff_ne.mp (List.mem_filter.mp kept).2 same

/-- What a block that shadows a name changes in its layer, and how leaving the block changes it back. -/
def restored (shadow : ContextForest.Shadow) (bindings : Bindings) : Bindings :=
  match shadow.previous with
  | some value => bindings.put shadow.name value
  | none => bindings.erase shadow.name

theorem restored_put (name : String) (value : Value) (bindings : Bindings) :
    (bindings.put name value).restored ⟨name, bindings.get? name⟩ = bindings := by
  unfold restored
  cases bound : bindings.get? name with
  | some previous =>
    dsimp only
    rw [put_put, put_get bound]
  | none =>
    have new := get_none.mp bound
    dsimp only
    rw [put_new new, erase, List.filter_append, ← erase, erase_new new]
    simp

theorem get_restored (shadow : ContextForest.Shadow) (bindings : Bindings) :
    (bindings.restored shadow).get? shadow.name = shadow.previous := by
  unfold restored
  cases shadow.previous with
  | some value => exact (get_put _ _ value bindings).trans (if_pos rfl)
  | none => exact get_erase _ bindings

theorem nodup_restored {shadow : ContextForest.Shadow} (once : bindings.names.Nodup) :
    (bindings.restored shadow).names.Nodup := by
  unfold restored
  split
  · exact nodup_put once
  · exact nodup_erase once

/-! ### One layer over another -/

theorem overlay_cons (lower : Bindings) (entry : String × Value) (upper : Bindings) :
    overlay lower (entry :: upper) = overlay (lower.put entry.1 entry.2) upper := rfl

theorem get_overlay (name : String) {upper : Bindings} (once : upper.names.Nodup) : ∀ lower : Bindings,
    (overlay lower upper).get? name = (upper.get? name).or (lower.get? name) := by
  induction upper with
  | nil => exact fun _ => rfl
  | cons entry upper ih =>
    intro lower
    obtain ⟨new, once⟩ := List.nodup_cons.mp once
    rw [overlay_cons, ih once, get_put, get_cons]
    by_cases here : name = entry.1
    · rw [if_pos here, if_pos here, get_none.mpr (here ▸ new)]
      rfl
    · rw [if_neg here, if_neg here]

theorem nodup_overlay (upper : Bindings) : ∀ {lower : Bindings}, lower.names.Nodup → (overlay lower upper).names.Nodup := by
  induction upper with
  | nil => exact id
  | cons entry upper ih => exact fun once => ih (nodup_put once)

theorem overlay_apart {upper : Bindings} (once : upper.names.Nodup) : ∀ {lower : Bindings},
    (∀ name ∈ upper.names, name ∉ lower.names) → overlay lower upper = lower ++ upper := by
  induction upper with
  | nil => simp [overlay]
  | cons entry upper ih =>
    intro lower apart
    obtain ⟨new, once⟩ := List.nodup_cons.mp once
    rw [overlay_cons, put_new (apart entry.1 List.mem_cons_self), ih once, List.append_assoc]
    · rfl
    · intro name member inside
      rw [names, List.map_append, List.mem_append] at inside
      rcases inside with inside | last
      · exact apart name (List.mem_cons_of_mem _ member) inside
      · exact new (List.mem_singleton.mp last ▸ member)

/-- A copy of a layer is the layer. -/
theorem overlay_nil (once : bindings.names.Nodup) : overlay [] bindings = bindings :=
  overlay_apart once (fun _ _ => List.not_mem_nil)

end Bindings

/-! ### All layers -/

namespace Context

open Bindings

theorem has_iff {name : String} {ctx : Context} : ctx.has name = true ↔ ∃ layer ∈ ctx, name ∈ layer.names := by
  simp [has, Bindings.has_iff]

theorem isSome_get (name : String) (ctx : Context) : (ctx.get? name).isSome = ctx.has name := by
  induction ctx with
  | nil => rfl
  | cons layer outer ih =>
    have further : (get? name outer).isSome = outer.any (·.has name) := ih
    rw [get?, has, List.any_cons, ← further, ← Bindings.isSome_get]
    cases layer.get? name <;> rfl

/-- A name means its binding in the innermost layer that has it. -/
theorem get_innermost (name : String) (ctx : Context) :
    ctx.get? name = (ctx.find? (·.has name)).bind (·.get? name) := by
  induction ctx with
  | nil => rfl
  | cons layer outer ih =>
    rw [get?, List.find?_cons, ih, ← Bindings.isSome_get]
    cases found : layer.get? name <;> simp [found]

theorem nodup_flatten (ctx : Context) : ctx.flatten.names.Nodup := by
  induction ctx with
  | nil => exact List.nodup_nil
  | cons layer outer ih => exact nodup_overlay layer ih

theorem get_flatten (name : String) {ctx : Context} (once : ∀ layer ∈ ctx, layer.names.Nodup) :
    ctx.flatten.get? name = ctx.get? name := by
  induction ctx with
  | nil => rfl
  | cons layer outer ih =>
    rw [flatten, get_overlay name (once layer List.mem_cons_self),
      ih fun other member => once other (List.mem_cons_of_mem layer member), get?]
    cases layer.get? name <;> rfl

/-- All ways to read the layers agree: a name means its binding in the innermost layer that has it, and the names that
are listed, each once, are those that have a meaning. -/
structure Agrees (ctx : Context) : Prop where
  lookup : ∀ name, ctx.get? name = (ctx.find? (·.has name)).bind (·.get? name)
  membership : ∀ name, ctx.has name = (ctx.get? name).isSome
  flattened : ∀ name, ctx.flatten.get? name = ctx.get? name
  listed : ∀ name, name ∈ ctx.flatten.names ↔ ctx.has name = true
  once : ctx.flatten.names.Nodup
  counted : ∀ names : List String, names.Nodup → (∀ name, name ∈ names ↔ ctx.has name = true) →
    ctx.flatten.length = names.length

theorem agrees {ctx : Context} (once : ∀ layer ∈ ctx, layer.names.Nodup) : ctx.Agrees := by
  have listed : ∀ name, name ∈ ctx.flatten.names ↔ ctx.has name = true := by
    intro name
    rw [← isSome_get, ← get_flatten name once, Bindings.isSome_get, Bindings.has_iff]
  refine ⟨fun name => get_innermost name ctx, fun name => (isSome_get name ctx).symm, fun name => get_flatten name once,
    listed, nodup_flatten ctx, fun names distinct same => ?_⟩
  have permuted : ctx.flatten.names.Perm names :=
    (List.perm_ext_iff_of_nodup (nodup_flatten ctx) distinct).mpr fun name => (listed name).trans (same name).symm
  rw [← permuted.length_eq, Bindings.names, List.length_map]

end Context

end ProceduralScene
