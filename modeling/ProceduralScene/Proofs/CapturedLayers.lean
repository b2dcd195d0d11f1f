import ProceduralScene.Proofs.ScopeHistory

/-!
Captured layers. The layers of a context above a root are captured while the walk is in it; laid over a root again they
show what the context showed, whatever happened to its layers since, and over another root they shadow the names of that.
-/

set_option autoImplicit false

namespace ProceduralScene

open Bindings

namespace Context

/-- Layers that were captured lie over the context, the last of them innermost. -/
theorem stack_eq {layers : List Bindings} (once : ∀ layer ∈ layers, layer.names.Nodup) : ∀ ctx : Context,
    Context.stack ctx layers = layers.reverse ++ ctx := by
  induction layers with
  | nil => exact fun _ => rfl
  | cons layer layers ih =>
    intro ctx
    rw [stack, List.foldl_cons, ← stack, ih fun other member => once other (List.mem_cons_of_mem layer member), child,
      overlay_nil (once layer List.mem_cons_self), List.reverse_cons, List.append_assoc]
    rfl

theorem get_append (name : String) (inner outer : Context) :
    get? name (inner ++ outer) = (get? name inner).or (get? name outer) := by
  induction inner with
  | nil => rfl
  | cons layer inner ih =>
    rw [List.cons_append, get?, get?, ih]
    cases layer.get? name <;> rfl

end Context

namespace ContextForest

variable {forest : ContextForest} {c root : Nat}

/-- Lays captured layers over a context, each of them in a new context. -/
def stack (root : Nat) (layers : List Bindings) (forest : ContextForest) : Nat × ContextForest :=
  layers.foldl (fun made layer => made.2.create layer (some made.1)) (root, forest)

/-- What the captured layers show over a context. -/
def replayed (root : Nat) (layers : List Bindings) (forest : ContextForest) : Context :=
  (forest.stack root layers).2.view (forest.stack root layers).1

theorem replayed_eq {layers : List Bindings} (once : ∀ layer ∈ layers, layer.names.Nodup) :
    ∀ {forest : ContextForest} {root : Nat}, forest.Formed → root < forest.size →
      forest.replayed root layers = layers.reverse ++ forest.view root := by
  induction layers with
  | nil => exact fun _ _ => rfl
  | cons layer layers ih =>
    intro forest root formed made
    have stands : ∀ below ∈ some root, below < forest.size := by simpa using made
    have created := @view_created forest layer (some root) formed stands
    have further := @ih (fun other member => once other (List.mem_cons_of_mem layer member)) (forest.create layer (some root)).2
      forest.size (formed_create formed stands) (by rw [size_create]; exact Nat.lt_succ_self _)
    rw [overlay_nil (once layer List.mem_cons_self)] at created
    rw [List.reverse_cons, List.append_assoc]
    exact further.trans (congrArg (layers.reverse ++ ·) created)

/-! ### The layers above a root -/

/-- The contexts of a chain down to the root, the root excluded. -/
def above (forest : ContextForest) (c root : Nat) : List Nat := (forest.chain c).takeWhile (· != root)

theorem chain_split (formed : forest.Formed) (c : Nat) (stands : root ∈ forest.chain c) :
    forest.chain c = forest.above c root ++ forest.chain root := by
  induction c using Nat.strongRecOn with
  | _ c ih =>
    by_cases same : c = root
    · subst same
      rw [above, chain_eq formed c]
      simp
    · have different : (c != root) = true := bne_iff_ne.mpr same
      cases link : forest.parentOf c with
      | none =>
        rw [chain_eq formed, link] at stands
        exact absurd (List.mem_singleton.mp stands).symm same
      | some parent =>
        have chain : forest.chain c = c :: forest.chain parent := by
          rw [chain_eq formed c, link]
          rfl
        rw [chain] at stands
        have further := ih parent (formed.older link) ((List.mem_cons.mp stands).resolve_left fun equal => same equal.symm)
        rw [above, chain, List.takeWhile_cons, if_pos different, List.cons_append]
        exact congrArg (c :: ·) further

/-- A chain leads from younger contexts to older ones. -/
theorem chain_descends (formed : forest.Formed) (id : Nat) : (forest.chain id).Pairwise (· > ·) := by
  induction id using Nat.strongRecOn with
  | _ id ih =>
    rw [chain_eq formed]
    cases link : forest.parentOf id with
    | none => exact List.pairwise_singleton _ id
    | some parent =>
      have older := formed.older link
      refine List.pairwise_cons.mpr ⟨fun other member => ?_, ih parent older⟩
      exact Nat.lt_of_le_of_lt (le_of_mem_chain formed parent member) older

/-- The root does not stand on what stands above it. -/
theorem not_mem_chain_above (formed : forest.Formed) (stands : root ∈ forest.chain c) {id : Nat}
    (member : id ∈ forest.above c root) : id ∉ forest.chain root := by
  have descends := chain_descends formed c
  rw [chain_split formed c stands] at descends
  exact fun below => Nat.lt_irrefl id ((List.pairwise_append.mp descends).2.2 id member id below)

theorem layersAbove_eq (c root : Nat) : forest.layersAbove c root = ((forest.above c root).map forest.bindingsOf).reverse := rfl

theorem view_split (formed : forest.Formed) (stands : root ∈ forest.chain c) :
    forest.view c = (forest.layersAbove c root).reverse ++ forest.view root := by
  rw [view, chain_split formed c stands, List.map_append, layersAbove_eq, List.reverse_reverse]
  rfl

theorem once_layersAbove (formed : forest.Formed) : ∀ layer ∈ forest.layersAbove c root, layer.names.Nodup := by
  intro layer member
  obtain ⟨id, _, rfl⟩ := List.mem_map.mp (List.mem_reverse.mp member)
  exact formed.once id

end ContextForest

namespace Scopes

open ContextForest

/-- Layers that were captured in a state, and laid over a root there or in any later state. -/
structure Replays (s : Scopes) (c root : Nat) : Prop where
  /-- Over the root they show what the context shows, in the same order. -/
  same : (s.forest.replayed root (s.forest.layersAbove c root)).flatten = (s.forest.view c).flatten
  /-- Over any context, now or later, a name means its binding in the innermost captured layer that has it, and what it
  means in that context when there is none. -/
  shows : ∀ {later s'}, s.run later = some s' → ∀ base < s'.forest.size, ∀ name,
    (s'.forest.replayed base (s.forest.layersAbove c root)).flatten.get? name =
      (((s.forest.layersAbove c root).reverse.find? (·.has name)).bind (·.get? name)).or ((s'.forest.view base).get? name)
  /-- What happens to the contexts that were captured, and to any others outside the chain of the root, changes nothing. -/
  kept : ∀ {later s'}, s.run later = some s' →
    (∀ change ∈ later, ∀ id ∈ change.target, id ∈ s.forest.above c root ∨ id ∉ s.forest.chain root) →
    s'.forest.replayed root (s.forest.layersAbove c root) = s.forest.replayed root (s.forest.layersAbove c root)
  /-- Contexts as plain stacks of layers are captured and laid over a root alike. -/
  counted : (s.forest.view c).layersAbove (s.forest.view root) = s.forest.layersAbove c root ∧
    ∀ base < s.forest.size, Context.stack (s.forest.view base) (s.forest.layersAbove c root) =
      s.forest.replayed base (s.forest.layersAbove c root)

/-- The layers above a root are captured for good, whatever histories come before and behind. -/
theorem captured_replays {history : List ScopeChange} {s : Scopes} (reached : start.run history = some s) {c root : Nat}
    (made : c < s.forest.size) (stands : root ∈ s.forest.chain c) : s.Replays c root := by
  have formed := formed_run formed_start reached
  have once := @once_layersAbove s.forest c root formed
  have rootMade : root < s.forest.size := Nat.lt_of_le_of_lt (le_of_mem_chain formed c stands) made
  have split := view_split formed stands
  refine ⟨?_, ?_, ?_, ?_, ?_⟩
  · rw [replayed_eq once formed rootMade, ← split]
  · intro later s' run base baseMade name
    have formed' := formed_run formed run
    have layers : ∀ layer ∈ (s.forest.layersAbove c root).reverse ++ s'.forest.view base, layer.names.Nodup := by
      intro layer member
      rcases List.mem_append.mp member with captured | below
      · exact once layer (List.mem_reverse.mp captured)
      · obtain ⟨id, _, rfl⟩ := List.mem_map.mp below
        exact formed'.once id
    rw [replayed_eq once formed' baseMade, Context.get_flatten name layers, Context.get_append, Context.get_innermost]
  · intro later s' run apart
    have formed' := formed_run formed run
    have outside : ∀ change ∈ later, ∀ id ∈ change.target, id ∉ s.forest.chain root := by
      intro change member id target
      rcases apart change member id target with captured | outside
      · exact not_mem_chain_above formed stands captured
      · exact outside
    rw [replayed_eq once formed' (Nat.lt_of_lt_of_le rootMade (size_run run)), replayed_eq once formed rootMade,
      view_run formed run root rootMade outside]
  · rw [Context.layersAbove, split, List.length_append, Nat.add_sub_cancel, List.take_left, List.reverse_reverse]
  · intro base baseMade
    rw [Context.stack_eq once, replayed_eq once formed baseMade]

namespace Sample

/-- A layer over the globals, and one over it in which a loop binds its variable. -/
def looping : List ScopeChange :=
  [.root [("n", .int 1), ("w", .int 1)], .child 0 [("w", .int 2)], .child 1 [], .enter 2 "i" (.int 3)]

def loop : Scopes := (start.run looping).getD start

/-- The loop ends, the layer below is written, and there are new globals. -/
def later : List ScopeChange := [.leave 2, .set 1 "w" (.int 9), .root [("i", .int 0), ("n", .int 7)]]

def afterLoop : Scopes := (loop.run later).getD start

end Sample

/-- The layers of a loop that was left are laid over other globals. -/
theorem captured_replays_loop : start.run Sample.looping = some Sample.loop ∧ 2 < Sample.loop.forest.size ∧
    0 ∈ Sample.loop.forest.chain 2 ∧ Sample.loop.run Sample.later = some Sample.afterLoop ∧
    Sample.loop.forest.layersAbove 2 0 = [[("w", .int 2)], [("i", .int 3)]] ∧
    (Sample.afterLoop.forest.replayed 3 [[("w", .int 2)], [("i", .int 3)]]).flatten =
      [("i", .int 3), ("n", .int 7), ("w", .int 2)] ∧ Sample.loop.Replays 2 0 :=
  ⟨rfl, by decide, by decide, rfl, rfl, rfl, @captured_replays Sample.looping Sample.loop rfl 2 0 (by decide) (by decide)⟩

end Scopes

end ProceduralScene
