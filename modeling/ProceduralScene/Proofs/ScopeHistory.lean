import ProceduralScene.Proofs.LayeredNames
import Mathlib.Logic.Function.Basic

/-!
Contexts that share layers, over any history of writes and of blocks that shadow a name. A context is an overlay: what is
written to it is seen by the contexts that stand on it and by no other, and a block that is left leaves nothing behind.
-/

set_option autoImplicit false

namespace ProceduralScene

open Bindings

namespace ContextForest

variable {forest : ContextForest} {id other : Nat}

def size (forest : ContextForest) : Nat := forest.cells.size

/-- Every context stands on an older one, and a layer has a name once. -/
structure Formed (forest : ContextForest) : Prop where
  older : ∀ {id parent : Nat}, forest.parentOf id = some parent → parent < id
  once : ∀ id, (forest.bindingsOf id).names.Nodup

/-! ### The chain of a context -/

theorem parentOf_beyond (beyond : forest.size ≤ id) : forest.parentOf id = none := by
  simp [parentOf, Array.getElem?_eq_none beyond]

theorem chainFrom_step (formed : forest.Formed) (fuel : Nat) : ∀ {id : Nat}, id ≤ fuel →
    forest.chainFrom fuel id = id :: (forest.parentOf id).elim [] (forest.chainFrom fuel) := by
  induction fuel with
  | zero =>
    intro id bound
    have first : forest.parentOf id = none :=
      Option.eq_none_iff_forall_ne_some.mpr fun parent link => absurd (formed.older link) (by omega)
    rw [chainFrom, first]
    rfl
  | succ fuel ih =>
    intro id bound
    rw [chainFrom]
    cases link : forest.parentOf id with
    | none => rfl
    | some parent =>
      have older := formed.older link
      -- the parent needs no more than the smaller bound, so the larger one gives the same
      have same : forest.chainFrom (fuel + 1) parent = forest.chainFrom fuel parent := by
        rw [ih (by omega), chainFrom]
        cases further : forest.parentOf parent <;> rfl
      exact congrArg (id :: ·) same.symm

/-- The chain of a context is the context and the chain of the one that it stands on. -/
theorem chain_eq (formed : forest.Formed) (id : Nat) :
    forest.chain id = id :: (forest.parentOf id).elim [] forest.chain := by
  by_cases bound : id ≤ forest.size
  · exact chainFrom_step formed forest.size bound
  · have single := parentOf_beyond (Nat.le_of_not_le bound)
    unfold chain
    cases forest.cells.size <;> simp [chainFrom, single]

theorem le_of_mem_chain (formed : forest.Formed) (id : Nat) : ∀ {other : Nat}, other ∈ forest.chain id → other ≤ id := by
  induction id using Nat.strongRecOn with
  | _ id ih =>
    intro other member
    rw [chain_eq formed] at member
    rcases List.mem_cons.mp member with rfl | above
    · exact Nat.le_refl _
    · cases link : forest.parentOf id with
      | none =>
        rw [link] at above
        cases above
      | some parent =>
        rw [link] at above
        have older := formed.older link
        exact Nat.le_trans (ih parent older above) (Nat.le_of_lt older)

theorem chain_same {forest' : ContextForest} (formed : forest.Formed) (formed' : forest'.Formed) (id : Nat)
    (same : ∀ other ≤ id, forest'.parentOf other = forest.parentOf other) : forest'.chain id = forest.chain id := by
  induction id using Nat.strongRecOn with
  | _ id ih =>
    rw [chain_eq formed, chain_eq formed', same id (Nat.le_refl id)]
    cases link : forest.parentOf id with
    | none => rfl
    | some parent =>
      have older := formed.older link
      exact congrArg (id :: ·) (ih parent older fun other le => same other (Nat.le_trans le (Nat.le_of_lt older)))

/-- What a context shows depends on the layers of its chain alone. -/
theorem view_same {forest' : ContextForest} (formed : forest.Formed) (formed' : forest'.Formed) {id : Nat}
    (parents : ∀ other ≤ id, forest'.parentOf other = forest.parentOf other)
    (layers : ∀ other ∈ forest.chain id, forest'.bindingsOf other = forest.bindingsOf other) :
    forest'.view id = forest.view id := by
  rw [view, view, chain_same formed formed' id parents]
  exact List.map_congr_left layers

theorem agrees_view (formed : forest.Formed) (id : Nat) : (forest.view id).Agrees := by
  refine Context.agrees fun layer member => ?_
  obtain ⟨other, _, rfl⟩ := List.mem_map.mp member
  exact formed.once other

/-! ### New contexts -/

section

variable (bindings : Bindings) (parent : Option Nat)

theorem size_create : (forest.create bindings parent).2.size = forest.size + 1 := Array.size_push _

theorem parentOf_create : (forest.create bindings parent).2.parentOf id =
    if id = forest.size then parent else forest.parentOf id := by
  by_cases new : id = forest.cells.size <;> simp [parentOf, create, Array.getElem?_push, size, new]

theorem bindingsOf_create : (forest.create bindings parent).2.bindingsOf id =
    if id = forest.size then overlay [] bindings else forest.bindingsOf id := by
  by_cases new : id = forest.cells.size <;> simp [bindingsOf, create, Array.getElem?_push, size, new]

variable {bindings parent}

theorem formed_create (formed : forest.Formed) (stands : ∀ below ∈ parent, below < forest.size) :
    (forest.create bindings parent).2.Formed where
  older := by
    intro id below link
    rw [parentOf_create] at link
    split at link
    · rename_i new
      exact new ▸ stands below link
    · exact formed.older link
  once id := by
    rw [bindingsOf_create]
    split
    · exact nodup_overlay bindings List.nodup_nil
    · exact formed.once id

theorem view_create (formed : forest.Formed) (stands : ∀ below ∈ parent, below < forest.size) (old : id < forest.size) :
    (forest.create bindings parent).2.view id = forest.view id := by
  refine view_same formed (formed_create formed stands) (fun other le => ?_) fun other member => ?_
  · rw [parentOf_create, if_neg (by omega)]
  · have le := le_of_mem_chain formed id member
    rw [bindingsOf_create, if_neg (by omega)]

/-- A new context shows its own layer over what the one that it stands on shows. -/
theorem view_created (formed : forest.Formed) (stands : ∀ below ∈ parent, below < forest.size) :
    (forest.create bindings parent).2.view forest.size = overlay [] bindings :: parent.elim [] forest.view := by
  have link : (forest.create bindings parent).2.parentOf forest.size = parent := by rw [parentOf_create, if_pos rfl]
  rw [view, chain_eq (formed_create formed stands), link, List.map_cons, bindingsOf_create, if_pos rfl]
  cases parent with
  | none => rfl
  | some below => exact congrArg (_ :: ·) (view_create formed stands (stands below rfl))

end

/-! ### Writes -/

section

variable (id) (change : Bindings → Bindings)

theorem size_update : (forest.update id change).size = forest.size := Array.size_modify

theorem parentOf_update : (forest.update id change).parentOf other = forest.parentOf other := by
  simp only [parentOf, update, Array.getElem?_modify]
  split
  · cases forest.cells[other]? <;> rfl
  · rfl

theorem bindingsOf_update (made : id < forest.size) : (forest.update id change).bindingsOf other =
    if other = id then change (forest.bindingsOf id) else forest.bindingsOf other := by
  simp only [bindingsOf, update, Array.getElem?_modify]
  by_cases same : other = id
  · subst same
    rw [if_pos rfl, if_pos rfl, Array.getElem?_eq_getElem made]
    rfl
  · rw [if_neg (Ne.symm same), if_neg same]

variable {id change}

theorem formed_update (formed : forest.Formed) (made : id < forest.size)
    (keeps : (change (forest.bindingsOf id)).names.Nodup) : (forest.update id change).Formed where
  older link := formed.older ((parentOf_update id change).symm.trans link)
  once other := by
    rw [bindingsOf_update id change made]
    split
    · exact keeps
    · exact formed.once other

/-- A write is seen by the context and by those that stand on it. -/
theorem view_update (formed : forest.Formed) (made : id < forest.size)
    (keeps : (change (forest.bindingsOf id)).names.Nodup) (apart : id ∉ forest.chain other) :
    (forest.update id change).view other = forest.view other := by
  refine view_same formed (formed_update formed made keeps) (fun _ _ => parentOf_update id change) fun layer member => ?_
  rw [bindingsOf_update id change made, if_neg]
  rintro rfl
  exact apart member

theorem restore_eq (id : Nat) (shadow : Shadow) (forest : ContextForest) :
    forest.restore id shadow = forest.update id (·.restored shadow) := by
  unfold restore restored
  cases shadow.previous <;> rfl

end

end ContextForest

/-! ### Histories -/

/-- What may happen to contexts: a new one, one that stands on another, a frozen copy, a write, and the entry into and
the exit from a block that shadows a name. -/
inductive ScopeChange where
  | root (bindings : Bindings)
  | child (id : Nat) (bindings : Bindings)
  | freeze (id : Nat)
  | set (id : Nat) (name : String) (value : Value)
  | enter (id : Nat) (name : String) (value : Value)
  | leave (id : Nat)

/-- The context whose layer is written. -/
def ScopeChange.target : ScopeChange → Option Nat
  | .set id _ _ | .enter id _ _ | .leave id => some id
  | _ => none

/-- Whether a name is bound for good, and not for a block only. -/
def ScopeChange.sets : ScopeChange → Bool
  | .set _ _ _ => true
  | _ => false

/-- Contexts, and for each of them the blocks that it is in, the innermost first. -/
structure Scopes where
  forest : ContextForest
  opened : Nat → List ContextForest.Shadow

namespace Scopes

open ContextForest

def start : Scopes := ⟨ContextForest.empty, fun _ => []⟩

/-- Leaves the innermost block that a context is in. -/
def left (s : Scopes) (id : Nat) : Option Scopes :=
  match s.opened id with
  | [] => none
  | shadow :: outer => some ⟨s.forest.restore id shadow, Function.update s.opened id outer⟩

/-- One change; nothing when the context does not exist or is in no block that could be left. -/
def step (s : Scopes) : ScopeChange → Option Scopes
  | .root bindings => some { s with forest := (s.forest.create bindings none).2 }
  | .child id bindings =>
    if id < s.forest.size then some { s with forest := (s.forest.create bindings (some id)).2 } else none
  | .freeze id =>
    if id < s.forest.size then some { s with forest := (s.forest.create (s.forest.view id).flatten none).2 } else none
  | .set id name value => if id < s.forest.size then some { s with forest := s.forest.set id name value } else none
  | .enter id name value =>
    if id < s.forest.size then
      let (shadow, forest) := s.forest.bind id name value
      some ⟨forest, Function.update s.opened id (shadow :: s.opened id)⟩
    else none
  | .leave id => if id < s.forest.size then s.left id else none

def run (s : Scopes) : List ScopeChange → Option Scopes
  | [] => some s
  | change :: rest => (s.step change).bind (·.run rest)

/-- The scopes as if no block had been entered so far. -/
def fresh (s : Scopes) : Scopes := { s with opened := fun _ => [] }

/-- The scopes inside further blocks that were entered before. -/
def onto (outer : Nat → List Shadow) (s : Scopes) : Scopes := { s with opened := fun id => s.opened id ++ outer id }

variable {s s' : Scopes} {change : ScopeChange}

/-! ### Steps -/

/-- A layer as it is when all blocks are left. -/
def unwound (blocks : List Shadow) (layer : Bindings) : Bindings :=
  blocks.foldl (fun layer shadow => layer.restored shadow) layer

/-- A step makes a new context, or it writes one layer. Unless a name is set for good, the layer stays as it will be when
all blocks are left. -/
inductive Stepped (s : Scopes) (change : ScopeChange) : Scopes → Prop
  | created {bindings : Bindings} {parent : Option Nat} (stands : ∀ below ∈ parent, below < s.forest.size)
      (untargeted : change.target = none) : Stepped s change { s with forest := (s.forest.create bindings parent).2 }
  | written {id : Nat} {write : Bindings → Bindings} {blocks : List Shadow} (made : id < s.forest.size)
      (target : change.target = some id) (keeps : ∀ layer : Bindings, layer.names.Nodup → (write layer).names.Nodup)
      (passing : change.sets = false →
        unwound blocks (write (s.forest.bindingsOf id)) = unwound (s.opened id) (s.forest.bindingsOf id)) :
      Stepped s change ⟨s.forest.update id write, Function.update s.opened id blocks⟩

theorem guarded {id : Nat} {found : Option Scopes} (guard : (if id < s.forest.size then found else none) = some s') :
    id < s.forest.size ∧ found = some s' := by
  split at guard
  · exact ⟨‹_›, guard⟩
  · cases guard

theorem step_cases (step : s.step change = some s') : Stepped s change s' := by
  cases change with
  | root bindings =>
    cases step
    exact .created (by simp) rfl
  | child id bindings =>
    obtain ⟨made, ⟨⟩⟩ := guarded step
    exact .created (by simpa using made) rfl
  | freeze id =>
    obtain ⟨made, ⟨⟩⟩ := guarded step
    exact .created (by simp) rfl
  | set id name value =>
    obtain ⟨made, ⟨⟩⟩ := guarded step
    have kept : s.opened = Function.update s.opened id (s.opened id) := (Function.update_eq_self id _).symm
    rw [kept]
    exact .written made rfl (fun _ => nodup_put) nofun
  | enter id name value =>
    obtain ⟨made, ⟨⟩⟩ := guarded step
    exact .written made rfl (fun _ => nodup_put) fun _ => congrArg (unwound (s.opened id)) (restored_put name value _)
  | leave id =>
    obtain ⟨made, left⟩ := guarded step
    unfold Scopes.left at left
    cases blocks : s.opened id with
    | nil => simp [blocks] at left
    | cons shadow outer =>
      rw [blocks] at left
      cases left
      rw [restore_eq]
      exact .written made rfl (fun _ => nodup_restored) fun _ => by rw [blocks]; rfl

theorem formed_step (formed : s.forest.Formed) (step : s.step change = some s') : s'.forest.Formed := by
  cases step_cases step with
  | created stands _ => exact formed_create formed stands
  | written made _ keeps _ => exact formed_update formed made (keeps _ (formed.once _))

theorem size_step (step : s.step change = some s') : s.forest.size ≤ s'.forest.size := by
  cases step_cases step with
  | created _ _ => rw [size_create]; exact Nat.le_succ _
  | written _ _ _ _ => exact Nat.le_of_eq (size_update _ _).symm

/-- A step is seen by the context that it writes and by those that stand on it. -/
theorem view_step (formed : s.forest.Formed) (step : s.step change = some s') {other : Nat} (old : other < s.forest.size)
    (apart : ∀ id ∈ change.target, id ∉ s.forest.chain other) : s'.forest.view other = s.forest.view other := by
  cases step_cases step with
  | created stands _ => exact view_create formed stands old
  | written made target keeps _ => exact view_update formed made (keeps _ (formed.once _)) (apart _ target)

theorem parent_step (step : s.step change = some s') {other : Nat} (old : other < s.forest.size) :
    s'.forest.parentOf other = s.forest.parentOf other := by
  cases step_cases step with
  | created stands _ => rw [parentOf_create, if_neg (by omega)]
  | written made _ _ _ => exact parentOf_update _ _

/-- While names are written by blocks only, every layer stays as it will be when all blocks are left. -/
theorem unwound_step (step : s.step change = some s') (passing : change.sets = false) {other : Nat}
    (old : other < s.forest.size) : unwound (s'.opened other) (s'.forest.bindingsOf other) =
      unwound (s.opened other) (s.forest.bindingsOf other) := by
  cases step_cases step with
  | created stands _ => rw [bindingsOf_create, if_neg (by omega)]
  | @written id write blocks made _ _ stays =>
    dsimp only
    rw [bindingsOf_update id write made]
    by_cases same : other = id
    · subst same
      rw [if_pos rfl, Function.update_self, stays passing]
    · rw [if_neg same, Function.update_of_ne same]

/-- Blocks that were entered before do not matter for what happens in later ones. -/
theorem step_onto (outer : Nat → List Shadow) (step : s.step change = some s') :
    (s.onto outer).step change = some (s'.onto outer) := by
  have update : ∀ (id : Nat) (blocks : List Shadow), Function.update (s.onto outer).opened id (blocks ++ outer id) =
      fun other => Function.update s.opened id blocks other ++ outer other := by
    intro id blocks
    funext other
    by_cases same : other = id
    · subst same
      rw [Function.update_self, Function.update_self]
    · rw [Function.update_of_ne same, Function.update_of_ne same]
      rfl
  cases change with
  | root bindings =>
    cases step
    rfl
  | child id bindings =>
    obtain ⟨made, ⟨⟩⟩ := guarded step
    exact if_pos made
  | freeze id =>
    obtain ⟨made, ⟨⟩⟩ := guarded step
    exact if_pos made
  | set id name value =>
    obtain ⟨made, ⟨⟩⟩ := guarded step
    exact if_pos made
  | enter id name value =>
    obtain ⟨made, ⟨⟩⟩ := guarded step
    refine (if_pos made).trans (congrArg some ?_)
    exact congrArg (Scopes.mk _) (update id (⟨name, (s.forest.bindingsOf id).get? name⟩ :: s.opened id))
  | leave id =>
    obtain ⟨made, left⟩ := guarded step
    refine (if_pos made).trans ?_
    unfold Scopes.left at left ⊢
    cases blocks : s.opened id with
    | nil => simp [blocks] at left
    | cons shadow inner =>
      have further : (s.onto outer).opened id = shadow :: (inner ++ outer id) := by simp [onto, blocks]
      rw [blocks] at left
      cases left
      rw [further]
      exact congrArg some (congrArg (Scopes.mk _) (update id inner))

/-! ### Runs -/

theorem run_cons {first : ScopeChange} {rest : List ScopeChange} (run : s.run (first :: rest) = some s') :
    ∃ middle, s.step first = some middle ∧ middle.run rest = some s' := Option.bind_eq_some_iff.mp run

theorem formed_run {history : List ScopeChange} : ∀ {s : Scopes}, s.forest.Formed → s.run history = some s' →
    s'.forest.Formed := by
  induction history with
  | nil =>
    rintro s formed ⟨⟩
    exact formed
  | cons change rest ih =>
    intro s formed run
    obtain ⟨middle, step, further⟩ := run_cons run
    exact ih (formed_step formed step) further

theorem size_run {history : List ScopeChange} : ∀ {s : Scopes}, s.run history = some s' → s.forest.size ≤ s'.forest.size := by
  induction history with
  | nil =>
    rintro s ⟨⟩
    exact Nat.le_refl _
  | cons change rest ih =>
    intro s run
    obtain ⟨middle, step, further⟩ := run_cons run
    exact Nat.le_trans (size_step step) (ih further)

theorem run_onto (outer : Nat → List Shadow) {history : List ScopeChange} : ∀ {s : Scopes}, s.run history = some s' →
    (s.onto outer).run history = some (s'.onto outer) := by
  induction history with
  | nil =>
    rintro s ⟨⟩
    rfl
  | cons change rest ih =>
    intro s run
    obtain ⟨middle, step, further⟩ := run_cons run
    exact Option.bind_eq_some_iff.mpr ⟨_, step_onto outer step, ih further⟩

/-- What no change of a history writes, neither itself nor below, shows the same afterwards. -/
theorem view_run {history : List ScopeChange} : ∀ {s : Scopes}, s.forest.Formed → s.run history = some s' →
    ∀ other < s.forest.size, (∀ change ∈ history, ∀ id ∈ change.target, id ∉ s.forest.chain other) →
      s'.forest.view other = s.forest.view other := by
  induction history with
  | nil =>
    rintro s formed ⟨⟩ other old apart
    rfl
  | cons change rest ih =>
    intro s formed run other old apart
    obtain ⟨middle, step, further⟩ := run_cons run
    have formed' := formed_step formed step
    have chain : middle.forest.chain other = s.forest.chain other :=
      chain_same formed formed' other fun below le => parent_step step (Nat.lt_of_le_of_lt le old)
    rw [ih formed' further other (Nat.lt_of_lt_of_le old (size_step step))
      fun later member id target => chain ▸ apart later (List.mem_cons_of_mem _ member) id target]
    exact view_step formed step old (apart change List.mem_cons_self)

theorem unwound_run {history : List ScopeChange} (passing : ∀ change ∈ history, change.sets = false) : ∀ {s : Scopes},
    s.run history = some s' → ∀ other < s.forest.size, unwound (s'.opened other) (s'.forest.bindingsOf other) =
      unwound (s.opened other) (s.forest.bindingsOf other) := by
  induction history with
  | nil =>
    rintro s ⟨⟩ other old
    rfl
  | cons change rest ih =>
    intro s run other old
    obtain ⟨middle, step, further⟩ := run_cons run
    rw [ih (fun later member => passing later (List.mem_cons_of_mem _ member)) further other
      (Nat.lt_of_lt_of_le old (size_step step))]
    exact unwound_step step (passing change List.mem_cons_self) old

theorem parent_run {history : List ScopeChange} : ∀ {s : Scopes}, s.run history = some s' → ∀ other < s.forest.size,
    s'.forest.parentOf other = s.forest.parentOf other := by
  induction history with
  | nil =>
    rintro s ⟨⟩ other old
    rfl
  | cons change rest ih =>
    intro s run other old
    obtain ⟨middle, step, further⟩ := run_cons run
    rw [ih further other (Nat.lt_of_lt_of_le old (size_step step))]
    exact parent_step step old

theorem formed_start : start.forest.Formed where
  older link := by simp [start, ContextForest.empty, parentOf] at link
  once id := by simp [start, ContextForest.empty, bindingsOf, names]

/-! ### Overlays -/

/-- What makes contexts overlays. -/
structure Overlaid (s : Scopes) : Prop where
  /-- A context shows its own layer over what the one that it stands on shows. -/
  stacked : ∀ id, s.forest.view id = s.forest.bindingsOf id :: (s.forest.parentOf id).elim [] s.forest.view
  /-- Whatever way it is read, a name means its binding in the innermost layer that has it. -/
  agrees : ∀ id, (s.forest.view id).Agrees
  /-- A write binds the name in the layer of its context, and a block does so when it is entered. -/
  binds : ∀ {id name value s'}, s.step (.set id name value) = some s' ∨ s.step (.enter id name value) = some s' →
    ∀ other, (s'.forest.bindingsOf id).get? other = if other = name then some value else (s.forest.bindingsOf id).get? other
  /-- No change is seen by a context that does not stand on the one that is written. -/
  confined : ∀ {change s'}, s.step change = some s' → ∀ other < s.forest.size,
    (∀ id ∈ change.target, id ∉ s.forest.chain other) → s'.forest.view other = s.forest.view other
  /-- In particular not by those that the written one stands on. -/
  ancestors : ∀ {change s' id}, s.step change = some s' → change.target = some id →
    ∀ other ∈ s.forest.chain id, other ≠ id → s'.forest.view other = s.forest.view other
  /-- A frozen copy shows what was there when it was made, until it is written itself. -/
  frozen : ∀ {id later s₁ s₂}, s.step (.freeze id) = some s₁ → s₁.run later = some s₂ →
    (∀ change ∈ later, change.target ≠ some s.forest.size) → s₂.forest.view s.forest.size = (s.forest.view id).freeze
  /-- A block can be left when all blocks of its context inside it were, and then its layer has the name as it was on
  entry, whatever was written meanwhile. -/
  restores : ∀ {id name value inside s₁ s₂}, s.step (.enter id name value) = some s₁ →
    s₁.fresh.run inside = some s₂ → s₂.opened id = [] →
    ∃ s₃ s₄, s₁.run inside = some s₃ ∧ s₃.step (.leave id) = some s₄ ∧ s₄.opened id = s.opened id ∧
      (s₄.forest.bindingsOf id).get? name = (s.forest.bindingsOf id).get? name
  /-- Blocks in which names are bound by blocks only leave nothing behind: every context shows the same, in the same
  order. -/
  undone : ∀ {block s'}, (∀ change ∈ block, change.sets = false) → s.fresh.run block = some s' →
    (∀ id, s'.opened id = []) → s.run block = some { s' with opened := s.opened } ∧
      ∀ id < s.forest.size, s'.forest.view id = s.forest.view id

theorem view_stacked (formed : s.forest.Formed) (id : Nat) :
    s.forest.view id = s.forest.bindingsOf id :: (s.forest.parentOf id).elim [] s.forest.view := by
  rw [view, chain_eq formed]
  cases s.forest.parentOf id <;> rfl

theorem binds_step {id : Nat} {name : String} {value : Value}
    (step : s.step (.set id name value) = some s' ∨ s.step (.enter id name value) = some s') (other : String) :
    (s'.forest.bindingsOf id).get? other = if other = name then some value else (s.forest.bindingsOf id).get? other := by
  obtain ⟨made, same⟩ : id < s.forest.size ∧ s'.forest = s.forest.update id (·.put name value) := by
    rcases step with step | step
    · obtain ⟨made, ⟨⟩⟩ := guarded step
      exact ⟨made, rfl⟩
    · obtain ⟨made, ⟨⟩⟩ := guarded step
      exact ⟨made, rfl⟩
  rw [same, bindingsOf_update _ _ made, if_pos rfl, get_put]

theorem view_frozen (formed : s.forest.Formed) {id : Nat} {later : List ScopeChange} {s₁ s₂ : Scopes}
    (step : s.step (.freeze id) = some s₁) (run : s₁.run later = some s₂)
    (apart : ∀ change ∈ later, change.target ≠ some s.forest.size) :
    s₂.forest.view s.forest.size = (s.forest.view id).freeze := by
  have formed₁ := formed_step formed step
  obtain ⟨made, ⟨⟩⟩ := guarded step
  have created := @view_created _ (s.forest.view id).flatten none formed (by simp)
  have alone : (s.forest.create (s.forest.view id).flatten none).2.chain s.forest.size = [s.forest.size] := by
    rw [chain_eq formed₁, parentOf_create, if_pos rfl]
    rfl
  rw [view_run formed₁ run s.forest.size (by rw [size_create]; exact Nat.lt_succ_self _), created,
    overlay_nil (Context.nodup_flatten _)]
  · rfl
  · intro change member other target inside
    rw [alone] at inside
    exact apart change member (List.mem_singleton.mp inside ▸ target)

theorem opened_enter {id : Nat} {name : String} {value : Value} (step : s.step (.enter id name value) = some s') :
    id < s'.forest.size ∧ s'.opened id = ⟨name, (s.forest.bindingsOf id).get? name⟩ :: s.opened id := by
  obtain ⟨made, ⟨⟩⟩ := guarded step
  exact ⟨Nat.lt_of_lt_of_eq made (size_update id _).symm, Function.update_self id _ _⟩

theorem step_leave {id : Nat} (made : id < s.forest.size) {shadow : Shadow} {outer : List Shadow}
    (blocks : s.opened id = shadow :: outer) : ∃ s', s.step (.leave id) = some s' ∧ s'.opened id = outer ∧
      s'.forest.bindingsOf id = (s.forest.bindingsOf id).restored shadow := by
  refine ⟨⟨s.forest.restore id shadow, Function.update s.opened id outer⟩, (if_pos made).trans ?_,
    Function.update_self id outer s.opened, ?_⟩
  · rw [Scopes.left, blocks]
  · rw [restore_eq, bindingsOf_update _ _ made, if_pos rfl]

theorem run_fresh {block : List ScopeChange} (run : s.fresh.run block = some s') :
    s.run block = some (s'.onto s.opened) := run_onto s.opened run

theorem restores_run {id : Nat} {name : String} {value : Value} {inside : List ScopeChange} {s₁ s₂ : Scopes}
    (step : s.step (.enter id name value) = some s₁) (run : s₁.fresh.run inside = some s₂) (closed : s₂.opened id = []) :
    ∃ s₃ s₄, s₁.run inside = some s₃ ∧ s₃.step (.leave id) = some s₄ ∧ s₄.opened id = s.opened id ∧
      (s₄.forest.bindingsOf id).get? name = (s.forest.bindingsOf id).get? name := by
  obtain ⟨made, blocks⟩ := opened_enter step
  have still : (s₂.onto s₁.opened).opened id = s₁.opened id := by
    show s₂.opened id ++ s₁.opened id = s₁.opened id
    rw [closed, List.nil_append]
  obtain ⟨s₄, leave, outer, layer⟩ := step_leave (Nat.lt_of_lt_of_le made (size_run (run_fresh run))) (still.trans blocks)
  refine ⟨_, s₄, run_fresh run, leave, outer, ?_⟩
  rw [layer]
  exact get_restored ⟨name, (s.forest.bindingsOf id).get? name⟩ _

theorem undone_run (formed : s.forest.Formed) {block : List ScopeChange} (passing : ∀ change ∈ block, change.sets = false)
    (run : s.fresh.run block = some s') (closed : ∀ id, s'.opened id = []) :
    s.run block = some { s' with opened := s.opened } ∧ ∀ id < s.forest.size, s'.forest.view id = s.forest.view id := by
  refine ⟨(run_fresh run).trans (congrArg some ?_), fun id made => ?_⟩
  · exact congrArg (Scopes.mk s'.forest) (funext fun id => by rw [closed, List.nil_append])
  · have formed' : s'.forest.Formed := formed_run (s := s.fresh) formed run
    refine view_same formed formed' (fun other le => parent_run run other (Nat.lt_of_le_of_lt le made)) fun other member => ?_
    have layer := unwound_run passing run other (Nat.lt_of_le_of_lt (le_of_mem_chain formed id member) made)
    rw [closed] at layer
    exact layer

theorem target_made (step : s.step change = some s') {id : Nat} (target : change.target = some id) : id < s.forest.size := by
  cases step_cases step with
  | created _ untargeted => rw [untargeted] at target; cases target
  | written made found _ _ => exact Option.some.inj (found.symm.trans target) ▸ made

/-- Whatever was written and whatever blocks were entered and left before, contexts are overlays. -/
theorem scopes_overlay {history : List ScopeChange} {s : Scopes} (reached : start.run history = some s) : s.Overlaid := by
  have formed := formed_run formed_start reached
  refine ⟨view_stacked formed, agrees_view formed, binds_step, view_step formed, ?_, view_frozen formed, restores_run,
    undone_run formed⟩
  intro change s' id step target other above apart
  have le := le_of_mem_chain formed id above
  have made := target_made step target
  refine view_step formed step (by omega) fun found same below => ?_
  -- the contexts of a chain are not younger than the one that it belongs to
  have := le_of_mem_chain formed other below
  rw [Option.some.inj (target.symm.trans same)] at le apart
  omega

namespace Sample

/-- A context, one that stands on it and a frozen copy; then a name of the first is shadowed in both, and one is set. -/
def history : List ScopeChange :=
  [.root [("i", .text "outer"), ("k", .int 1)], .child 0 [("n", .int 2)], .freeze 1, .enter 1 "i" (.int 3),
    .enter 0 "j" (.int 4), .set 1 "n" (.int 5)]

def scopes : Scopes := (start.run history).getD start

def after : Scopes := (scopes.run [.leave 1, .leave 0]).getD start

end Sample

/-- Inside the blocks the names are shadowed, and behind them only what was set is left. -/
theorem scopes_overlay_blocks : start.run Sample.history = some Sample.scopes ∧
    Sample.scopes.run [.leave 1, .leave 0] = some Sample.after ∧
    (Sample.scopes.forest.view 1).flatten = [("i", .int 3), ("k", .int 1), ("j", .int 4), ("n", .int 5)] ∧
    (Sample.after.forest.view 1).flatten = [("i", .text "outer"), ("k", .int 1), ("n", .int 5)] ∧
    (Sample.after.forest.view 2).flatten = [("i", .text "outer"), ("k", .int 1), ("n", .int 2)] ∧ Sample.scopes.Overlaid :=
  ⟨rfl, rfl, rfl, rfl, rfl, @scopes_overlay Sample.history _ rfl⟩

end Scopes

end ProceduralScene
