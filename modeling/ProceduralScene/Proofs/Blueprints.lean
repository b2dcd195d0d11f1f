import ProceduralScene.Proofs.Parameters

/-!
What a walk promises about its blueprints. Each knows how it is made again, and the nodes that factories made for it
lie in an interval of the store of its own, apart from the tree and from the intervals of all others.
-/

set_option autoImplicit false

namespace ProceduralScene

open Store

/-- The nodes from `lo` on and before `hi`. -/
def Range (lo hi : Nat) (id : NodeId) : Prop := lo ≤ id ∧ id < hi

/-- The nodes of an interval are linked to each other only, and none of them was disposed. -/
structure Apart (store : Store) (lo hi : Nat) : Prop where
  ordered : lo ≤ hi
  enclosed : Enclosed store (Range lo hi)
  pristine : ∀ id, Range lo hi id → store.PristineAt id

namespace BlueprintContent

/-- Where the nodes are that a factory made for a blueprint, or that a factory still has to be given. -/
def Holds (store : Store) (lo hi : Nat) : BlueprintContent → Prop
  | .call helper params none => helper = "group" → Factory.ChildrenAmong (Range lo hi) store params
  | .call _ _ (some result) | .shape _ _ result => result.Among (Range lo hi) store
  | _ => True

end BlueprintContent

namespace Blueprint

mutual
/-- The blueprint stands in a scope, and so do its children in it; each knows the action and the bindings that it was
made from. -/
def Nested (names : List String) (scope : String) : Blueprint → Prop
  | ⟨path, name, _, _, _, _, _, _, children, context, layers, source, index, _⟩ =>
    path = joinPath scope name ∧ source.isTame names = true ∧ source.makesOne index = true ∧
      context.Plain ∧ (∀ layer ∈ layers, Bindings.Plain layer) ∧ AllNested names path children

def AllNested (names : List String) (scope : String) : List Blueprint → Prop
  | [] => True
  | first :: rest => Nested names scope first ∧ AllNested names scope rest
end

mutual
/-- The nodes of a blueprint lie in an interval of the store, those of its children one after the other. Between them
there may be nodes that no blueprint is made of. -/
def Laid (store : Store) : Blueprint → Nat → Nat → Prop
  | ⟨_, _, content, _, _, _, _, _, children, _, _, _, _, _⟩, lo, hi =>
    match content with
    | .group => AllLaid store children lo hi
    | content => Apart store lo hi ∧ content.Holds store lo hi

def AllLaid (store : Store) : List Blueprint → Nat → Nat → Prop
  | [], lo, hi => Apart store lo hi
  | first :: rest, lo, hi =>
    Apart store lo hi ∧ ∃ start mid, lo ≤ start ∧ Laid store first start mid ∧ AllLaid store rest mid hi
end

theorem nested_iff (names : List String) (scope : String) (b : Blueprint) :
    b.Nested names scope ↔ b.path = joinPath scope b.name ∧ b.source.isTame names = true ∧
      b.source.makesOne b.instanceIndex = true ∧ b.context.Plain ∧ (∀ layer ∈ b.scope, Bindings.Plain layer) ∧
      AllNested names b.path b.children := by
  cases b
  rw [Nested]

theorem laid_group {store : Store} {b : Blueprint} (group : b.content = .group) (lo hi : Nat) :
    b.Laid store lo hi ↔ AllLaid store b.children lo hi := by
  cases b
  cases group
  rw [Laid]

theorem laid_leaf {store : Store} {b : Blueprint} (leaf : b.content ≠ .group) (lo hi : Nat) :
    b.Laid store lo hi ↔ Apart store lo hi ∧ b.content.Holds store lo hi := by
  cases b with
  | mk path name content =>
    cases content with
    | group => exact absurd rfl leaf
    | _ => rw [Laid]; simp

section

variable {store store' : Store}

theorem allLaid_apart {list : List Blueprint} {lo hi : Nat} (laid : AllLaid store list lo hi) : Apart store lo hi := by
  cases list with
  | nil => rwa [AllLaid] at laid
  | cons first rest =>
    rw [AllLaid] at laid
    exact laid.1

theorem laid_apart {b : Blueprint} {lo hi : Nat} (laid : b.Laid store lo hi) : Apart store lo hi := by
  by_cases group : b.content = .group
  · exact allLaid_apart ((laid_group group lo hi).mp laid)
  · exact ((laid_leaf group lo hi).mp laid).1

theorem apart_mono {lo hi : Nat} (apart : Apart store lo hi)
    (enclosed : ∀ lo' hi', lo ≤ lo' → hi' ≤ hi → Enclosed store (Range lo' hi') → Enclosed store' (Range lo' hi'))
    (same : ∀ id, Range lo hi id → store.PristineAt id → store'.PristineAt id) : Apart store' lo hi :=
  ⟨apart.ordered, enclosed lo hi (Nat.le_refl _) (Nat.le_refl _) apart.enclosed,
    fun id inside => same id inside (apart.pristine id inside)⟩

theorem apart_append {lo mid hi : Nat} (lower : Apart store lo mid) (upper : Apart store mid hi) : Apart store lo hi := by
  have split : ∀ id, Range lo hi id ↔ Range lo mid id ∨ Range mid hi id := by
    intro id
    constructor
    · intro inside
      rcases Nat.lt_or_ge id mid with below | above
      · exact Or.inl ⟨inside.1, below⟩
      · exact Or.inr ⟨above, inside.2⟩
    · rintro (inside | inside)
      · exact ⟨inside.1, inside.2.trans_le upper.ordered⟩
      · exact ⟨lower.ordered.trans inside.1, inside.2⟩
  refine ⟨lower.ordered.trans upper.ordered, fun child parent link => ?_, fun id inside => ?_⟩
  · rw [split, split]
    exact enclosed_or lower.enclosed upper.enclosed child parent link
  · exact ((split id).mp inside).elim (lower.pristine id) (upper.pristine id)

theorem apart_empty (store : Store) (lo : Nat) : Apart store lo lo where
  ordered := Nat.le_refl _
  enclosed _ _ _ := iff_of_false (fun inside => Nat.not_lt_of_ge inside.1 inside.2)
    fun inside => Nat.not_lt_of_ge inside.1 inside.2
  pristine _ inside := absurd inside.2 (Nat.not_lt_of_ge inside.1)

theorem holds_mono {content : BlueprintContent} {lo hi : Nat} (size : store.size ≤ store'.size)
    (holds : content.Holds store lo hi) : content.Holds store' lo hi := by
  unfold BlueprintContent.Holds at holds ⊢
  split
  · rename_i helper params
    exact fun group entries same => among_mono (fun _ inside => inside) size (holds group entries same)
  · exact among_mono (fun _ inside => inside) size holds
  · exact among_mono (fun _ inside => inside) size holds
  · trivial

mutual
/-- Blueprints keep their intervals while the nodes in these keep their links and stay undisposed. -/
theorem laid_mono (size : store.size ≤ store'.size) : ∀ (b : Blueprint) {lo hi : Nat},
    (∀ lo' hi', lo ≤ lo' → hi' ≤ hi → Enclosed store (Range lo' hi') → Enclosed store' (Range lo' hi')) →
    (∀ id, Range lo hi id → store.PristineAt id → store'.PristineAt id) → b.Laid store lo hi → b.Laid store' lo hi
  | ⟨_, _, content, _, _, _, _, _, children, _, _, _, _, _⟩, lo, hi, enclosed, pristine, laid => by
    unfold Laid at laid ⊢
    split at laid
    · exact allLaid_mono size children enclosed pristine laid
    · exact ⟨apart_mono laid.1 enclosed pristine, holds_mono size laid.2⟩

theorem allLaid_mono (size : store.size ≤ store'.size) : ∀ (list : List Blueprint) {lo hi : Nat},
    (∀ lo' hi', lo ≤ lo' → hi' ≤ hi → Enclosed store (Range lo' hi') → Enclosed store' (Range lo' hi')) →
    (∀ id, Range lo hi id → store.PristineAt id → store'.PristineAt id) →
    AllLaid store list lo hi → AllLaid store' list lo hi
  | [], lo, hi, enclosed, pristine, laid => by
    rw [AllLaid] at laid ⊢
    exact apart_mono laid enclosed pristine
  | first :: rest, lo, hi, enclosed, pristine, laid => by
    rw [AllLaid] at laid ⊢
    obtain ⟨apart, start, mid, first', here, later⟩ := laid
    have lower := first'.trans (laid_apart here).ordered
    have upper := (allLaid_apart later).ordered
    refine ⟨apart_mono apart enclosed pristine, start, mid, first', laid_mono size first
      (fun lo' hi' low high => enclosed lo' hi' (first'.trans low) (high.trans upper))
      (fun id inside => pristine id ⟨first'.trans inside.1, inside.2.trans_le upper⟩) here, ?_⟩
    exact allLaid_mono size rest (fun lo' hi' low high => enclosed lo' hi' (lower.trans low) high)
      (fun id inside => pristine id ⟨lower.trans inside.1, inside.2⟩) later
end

/-- A lower bound may be chosen further down. -/
theorem allLaid_lower {list : List Blueprint} {lower lo hi : Nat} (apart : Apart store lower hi) (low : lower ≤ lo)
    (laid : AllLaid store list lo hi) : AllLaid store list lower hi := by
  cases list with
  | nil => rwa [AllLaid]
  | cons first rest =>
    rw [AllLaid] at *
    obtain ⟨_, start, mid, later, rest⟩ := laid
    exact ⟨apart, start, mid, low.trans later, rest⟩

/-- An interval that lies apart may be added at the end. -/
theorem allLaid_upper : ∀ (list : List Blueprint) {lo hi upper : Nat}, Apart store hi upper → AllLaid store list lo hi →
    AllLaid store list lo upper
  | [], lo, hi, upper, more, laid => by
    rw [AllLaid] at *
    exact apart_append laid more
  | first :: rest, lo, hi, upper, more, laid => by
    rw [AllLaid] at *
    obtain ⟨apart, start, mid, low, here, later⟩ := laid
    exact ⟨apart_append apart more, start, mid, low, here, allLaid_upper rest more later⟩

theorem allLaid_append : ∀ (first rest : List Blueprint) {lo mid hi : Nat}, AllLaid store first lo mid →
    AllLaid store rest mid hi → AllLaid store (first ++ rest) lo hi
  | [], rest, lo, mid, hi, here, later => by
    rw [AllLaid] at here
    exact allLaid_lower (apart_append here (allLaid_apart later)) here.ordered later
  | b :: first, rest, lo, mid, hi, here, later => by
    rw [AllLaid] at here
    obtain ⟨apart, start, cut, low, one, others⟩ := here
    rw [List.cons_append, AllLaid]
    exact ⟨apart_append apart (allLaid_apart later), start, cut, low, one, allLaid_append first rest others later⟩

theorem allLaid_single {b : Blueprint} {lo hi : Nat} (laid : b.Laid store lo hi) : AllLaid store [b] lo hi := by
  rw [AllLaid]
  exact ⟨laid_apart laid, lo, hi, Nat.le_refl _, laid, by rw [AllLaid]; exact apart_empty store hi⟩

theorem allNested_append {names : List String} {scope : String} : ∀ (first rest : List Blueprint),
    AllNested names scope first → AllNested names scope rest → AllNested names scope (first ++ rest)
  | [], _, _, later => later
  | b :: first, rest, here, later => by
    rw [AllNested] at here
    rw [List.cons_append, AllNested]
    exact ⟨here.1, allNested_append first rest here.2 later⟩

end

end Blueprint

end ProceduralScene
