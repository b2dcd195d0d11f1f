import ProceduralScene.Proofs.Gathering

/-!
When blueprints can be placed together: their results exist and are whole, none of them is in the tree or registered,
and no two blueprints share a node of them. Filling a container from some of the blueprints keeps it so for all.
-/

set_option autoImplicit false

namespace ProceduralScene

open Store

/-- The nodes that some blueprints take over from helpers. -/
def Blueprint.results (list : List Blueprint) : List NodeId := list.flatMap Blueprint.given

theorem Blueprint.results_append (list rest : List Blueprint) :
    Blueprint.results (list ++ rest) = Blueprint.results list ++ Blueprint.results rest := by
  rw [results, results, results, List.flatMap_append]

open Blueprint (results results_append)

/-- Neither of two nodes stands below the other one. -/
def Store.Apart (store : Store) (x y : NodeId) : Prop := ¬ Below store x y ∧ ¬ Below store y x

/-- The blueprints can be placed together. -/
structure Placeable (s : Session) (list : List Blueprint) : Prop extends Stock s (results list) where
  apart : list.Pairwise fun b c => ∀ x ∈ b.given, ∀ y ∈ c.given,
    s.scene.store.Usable x ∨ s.scene.store.Usable y → s.scene.store.Apart x y
  entries : ∀ e ∈ s.registry.entries, e.node < s.scene.store.size ∧ ¬ s.scene.store.Used (results list) e.node
  dead : ∀ x ∈ s.scene.live, ¬ s.scene.store.Used (results list) x

section

variable {s s' : Session} {list front rest : List Blueprint} {done : List NodeId} {bay : NodeId} {name : String}
  {ps : List Picture} {added : List (Entry Blueprint)} {more gallery : Gallery}

theorem results_sublist (sub : front.Sublist list) : results front ⊆ results list := by
  intro id member
  obtain ⟨b, listed, given⟩ := List.mem_flatMap.mp member
  exact List.mem_flatMap.mpr ⟨b, sub.subset listed, given⟩

theorem placeable_sublist (sub : front.Sublist list) (placeable : Placeable s list) : Placeable s front where
  toStock := stock_mono (results_sublist sub) placeable.toStock
  apart := placeable.apart.sublist sub
  entries e member :=
    ⟨(placeable.entries e member).1, fun used => (placeable.entries e member).2 (used_mono (results_sublist sub) used)⟩
  dead x member used := placeable.dead x member (used_mono (results_sublist sub) used)

theorem Placeable.between (placeable : Placeable s (front ++ rest)) {x y : NodeId} (first : x ∈ results front)
    (second : y ∈ results rest) (free : s.scene.store.Usable x ∨ s.scene.store.Usable y) : s.scene.store.Apart x y := by
  obtain ⟨b, listed, given⟩ := List.mem_flatMap.mp first
  obtain ⟨c, listed', given'⟩ := List.mem_flatMap.mp second
  exact (List.pairwise_append.mp placeable.apart).2.2 b listed c listed' x given y given' free

/-- What stands below a node apart from all those that are taken is not taken itself. -/
theorem not_own_apart {store : Store} {id : NodeId} (made : id < store.size)
    (apart : ∀ y ∈ done, store.Usable y → store.Apart id y) {x : NodeId} (below : Below store id x) :
    ¬ store.Own done x := by
  rintro (new | ⟨y, member, usable, above⟩)
  · exact Nat.not_lt_of_ge new (below_lt below made)
  · obtain ⟨first, second⟩ := apart y member usable
    exact (below_linear below above).elim first second

theorem shows_apart (linked : Linked s.scene.store)
    (confined : Confined (s.scene.store.Own done) s.scene.store s'.scene.store)
    {id : NodeId} (apart : ∀ y ∈ done, s.scene.store.Usable y → s.scene.store.Apart id y) {p : Picture}
    (shown : Shows s.scene.store id p) : Shows s'.scene.store id p :=
  shows_of_get linked (fun x below => confined.old x (not_own_apart (shows_lt shown) apart below)) shown

/-- The entries show what they showed. -/
theorem hung_kept (placeable : Placeable s list) (sub : done ⊆ results list)
    (confined : Confined (s.scene.store.Own done) s.scene.store s'.scene.store)
    (hung : Hung s.scene.store s.registry.entries gallery) : Hung s'.scene.store s.registry.entries gallery := by
  refine hung_each hung fun e member p shown => shows_of_get placeable.linked (fun x below => ?_) shown
  apply confined.old
  intro own
  rcases (enclosed_below (own_enclosed placeable.linked done) below).mpr own with new | used
  · exact Nat.not_lt_of_ge new (placeable.entries e member).1
  · exact (placeable.entries e member).2 (used_mono sub used)

/-- A node that is free to be taken after others were has not been touched. -/
theorem Gathered.undisturbed (stock : Stock s done) (gathered : Gathered bay name s done ps s' added more) {id : NodeId}
    (made : id < s.scene.store.size) (usable : s'.scene.store.Usable id) :
    s.scene.store.Usable id ∧ ∀ x, Below s.scene.store id x → s'.scene.store.get? x = s.scene.store.get? x := by
  have before := usable_before stock gathered.toWorked usable
  have untaken : ¬ s.scene.store.Used done id := by
    intro used
    have top := below_root (gathered.taken id used) usable.1
    exact Nat.not_lt_of_ge gathered.new (top ▸ made)
  refine ⟨before, fun x below => gathered.confined.old x ?_⟩
  rintro (new | ⟨y, member, free, above⟩)
  · exact Nat.not_lt_of_ge new (below_lt below made)
  · rcases below_linear below above with lower | lower
    · have same := below_root lower free.1
      exact untaken ⟨y, member, free, same ▸ .top⟩
    · exact untaken ⟨y, member, free, lower⟩

theorem placeable_later (placeable : Placeable s list) (sub : done ⊆ results list)
    (gathered : Gathered bay name s done ps s' added more) :
    Placeable s' list := by
  have stock := gathered.stock placeable.toStock sub (List.Subset.refl _)
  have undisturbed : ∀ id ∈ results list, s'.scene.store.Usable id → s.scene.store.Usable id ∧
      ∀ x, Below s'.scene.store id x ↔ Below s.scene.store id x := by
    intro id member usable
    obtain ⟨before, same⟩ := gathered.undisturbed (stock_mono sub placeable.toStock) (placeable.made id member) usable
    exact ⟨before, below_undisturbed placeable.linked stock.linked same⟩
  -- what is used now was used before, and nothing in the container is
  have used : ∀ x, s'.scene.store.Used (results list) x → s.scene.store.Used (results list) x ∧
      ¬ Below s'.scene.store bay x := by
    rintro x ⟨id, member, usable, below⟩
    obtain ⟨before, same⟩ := undisturbed id member usable
    refine ⟨⟨id, member, before, (same x).mp below⟩, fun inside => ?_⟩
    have new := gathered.new
    have made := placeable.made id member
    rcases below_linear below inside with lower | lower
    · exact Nat.not_lt_of_ge new (below_root lower gathered.parentless ▸ made)
    · exact Nat.not_lt_of_ge new (below_root lower usable.1 ▸ made)
  have apart : ∀ x ∈ results list, ∀ y ∈ results list, s'.scene.store.Usable x → s.scene.store.Apart x y →
      s'.scene.store.Apart x y := by
    intro x first y second usable apart
    obtain ⟨_, same⟩ := undisturbed x first usable
    refine ⟨fun below => apart.1 ((same y).mp below), fun below => apart.1 ?_⟩
    rw [below_root below usable.1]
    exact .top
  exact
    { stock with
      apart := by
        refine placeable.apart.imp_of_mem fun {b c} listed listed' apart' x given y given' free => ?_
        have first : x ∈ results list := List.mem_flatMap.mpr ⟨b, listed, given⟩
        have second : y ∈ results list := List.mem_flatMap.mpr ⟨c, listed', given'⟩
        rcases free with free | free
        · exact apart x first y second free (apart' x given y given' (.inl (undisturbed x first free).1))
        · have mirrored := apart' x given y given' (.inr (undisturbed y second free).1)
          exact (apart y second x first free mirrored.symm).symm
      entries := by
        intro e member
        rw [gathered.entries] at member
        rcases List.mem_append.mp member with old | new
        · obtain ⟨made, unused⟩ := placeable.entries e old
          exact ⟨made.trans_le gathered.confined.size, fun taken => unused (used e.node taken).1⟩
        · exact ⟨(gathered.listed e new).2, fun taken => (used e.node taken).2 (gathered.inside e new).2⟩
      dead := by
        intro x member taken
        rcases gathered.below x member with old | new
        · exact placeable.dead x old (used x taken).1
        · exact (used x taken).2 new }

end

end ProceduralScene
