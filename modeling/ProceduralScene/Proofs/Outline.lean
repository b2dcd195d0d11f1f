import Mathlib.Data.List.Forall2
import ProceduralScene.Proofs.Subtree

/-!
Outlines: the labels of a tree and nothing else. An outline is laid out as a table of rows in the order of a walk,
where every row has the places of its parent and of its children. The nodes of a scene tree form an outline, and a
walk lists its labels.
-/

set_option autoImplicit false

namespace ProceduralScene

inductive Outline (α : Type) where
  | mk (label : α) (inner : List (Outline α))

/-- An entry of the table of an outline. -/
structure Row (α : Type) where
  place : Nat
  label : α
  parent : Option Nat
  children : List Nat

namespace Outline

variable {α β : Type}

def label : Outline α → α
  | ⟨label, _⟩ => label

mutual
/-- The labels, each before those below it. -/
def labels : Outline α → List α
  | ⟨label, inner⟩ => label :: labelsOfAll inner

def labelsOfAll : List (Outline α) → List α
  | [] => []
  | t :: rest => labels t ++ labelsOfAll rest
end

mutual
def map (f : α → β) : Outline α → Outline β
  | ⟨label, inner⟩ => ⟨f label, mapAll f inner⟩

def mapAll (f : α → β) : List (Outline α) → List (Outline β)
  | [] => []
  | t :: rest => map f t :: mapAll f rest
end

mutual
def height : Outline α → Nat
  | ⟨_, inner⟩ => heightAll inner + 1

def heightAll : List (Outline α) → Nat
  | [] => 0
  | t :: rest => max (height t) (heightAll rest)
end

/-- Where neighbours begin in a table, the first of them at `start`. -/
def places (start : Nat) : List (Outline α) → List Nat
  | [] => []
  | t :: rest => start :: places (start + t.labels.length) rest

mutual
/-- The table of an outline below a parent, its first row at `start`. -/
def rows (parent : Option Nat) (start : Nat) : Outline α → List (Row α)
  | ⟨label, inner⟩ =>
    ⟨start, label, parent, places (start + 1) inner⟩ :: rowsOfAll (some start) (start + 1) inner

def rowsOfAll (parent : Option Nat) (start : Nat) : List (Outline α) → List (Row α)
  | [] => []
  | t :: rest => rows parent start t ++ rowsOfAll parent (start + t.labels.length) rest
end

/-- The labels below each label are those that it links to. -/
inductive Follows (links : α → Option (List α)) : Outline α → Prop where
  | mk {here : α} {inner : List (Outline α)} (linked : links here = some (inner.map label))
      (below : ∀ t ∈ inner, Follows links t) : Follows links ⟨here, inner⟩

theorem labelsOfAll_eq (ts : List (Outline α)) : labelsOfAll ts = ts.flatMap labels := by
  induction ts with
  | nil => rfl
  | cons t rest ih => rw [labelsOfAll, List.flatMap_cons, ih]

theorem heightAll_le {ts : List (Outline α)} {bound : Nat} :
    heightAll ts ≤ bound ↔ ∀ t ∈ ts, t.height ≤ bound := by
  induction ts with
  | nil => simp [heightAll]
  | cons t rest ih => simp [heightAll, ih]

theorem eq_nil_of_heightAll {ts : List (Outline α)} (low : heightAll ts ≤ 0) : ts = [] := by
  cases ts with
  | nil => rfl
  | cons t rest =>
    cases t
    exact absurd (heightAll_le.mp low _ List.mem_cons_self) (Nat.not_succ_le_zero _)

mutual
theorem height_le_length : ∀ t : Outline α, t.height ≤ t.labels.length
  | ⟨_, inner⟩ => Nat.succ_le_succ (heightAll_le_length inner)

theorem heightAll_le_length : ∀ ts : List (Outline α), heightAll ts ≤ (labelsOfAll ts).length
  | [] => Nat.le_refl _
  | t :: rest => by
    have first := height_le_length t
    have others := heightAll_le_length rest
    rw [heightAll, labelsOfAll, List.length_append]
    omega
end

/-! ### The table -/

mutual
theorem rows_label (parent : Option Nat) (start : Nat) : ∀ t : Outline α, (t.rows parent start).map Row.label = t.labels
  | ⟨label, inner⟩ => by rw [rows, List.map_cons, rowsOfAll_label (some start) (start + 1) inner, labels]

theorem rowsOfAll_label (parent : Option Nat) (start : Nat) : ∀ ts : List (Outline α),
    (rowsOfAll parent start ts).map Row.label = labelsOfAll ts
  | [] => rfl
  | t :: rest => by
    rw [rowsOfAll, List.map_append, rows_label parent start t, rowsOfAll_label parent _ rest, labelsOfAll]
end

mutual
theorem rows_place (parent : Option Nat) (start : Nat) : ∀ t : Outline α,
    (t.rows parent start).map Row.place = List.range' start t.labels.length
  | ⟨label, inner⟩ => by
    rw [rows, List.map_cons, rowsOfAll_place (some start) (start + 1) inner, labels, List.length_cons, List.range'_succ]

theorem rowsOfAll_place (parent : Option Nat) (start : Nat) : ∀ ts : List (Outline α),
    (rowsOfAll parent start ts).map Row.place = List.range' start (labelsOfAll ts).length
  | [] => rfl
  | t :: rest => by
    rw [rowsOfAll, List.map_append, rows_place parent start t, rowsOfAll_place parent _ rest, labelsOfAll,
      List.length_append, List.range'_append_1]
end

theorem length_rows (parent : Option Nat) (start : Nat) (t : Outline α) :
    (t.rows parent start).length = t.labels.length := by
  rw [← rows_label parent start t, List.length_map]

theorem length_rowsOfAll (parent : Option Nat) (start : Nat) (ts : List (Outline α)) :
    (rowsOfAll parent start ts).length = (labelsOfAll ts).length := by
  rw [← rowsOfAll_label parent start ts, List.length_map]

theorem place_getElem (parent : Option Nat) (start : Nat) (t : Outline α) {i : Nat} (bound : i < (t.rows parent start).length) :
    ((t.rows parent start)[i]).place = start + i := by
  have listed := List.getElem_of_eq (rows_place parent start t) (by rwa [List.length_map])
  rwa [List.getElem_map, List.getElem_range', Nat.one_mul] at listed

/-- In a table that begins at zero a label is listed at the place of its row. -/
theorem labels_place {parent : Option Nat} {t : Outline α} {row : Row α} (member : row ∈ t.rows parent 0) :
    t.labels[row.place]? = some row.label := by
  obtain ⟨i, bound, rfl⟩ := List.getElem_of_mem member
  rw [place_getElem, Nat.zero_add, ← rows_label parent 0 t, List.getElem?_map, List.getElem?_eq_getElem bound, Option.map_some]

/-- A table has a row at a place, with a label and under a parent. -/
def Stands (table : List (Row α)) (parent : Option Nat) (label : α) (place : Nat) : Prop :=
  ∃ row ∈ table, row.place = place ∧ row.label = label ∧ row.parent = parent

theorem stands_mono {table table' : List (Row α)} (more : table ⊆ table') {parent : Option Nat} {ls : List α}
    {ps : List Nat} (stand : List.Forall₂ (Stands table parent) ls ps) : List.Forall₂ (Stands table' parent) ls ps :=
  stand.imp fun _ _ ⟨row, member, is⟩ => ⟨row, more member, is⟩

theorem mem_stands {table : List (Row α)} {parent : Option Nat} {ls : List α} {ps : List Nat}
    (stand : List.Forall₂ (Stands table parent) ls ps) {place : Nat} (listed : place ∈ ps) :
    ∃ row ∈ table, row.place = place ∧ row.parent = parent := by
  induction stand with
  | nil => cases listed
  | cons first _ ih =>
    rcases List.mem_cons.mp listed with rfl | later
    · obtain ⟨row, member, place, _, under⟩ := first
      exact ⟨row, member, place, under⟩
    · exact ih later

theorem first_stands (parent : Option Nat) (start : Nat) (t : Outline α) :
    Stands (t.rows parent start) parent t.label start := by
  obtain ⟨here, inner⟩ := t
  exact ⟨⟨start, here, parent, places (start + 1) inner⟩, List.mem_cons_self, rfl, rfl, rfl⟩

/-- Neighbours stand at their places, under their parent. -/
theorem places_stand (parent : Option Nat) (start : Nat) (ts : List (Outline α)) :
    List.Forall₂ (Stands (rowsOfAll parent start ts) parent) (ts.map label) (places start ts) := by
  induction ts generalizing start with
  | nil => exact .nil
  | cons t rest ih =>
    obtain ⟨row, member, is⟩ := first_stands parent start t
    exact .cons ⟨row, List.mem_append_left _ member, is⟩ (stands_mono (List.subset_append_right _ _) (ih _))

mutual
/-- The children of a row are what its label links to, in that order, and the row is their parent. -/
theorem rows_children {links : α → Option (List α)} (parent : Option Nat) (start : Nat) {t : Outline α}
    (follows : Follows links t) : ∀ row ∈ t.rows parent start, ∃ linked, links row.label = some linked ∧
      List.Forall₂ (Stands (t.rows parent start) (some row.place)) linked row.children := by
  cases follows with
  | @mk here inner linked below =>
    intro row member
    rw [rows] at member ⊢
    rcases List.mem_cons.mp member with rfl | later
    · exact ⟨inner.map label, linked, stands_mono (List.subset_cons_self _ _) (places_stand _ _ inner)⟩
    · obtain ⟨linked, read, stand⟩ := rowsOfAll_children (some start) (start + 1) below row later
      exact ⟨linked, read, stands_mono (List.subset_cons_self _ _) stand⟩

theorem rowsOfAll_children {links : α → Option (List α)} (parent : Option Nat) (start : Nat) {ts : List (Outline α)}
    (follows : ∀ t ∈ ts, Follows links t) : ∀ row ∈ rowsOfAll parent start ts, ∃ linked,
      links row.label = some linked ∧
        List.Forall₂ (Stands (rowsOfAll parent start ts) (some row.place)) linked row.children := by
  cases ts with
  | nil => simp [rowsOfAll]
  | cons t rest =>
    intro row member
    rw [rowsOfAll] at member ⊢
    rcases List.mem_append.mp member with first | later
    · obtain ⟨linked, read, stand⟩ := rows_children parent start (follows t (by simp)) row first
      exact ⟨linked, read, stands_mono (List.subset_append_left _ _) stand⟩
    · obtain ⟨linked, read, stand⟩ :=
        rowsOfAll_children parent _ (fun t listed => follows t (List.mem_cons_of_mem _ listed)) row later
      exact ⟨linked, read, stands_mono (List.subset_append_right _ _) stand⟩
end

/-- Some row of the table is the parent of a row and lists it. -/
def Listed (table : List (Row α)) (row : Row α) : Prop :=
  ∃ above ∈ table, row.parent = some above.place ∧ row.place ∈ above.children

theorem listed_mono {table table' : List (Row α)} (more : table ⊆ table') {row : Row α} (listed : Listed table row) :
    Listed table' row := by
  obtain ⟨above, member, is⟩ := listed
  exact ⟨above, more member, is⟩

mutual
/-- Every row but the first is listed by its parent. -/
theorem rows_listed (parent : Option Nat) (start : Nat) : ∀ t : Outline α, ∀ row ∈ t.rows parent start,
    (row.place = start ∧ row.parent = parent) ∨ Listed (t.rows parent start) row
  | ⟨here, inner⟩ => by
    intro row member
    rw [rows] at member ⊢
    rcases List.mem_cons.mp member with rfl | later
    · exact .inl ⟨rfl, rfl⟩
    · rcases rowsOfAll_listed (some start) (start + 1) inner row later with ⟨place, under⟩ | listed
      · exact .inr ⟨_, List.mem_cons_self, under, place⟩
      · exact .inr (listed_mono (List.subset_cons_self _ _) listed)

theorem rowsOfAll_listed (parent : Option Nat) (start : Nat) : ∀ ts : List (Outline α), ∀ row ∈ rowsOfAll parent start ts,
    (row.place ∈ places start ts ∧ row.parent = parent) ∨ Listed (rowsOfAll parent start ts) row
  | [] => by simp [rowsOfAll]
  | t :: rest => by
    intro row member
    rw [rowsOfAll] at member ⊢
    rw [places]
    rcases List.mem_append.mp member with first | later
    · rcases rows_listed parent start t row first with ⟨place, under⟩ | listed
      · exact .inl ⟨by simp [place], under⟩
      · exact .inr (listed_mono (List.subset_append_left _ _) listed)
    · rcases rowsOfAll_listed parent _ rest row later with ⟨place, under⟩ | listed
      · exact .inl ⟨List.mem_cons_of_mem _ place, under⟩
      · exact .inr (listed_mono (List.subset_append_right _ _) listed)
end

mutual
/-- Every place after the first is listed as a child once. -/
theorem rows_perm (parent : Option Nat) (start : Nat) : ∀ t : Outline α,
    ((t.rows parent start).flatMap Row.children).Perm (List.range' (start + 1) (t.labels.length - 1))
  | ⟨here, inner⟩ => by
    rw [rows, List.flatMap_cons, labels, List.length_cons, Nat.add_sub_cancel]
    exact rowsOfAll_perm (some start) (start + 1) inner

theorem rowsOfAll_perm (parent : Option Nat) (start : Nat) : ∀ ts : List (Outline α),
    (places start ts ++ (rowsOfAll parent start ts).flatMap Row.children).Perm
      (List.range' start (labelsOfAll ts).length)
  | [] => .refl _
  | t :: rest => by
    have first := rows_perm parent start t
    have others := rowsOfAll_perm parent (start + t.labels.length) rest
    have long : t.labels.length = t.labels.length - 1 + 1 := by
      cases t
      rfl
    rw [places, rowsOfAll, List.flatMap_append, labelsOfAll, List.length_append, ← List.range'_append_1,
      show List.range' start t.labels.length = start :: List.range' (start + 1) (t.labels.length - 1) from
        (congrArg (List.range' start) long).trans (List.range'_succ ..), List.cons_append, List.cons_append]
    refine .cons start ?_
    -- the places of the neighbours and the children of the first change sides
    rw [← List.append_assoc]
    exact (List.perm_append_comm.append_right _).trans ((List.append_assoc ..).symm ▸ first.append others)
end

theorem le_places {start : Nat} {ts : List (Outline α)} : ∀ place ∈ places start ts, start ≤ place := by
  induction ts generalizing start with
  | nil => simp [places]
  | cons t rest ih =>
    rw [places]
    rintro place (_ | ⟨_, later⟩)
    · exact Nat.le_refl _
    · exact Nat.le_trans (Nat.le_add_right ..) (ih place later)

mutual
theorem rows_ascend (parent : Option Nat) (start : Nat) : ∀ t : Outline α, ∀ row ∈ t.rows parent start,
    ∀ child ∈ row.children, row.place < child
  | ⟨here, inner⟩ => by
    rw [rows]
    rintro row (_ | ⟨_, later⟩)
    · exact le_places
    · exact rowsOfAll_ascend _ _ inner row later

theorem rowsOfAll_ascend (parent : Option Nat) (start : Nat) : ∀ ts : List (Outline α), ∀ row ∈ rowsOfAll parent start ts,
    ∀ child ∈ row.children, row.place < child
  | [] => by simp [rowsOfAll]
  | t :: rest => by
    rw [rowsOfAll]
    intro row member
    rcases List.mem_append.mp member with first | later
    · exact rows_ascend parent start t row first
    · exact rowsOfAll_ascend parent _ rest row later
end

/-! ### Height -/

mutual
/-- A label has one outline at most. -/
theorem follows_unique {links : α → Option (List α)} {t u : Outline α} (left : Follows links t)
    (right : Follows links u) (same : t.label = u.label) : t = u := by
  cases left with
  | @mk here inner linked below =>
    cases right with
    | @mk there inner' linked' below' =>
      obtain rfl : here = there := same
      rw [followsAll_unique below below' (Option.some.inj (linked.symm.trans linked'))]

theorem followsAll_unique {links : α → Option (List α)} {ts us : List (Outline α)} (left : ∀ t ∈ ts, Follows links t)
    (right : ∀ u ∈ us, Follows links u) (same : ts.map label = us.map label) : ts = us := by
  cases ts with
  | nil => exact (List.map_eq_nil_iff.mp same.symm).symm
  | cons t ts =>
    cases us with
    | nil => cases same
    | cons u us =>
      obtain ⟨first, rest⟩ := List.cons.inj same
      rw [follows_unique (left t (by simp)) (right u (by simp)) first,
        followsAll_unique (fun t member => left t (by simp [member])) (fun u member => right u (by simp [member])) rest]
end

theorem exists_highest {ts : List (Outline α)} (some : ts ≠ []) : ∃ t ∈ ts, t.height = heightAll ts := by
  induction ts with
  | nil => exact absurd rfl some
  | cons t rest ih =>
    rw [heightAll]
    rcases Nat.le_total (heightAll rest) t.height with taller | taller
    · exact ⟨t, by simp, (Nat.max_eq_left taller).symm⟩
    · rw [Nat.max_eq_right taller]
      by_cases alone : rest = []
      · subst alone
        exact ⟨t, by simp, Nat.le_antisymm taller (Nat.zero_le _)⟩
      · obtain ⟨u, member, highest⟩ := ih alone
        exact ⟨u, List.mem_cons_of_mem _ member, highest⟩

/-- Down an outline there are as many different labels as it is high. -/
theorem follows_chain {links : α → Option (List α)} {t : Outline α} (follows : Follows links t) :
    ∃ chain : List α, chain.Nodup ∧ chain.length = t.height ∧
      ∀ x ∈ chain, ∃ u, Follows links u ∧ u.label = x ∧ u.height ≤ t.height := by
  induction follows with
  | @mk here inner linked below ih =>
    have whole : Follows links ⟨here, inner⟩ := .mk linked below
    by_cases leaf : inner = []
    · subst leaf
      exact ⟨[here], List.nodup_singleton here, rfl, by simpa using ⟨_, whole, rfl, Nat.le_refl _⟩⟩
    · obtain ⟨t, member, highest⟩ := exists_highest leaf
      obtain ⟨chain, distinct, long, lower⟩ := ih t member
      have higher : (⟨here, inner⟩ : Outline α).height = t.height + 1 := by rw [height, highest]
      refine ⟨here :: chain, List.nodup_cons.mpr ⟨fun again => ?_, distinct⟩, by rw [List.length_cons, long, higher], ?_⟩
      · -- below itself the label would have a second and lower outline
        obtain ⟨u, also, same, low⟩ := lower here again
        rw [follows_unique also whole same, higher] at low
        exact Nat.not_succ_le_self _ low
      · rintro x (_ | ⟨_, listed⟩)
        · exact ⟨_, whole, rfl, Nat.le_refl _⟩
        · obtain ⟨u, also, same, low⟩ := lower x listed
          exact ⟨u, also, same, by omega⟩

end Outline

namespace Store

open Outline

/-- The nodes that a node lists as its children. -/
def links (store : Store) (id : NodeId) : Option (List NodeId) := (store.get? id).map (·.payload.children)

/-- A node tree: the node exists, and its children are node trees. -/
inductive Tree (store : Store) : NodeId → Prop where
  | mk {id : NodeId} {node : Node} (found : store.get? id = some node)
      (below : ∀ child ∈ node.payload.children, Tree store child) : Tree store id

/-- The identities of a node and of what is below it down to a depth. -/
def outlineWithin (store : Store) : Nat → NodeId → Outline NodeId
  | 0, id => ⟨id, []⟩
  | depth + 1, id => ⟨id, (store.childrenOf id).map (store.outlineWithin depth)⟩

/-- The identities of a node and of everything below it. -/
def outline (store : Store) (id : NodeId) : Outline NodeId := store.outlineWithin store.size id

section

variable {store : Store}

theorem links_childrenOf {id : NodeId} {children : List NodeId} (linked : store.links id = some children) :
    store.childrenOf id = children := by
  rw [childrenOf, ← links, linked, Option.getD_some]

theorem follows_node {here : NodeId} {inner : List (Outline NodeId)} (follows : Follows store.links ⟨here, inner⟩) :
    ∃ node, store.get? here = some node ∧ node.payload.children = inner.map label ∧ ∀ t ∈ inner, Follows store.links t := by
  cases follows with
  | mk linked below =>
    obtain ⟨node, found, listed⟩ := Option.map_eq_some_iff.mp linked
    exact ⟨node, found, listed, below⟩

theorem follows_height {t : Outline NodeId} (follows : Follows store.links t) : t.height ≤ store.size := by
  obtain ⟨chain, distinct, long, each⟩ := follows_chain follows
  refine long ▸ length_le_of_nodup_lt distinct fun x member => ?_
  obtain ⟨⟨here, inner⟩, also, rfl, _⟩ := each x member
  obtain ⟨node, found, _⟩ := follows_node also
  exact get_some_lt found

theorem tree_follows {id : NodeId} (tree : store.Tree id) : ∃ t : Outline NodeId, t.label = id ∧ Follows store.links t := by
  induction tree with
  | @mk id node found below ih =>
    have inner : ∀ children : List NodeId, (∀ child ∈ children, child ∈ node.payload.children) →
        ∃ ts : List (Outline NodeId), ts.map label = children ∧ ∀ t ∈ ts, Follows store.links t := by
      intro children
      induction children with
      | nil => exact fun _ => ⟨[], rfl, by simp⟩
      | cons child rest more =>
        intro each
        obtain ⟨t, here, follows⟩ := ih child (each child (by simp))
        obtain ⟨ts, others, all⟩ := more fun other member => each other (by simp [member])
        exact ⟨t :: ts, by rw [List.map_cons, here, others], by simpa using ⟨follows, all⟩⟩
    obtain ⟨ts, labels, follows⟩ := inner node.payload.children fun _ member => member
    exact ⟨⟨id, ts⟩, rfl, .mk (by rw [links, found, Option.map_some, labels]) follows⟩

/-- Deep enough, the outline that follows the links is what is found. -/
theorem outlineWithin_follows {t : Outline NodeId} (follows : Follows store.links t) :
    ∀ depth, t.height ≤ depth + 1 → store.outlineWithin depth t.label = t := by
  induction follows with
  | @mk here inner linked below ih =>
    intro depth low
    rw [height, Nat.add_le_add_iff_right] at low
    cases depth with
    | zero => rw [eq_nil_of_heightAll low, outlineWithin, label]
    | succ depth =>
      rw [heightAll_le] at low
      rw [outlineWithin, label, links_childrenOf linked, List.map_map]
      congr 1
      exact (List.map_congr_left fun t member => ih t member depth (low t member)).trans (List.map_id' inner)

/-- The outline of a tree follows its links. -/
theorem outline_follows {id : NodeId} (tree : store.Tree id) :
    (store.outline id).label = id ∧ Follows store.links (store.outline id) := by
  obtain ⟨t, rfl, follows⟩ := tree_follows tree
  have found : store.outline t.label = t :=
    outlineWithin_follows follows store.size (Nat.le_succ_of_le (follows_height follows))
  rw [found]
  exact ⟨rfl, follows⟩

theorem walkWithin_labels (depth : Nat) (id : NodeId) : store.walkWithin depth id = (store.outlineWithin depth id).labels := by
  induction depth generalizing id with
  | zero => rfl
  | succ depth ih =>
    rw [walkWithin, outlineWithin, labels, labelsOfAll_eq, List.flatMap_map]
    exact congrArg _ (List.flatMap_congr fun child _ => ih child)

/-- A walk lists the labels of the outline. -/
theorem walk_labels (id : NodeId) : store.walk id = (store.outline id).labels :=
  walkWithin_labels store.size id

mutual
/-- Where the nodes of a store list the children of the rows, a walk from the first row visits all places. -/
theorem walkWithin_rows (parent : Option Nat) (start : Nat) : ∀ t : Outline NodeId,
    (∀ row ∈ t.rows parent start, store.childrenOf row.place = row.children) → ∀ depth, t.height ≤ depth + 1 →
      store.walkWithin depth start = List.range' start t.labels.length
  | ⟨here, inner⟩ => by
    intro listed depth low
    rw [height, Nat.add_le_add_iff_right] at low
    rw [rows] at listed
    have below : ∀ row ∈ rowsOfAll (some start) (start + 1) inner, store.childrenOf row.place = row.children :=
      fun row member => listed row (List.mem_cons_of_mem _ member)
    rw [labels, List.length_cons, List.range'_succ]
    cases depth with
    | zero => rw [eq_nil_of_heightAll low, walkWithin, labelsOfAll, List.length_nil, List.range'_zero]
    | succ depth =>
      rw [walkWithin, listed _ List.mem_cons_self]
      exact congrArg _ (walkWithin_places (some start) (start + 1) inner below depth low)

theorem walkWithin_places (parent : Option Nat) (start : Nat) : ∀ ts : List (Outline NodeId),
    (∀ row ∈ rowsOfAll parent start ts, store.childrenOf row.place = row.children) → ∀ depth, heightAll ts ≤ depth + 1 →
      (places start ts).flatMap (store.walkWithin depth) = List.range' start (labelsOfAll ts).length
  | [] => fun _ _ _ => rfl
  | t :: rest => by
    intro listed depth low
    rw [heightAll, Nat.max_le] at low
    rw [rowsOfAll] at listed
    rw [places, List.flatMap_cons,
      walkWithin_rows parent start t (fun row first => listed row (List.mem_append_left _ first)) depth low.1,
      walkWithin_places parent _ rest (fun row later => listed row (List.mem_append_right _ later)) depth low.2,
      labelsOfAll, List.length_append, List.range'_append_1]
end

end

end Store

end ProceduralScene
