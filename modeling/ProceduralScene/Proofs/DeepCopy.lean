import ProceduralScene.Proofs.Outline
import ProceduralScene.Scene.Polyline

/-!
Deep copies: a clone of a node tree goes to the end of the store, laid out like the outline of the original. It has
the same content node by node and shares no node with what was there before.
-/

set_option autoImplicit false

namespace ProceduralScene

/-- The origins and the vectors of a field. -/
def Payload.samples? : Payload → Option (List (List Value) × List (List Value))
  | .field origins vectors => some (origins, vectors)
  | _ => none

/-- A copy of a node: everything but its place in the tree, and undisposed. -/
structure Node.CopyOf (node copy : Node) : Prop where
  name : copy.name = node.name
  position : copy.position = node.position
  rotation : copy.rotation = node.rotation
  scale : copy.scale = node.scale
  visible : copy.visible = node.visible
  carried : copy.carried = node.carried
  kind : copy.payload.kind = node.payload.kind
  shape : (copy.payload.geometry?.map fun geometry => (geometry.kind, geometry.params)) =
    node.payload.geometry?.map fun geometry => (geometry.kind, geometry.params)
  material : copy.payload.material? = node.payload.material?
  line : copy.payload.polyline? = node.payload.polyline?
  /-- Made from its points again, the line is the same. -/
  remade : ∀ line, node.payload.polyline? = some line →
    Polyline.ofValues (line.points.map Vec3.toValue) line.closed = .ok line
  samples : copy.payload.samples? = node.payload.samples?
  pristine : copy.Pristine

theorem Polyline.ofValues_points (line : Polyline) :
    ofValues (line.points.map Vec3.toValue) line.closed = .ok line := by
  have points : ∀ points : List Vec3, (points.map Vec3.toValue).mapM pointOf = .ok points := by
    intro points
    induction points with
    | nil => rfl
    | cons point rest ih =>
      rw [List.map_cons, List.mapM_cons, ih]
      rfl
  rw [ofValues, points]
  rfl

theorem modify_append_cons {α : Type} (xs : Array α) (before : List α) (x : α) (rest : List α) (change : α → α) :
    (xs ++ (before ++ x :: rest).toArray).modify (xs.size + before.length) change =
      xs ++ (before ++ change x :: rest).toArray := by
  have inner : ∀ ys : List α, (ys ++ x :: rest).modify ys.length change = ys ++ change x :: rest := by
    intro ys
    induction ys with
    | nil => rfl
    | cons y ys ih => rw [List.cons_append, List.length_cons, List.modify_succ_cons, ih, List.cons_append]
  apply Array.toList_inj.mp
  have whole := inner (xs.toList ++ before)
  simpa [List.append_assoc] using whole

namespace Store

open Outline

/-- The store with more nodes at its end. -/
def append (store : Store) (more : List Node) : Store := { store with nodes := store.nodes ++ more.toArray }

section

variable (store : Store)

@[simp] theorem append_nil : store.append [] = store := by simp [append]

@[simp] theorem size_append (more : List Node) : (store.append more).size = store.size + more.length := by
  simp [append, size]

theorem get_append_old (more : List Node) {x : NodeId} (old : x < store.size) :
    (store.append more).get? x = store.get? x := Array.getElem?_append_left old

theorem get_append_new (more : List Node) (i : Nat) : (store.append more).get? (store.size + i) = more[i]? := by
  have read : (store.nodes ++ more.toArray)[store.nodes.size + i]? = more.toArray[store.nodes.size + i - store.nodes.size]? :=
    Array.getElem?_append_right (Nat.le_add_right _ i)
  simpa [append, get?, size] using read

theorem append_create (more : List Node) (node : Node) :
    (store.append more).create node = (store.size + more.length, store.append (more ++ [node])) := by
  simp [create, append, size]

theorem append_modify (before : List Node) (node : Node) (rest : List Node) (change : Node → Node) :
    (store.append (before ++ node :: rest)).modify (store.size + before.length) change =
      store.append (before ++ change node :: rest) :=
  congrArg (fun nodes : Array Node => ({ store with nodes := nodes } : Store))
    (modify_append_cons store.nodes before node rest change)

/-- A parentless node among the new ones goes into an earlier one. -/
theorem append_add (before between rest : List Node) (top child : Node) (root : child.parent = none) :
    (store.append (before ++ top :: (between ++ child :: rest))).add (store.size + before.length)
        (store.size + (before.length + 1 + between.length)) =
      store.append (before ++ changeChildren (· ++ [store.size + (before.length + 1 + between.length)]) top ::
        (between ++ setParent (some (store.size + before.length)) child :: rest)) := by
  have split : ∀ node : Node, before ++ top :: (between ++ node :: rest) = (before ++ top :: between) ++ node :: rest :=
    fun _ => by simp
  have place : before.length + 1 + between.length = (before ++ top :: between).length := by
    simp only [List.length_append, List.length_cons]
    omega
  have alone : (store.append (before ++ top :: (between ++ child :: rest))).parentOf
      (store.size + (before.length + 1 + between.length)) = none := by
    rw [parentOf, get_append_new, split, place, List.getElem?_append_right (Nat.le_refl _), Nat.sub_self,
      List.getElem?_cons_zero, Option.bind_some, root]
  rw [add, detach_of_root alone, split, place, append_modify, ← split, append_modify]

end

theorem changeChildren_changeChildren (f g : List NodeId → List NodeId) (node : Node) :
    changeChildren g (changeChildren f node) = changeChildren (fun children => g (f children)) node := by
  obtain ⟨name, position, rotation, scale, visible, carried, parent, disposed, payload⟩ := node
  cases payload <;> rfl

theorem changeChildren_copy (node : Node) :
    changeChildren (fun _ => []) node.copyWithoutChildren = node.copyWithoutChildren := by
  obtain ⟨name, position, rotation, scale, visible, carried, parent, disposed, payload⟩ := node
  cases payload <;> rfl

theorem setParent_copy (change : List NodeId → List NodeId) (node : Node) :
    setParent none (changeChildren change node.copyWithoutChildren) = changeChildren change node.copyWithoutChildren := by
  obtain ⟨name, position, rotation, scale, visible, carried, parent, disposed, payload⟩ := node
  cases payload <;> rfl

theorem copyOf_copy (node : Node) (parent : Option NodeId) (children : List NodeId) :
    node.CopyOf (setParent parent (changeChildren (fun _ => children) node.copyWithoutChildren)) := by
  have remade : ∀ line, node.payload.polyline? = some line →
      Polyline.ofValues (line.points.map Vec3.toValue) line.closed = .ok line := fun line _ => line.ofValues_points
  have pristine : (setParent parent (changeChildren (fun _ => children) node.copyWithoutChildren)).Pristine := by
    rw [← bare_pristine, setParent_bare, changeChildren_bare, bare_pristine]
    exact copy_pristine node
  obtain ⟨name, position, rotation, scale, visible, carried, above, disposed, payload⟩ := node
  cases payload with
  | drawable geometry material => cases geometry <;> constructor <;> first | rfl | exact remade | exact pristine
  | _ => constructor <;> first | rfl | exact remade | exact pristine

/-- What a clone puts at a row: the copy of the node that is the label, in its new place of the tree. -/
def Twin (store : Store) (row : Row NodeId) (copy : Node) : Prop :=
  ∃ node, store.get? row.label = some node ∧
    copy = setParent row.parent (changeChildren (fun _ => row.children) node.copyWithoutChildren)

/-- On every outline of the first store up to a height, a cloning function puts the twins of the rows at the end,
whatever was put there before. -/
def Clones (store : Store) (high : Nat) (cloneChild : NodeId → Store → NodeId × Store) : Prop :=
  ∀ (t : Outline NodeId) (extra : List Node), Follows store.links t → t.height ≤ high →
    ∃ copies, List.Forall₂ (Twin store) (t.rows none (store.size + extra.length)) copies ∧
      cloneChild t.label (store.append extra) = (store.size + extra.length, store.append (extra ++ copies))

section

variable {store : Store}

/-- The twins of an outline that is put below a parent. -/
theorem twins_below (parent : NodeId) {start : Nat} {t : Outline NodeId} {copies : List Node}
    (twins : List.Forall₂ (Twin store) (t.rows none start) copies) :
    ∃ child rest, copies = child :: rest ∧ child.parent = none ∧
      List.Forall₂ (Twin store) (t.rows (some parent) start) (setParent (some parent) child :: rest) := by
  obtain ⟨here, inner⟩ := t
  rw [rows] at twins
  cases twins with
  | @cons _ child _ rest first others =>
    obtain ⟨node, found, rfl⟩ := first
    exact ⟨_, rest, rfl, rfl, .cons ⟨node, found, rfl⟩ others⟩

/-- The children of a copy are put behind it one after the other, and the copy lists them in that order. -/
theorem clones_children {high : Nat} {cloneChild : NodeId → Store → NodeId × Store} (clones : Clones store high cloneChild)
    (extra : List Node) (top : Node) : ∀ (ts : List (Outline NodeId)) (listed : List NodeId) (made : List Node),
      (∀ t ∈ ts, Follows store.links t ∧ t.height ≤ high) →
        ∃ more, List.Forall₂ (Twin store)
            (rowsOfAll (some (store.size + extra.length)) (store.size + (extra.length + 1 + made.length)) ts) more ∧
          (ts.map label).foldl (fun grown child =>
              let (childCopy, grown) := cloneChild child grown
              grown.add (store.size + extra.length) childCopy)
              (store.append (extra ++ changeChildren (fun _ => listed) top :: made)) =
            store.append (extra ++ changeChildren
              (fun _ => listed ++ places (store.size + (extra.length + 1 + made.length)) ts) top :: (made ++ more)) := by
  intro ts
  induction ts with
  | nil => exact fun listed made _ => ⟨[], .nil, by simp [places]⟩
  | cons t rest ih =>
    intro listed made each
    obtain ⟨follows, low⟩ := each t List.mem_cons_self
    obtain ⟨copies, twins, cloned⟩ := clones t (extra ++ changeChildren (fun _ => listed) top :: made) follows low
    have place : (extra ++ changeChildren (fun _ => listed) top :: made).length = extra.length + 1 + made.length := by
      simp only [List.length_append, List.length_cons]
      omega
    rw [place] at twins cloned
    -- the copy of the child had no parent, so the container takes it from nobody
    obtain ⟨child, below, rfl, root, twins⟩ := twins_below (store.size + extra.length) twins
    have long : store.size + (extra.length + 1 + made.length) + t.labels.length =
        store.size + (extra.length + 1 + (made ++ setParent (some (store.size + extra.length)) child :: below).length) := by
      have same := twins.length_eq
      rw [length_rows] at same
      rw [same, List.length_append]
      omega
    obtain ⟨more, others, rest⟩ := ih (listed ++ [store.size + (extra.length + 1 + made.length)])
      (made ++ setParent (some (store.size + extra.length)) child :: below) fun u member =>
        each u (List.mem_cons_of_mem _ member)
    refine ⟨setParent (some (store.size + extra.length)) child :: below ++ more, ?_, ?_⟩
    · rw [rowsOfAll, long]
      exact List.rel_append twins others
    · rw [List.map_cons, List.foldl_cons, cloned]
      dsimp only
      rw [show extra ++ changeChildren (fun _ => listed) top :: made ++ child :: below =
          extra ++ changeChildren (fun _ => listed) top :: (made ++ child :: below) by simp,
        append_add _ _ _ _ _ _ root, changeChildren_changeChildren, rest, places, long]
      simp

/-- A clone with enough depth puts the twins of the rows at the end of the store. -/
theorem cloneWithin_clones (depth : Nat) : Clones store (depth + 1) (cloneWithin depth) := by
  induction depth with
  | zero =>
    rintro ⟨here, inner⟩ extra follows low
    obtain ⟨node, found, _⟩ := follows_node follows
    have read := (get_append_old store extra (get_some_lt found)).trans found
    rw [height, Nat.add_le_add_iff_right] at low
    obtain rfl := eq_nil_of_heightAll low
    refine ⟨[node.copyWithoutChildren], .cons ⟨node, found, ?_⟩ .nil, ?_⟩
    · exact (changeChildren_copy node).symm.trans (setParent_copy _ node).symm
    · rw [label, cloneWithin_zero read, append_create]
  | succ depth ih =>
    rintro ⟨here, inner⟩ extra follows low
    obtain ⟨node, found, listed, below⟩ := follows_node follows
    have read := (get_append_old store extra (get_some_lt found)).trans found
    rw [height, Nat.add_le_add_iff_right, heightAll_le] at low
    obtain ⟨copies, twins, made⟩ := clones_children ih extra node.copyWithoutChildren inner [] [] fun t member =>
      ⟨below t member, low t member⟩
    refine ⟨_, .cons ⟨node, found, rfl⟩ twins, ?_⟩
    rw [changeChildren_copy] at made
    rw [label, cloneWithin_succ read, listed, append_create, size_append, made, setParent_copy]
    rfl

/-- A clone of a node tree is at the end of the store, laid out like its outline. -/
theorem clone_append {id : NodeId} (tree : store.Tree id) : ∃ copies,
    List.Forall₂ (Twin store) ((store.outline id).rows none store.size) copies ∧
      store.clone id = (store.size, store.append copies) := by
  obtain ⟨here, follows⟩ := outline_follows tree
  obtain ⟨copies, twins, cloned⟩ := cloneWithin_clones store.size (store.outline id) [] follows
    (Nat.le_succ_of_le (follows_height follows))
  rw [here, append_nil] at cloned
  exact ⟨copies, twins, cloned⟩

theorem twin_children {row : Row NodeId} {copy : Node} {children : List NodeId} (linked : store.links row.label = some children)
    (long : children.length = row.children.length) (twin : Twin store row copy) : copy.payload.children = row.children := by
  obtain ⟨node, found, rfl⟩ := twin
  rw [links, found, Option.map_some] at linked
  obtain rfl := Option.some.inj linked
  cases payload : node.payload with
  | container children =>
    refine changeChildren_children _ _ ?_
    rw [copy_isContainer, payload, Payload.isContainer]
  | _ =>
    -- only containers have children
    have none : row.children = [] := List.length_eq_zero_iff.mp (by rw [← long, payload]; rfl)
    rw [none, changeChildren_copy]
    exact copy_barren node

/-- What the store of a clone has at a row. -/
structure Reads (store after : Store) (row : Row NodeId) : Prop where
  children : after.childrenOf row.place = row.children
  parent : after.parentOf row.place = row.parent
  copied : ∃ node twin, store.get? row.label = some node ∧ after.get? row.place = some twin ∧ node.CopyOf twin

theorem twins_read {t : Outline NodeId} (follows : Follows store.links t) {copies : List Node}
    (twins : List.Forall₂ (Twin store) (t.rows none store.size) copies) :
    ∀ row ∈ t.rows none store.size, Reads store (store.append copies) row := by
  intro row member
  obtain ⟨linked, links, stand⟩ := rows_children none store.size follows row member
  obtain ⟨i, bound, rfl⟩ := List.getElem_of_mem member
  have twin := twins.get bound (twins.length_eq ▸ bound)
  have read : (store.append copies).get? ((t.rows none store.size)[i]).place = some (copies.get ⟨i, twins.length_eq ▸ bound⟩) := by
    rw [place_getElem, get_append_new, List.getElem?_eq_getElem (twins.length_eq ▸ bound)]
    rfl
  have children := twin_children links stand.length_eq twin
  obtain ⟨node, found, copied⟩ := twin
  refine ⟨by rw [childrenOf, read, Option.map_some, Option.getD_some, children], ?_, node, _, found, read, ?_⟩
  · rw [parentOf, read, Option.bind_some, copied]
    rfl
  · rw [copied]
    exact copyOf_copy node _ _

theorem reads_linked {after : Store} {t : Outline NodeId} {start : Nat} (follows : Follows store.links t)
    (reads : ∀ row ∈ t.rows none start, Reads store after row) {above row : Row NodeId}
    (here : above ∈ t.rows none start) (member : row ∈ t.rows none start) :
    row.place ∈ after.childrenOf above.place ↔ after.parentOf row.place = some above.place := by
  rw [(reads above here).children]
  constructor
  · intro listed
    obtain ⟨linked, _, stand⟩ := rows_children none start follows above here
    obtain ⟨found, also, place, parent⟩ := mem_stands stand listed
    rw [← parent, ← (reads found also).parent, place]
  · rw [(reads row member).parent]
    intro parent
    rcases rows_listed none start t row member with ⟨_, root⟩ | ⟨upper, also, under, listed⟩
    · cases root.symm.trans parent
    · -- the row that lists it is at the same place
      have same : upper.place = above.place := Option.some.inj (under.symm.trans parent)
      rwa [← (reads upper also).children, same, (reads above here).children] at listed

theorem reads_shape {after : Store} {t : Outline NodeId} {start : Nat} (follows : Follows store.links t)
    (reads : ∀ row ∈ t.rows none start, Reads store after row) {row : Row NodeId} (member : row ∈ t.rows none start) :
    List.Forall₂ (fun child twin => ∃ j : Nat, ((t.rows none start).map Row.label)[j]? = some child ∧
      ((t.rows none start).map Row.place)[j]? = some twin) (store.childrenOf row.label) (after.childrenOf row.place) := by
  obtain ⟨linked, links, stand⟩ := rows_children none start follows row member
  rw [(reads row member).children, links_childrenOf links]
  refine stand.imp fun child twin ⟨found, listed, place, label, _⟩ => ?_
  obtain ⟨j, bound, same⟩ := List.getElem_of_mem listed
  refine ⟨j, ?_, ?_⟩
  · rw [List.getElem?_map, List.getElem?_eq_getElem bound, same, Option.map_some, label]
  · rw [List.getElem?_map, List.getElem?_eq_getElem bound, same, Option.map_some, place]

theorem reads_tree {after : Store} {t : Outline NodeId} {start : Nat} (follows : Follows store.links t)
    (reads : ∀ row ∈ t.rows none start, Reads store after row) : ∀ row ∈ t.rows none start, after.Tree row.place := by
  -- children stand later, and there is a last place
  have step : ∀ (room : Nat), ∀ row ∈ t.rows none start, start + t.labels.length ≤ row.place + room →
      after.Tree row.place := by
    intro room
    induction room with
    | zero =>
      intro row member short
      have place : row.place ∈ List.range' start t.labels.length :=
        rows_place none start t ▸ List.mem_map_of_mem member
      exact absurd (List.mem_range'_1.mp place).2 (Nat.not_lt_of_ge short)
    | succ room ih =>
      intro row member enough
      obtain ⟨_, twin, _, found, _⟩ := (reads row member).copied
      have listed : twin.payload.children = row.children := by
        rw [← (reads row member).children, childrenOf, found, Option.map_some, Option.getD_some]
      refine .mk found fun child here => ?_
      rw [listed] at here
      obtain ⟨linked, _, stand⟩ := rows_children none start follows row member
      have later := rows_ascend none start t row member child here
      obtain ⟨below, also, rfl, _⟩ := mem_stands stand here
      exact ih below also (by omega)
  intro row member
  exact step (start + t.labels.length) row member (Nat.le_add_left ..)

end

/-- `copy` is a deep copy of a node tree in the store after cloning. -/
structure DeepCopy (store after : Store) (id copy : NodeId) : Prop where
  tree : after.Tree copy
  parentless : after.parentOf copy = none
  nodes : List.Forall₂ (fun x y => ∃ node twin, store.get? x = some node ∧ after.get? y = some twin ∧ node.CopyOf twin)
    (store.walk id) (after.walk copy)
  /-- The children of a copied node are the copies of its children, in their order. -/
  shape : ∀ i x y : Nat, (store.walk id)[i]? = some x → (after.walk copy)[i]? = some y →
    List.Forall₂ (fun child twin => ∃ j : Nat, (store.walk id)[j]? = some child ∧ (after.walk copy)[j]? = some twin)
      (store.childrenOf x) (after.childrenOf y)
  linked : ∀ x ∈ after.walk copy, ∀ y ∈ after.walk copy, y ∈ after.childrenOf x ↔ after.parentOf y = some x
  distinct : (after.walk copy).Nodup
  /-- The copied nodes are new, so a change of one reaches no old node, and no change of an old node reaches them. -/
  fresh : ∀ y ∈ after.walk copy, store.size ≤ y ∧ ∀ x < store.size, ∀ change,
    (after.modify y change).get? x = store.get? x ∧ (after.modify x change).get? y = after.get? y
  kept : ∀ x < store.size, after.get? x = store.get? x
  materials : after.materials = store.materials

/-- A clone beside its original: the table of the outline lists the original nodes as labels and the copies as places. -/
structure Cloned (store after : Store) (id : NodeId) (t : Outline NodeId) : Prop where
  follows : Follows store.links t
  reads : ∀ row ∈ t.rows none store.size, Reads store after row
  original : store.walk id = (t.rows none store.size).map Row.label
  copied : after.walk store.size = (t.rows none store.size).map Row.place
  kept : ∀ x < store.size, after.get? x = store.get? x
  materials : after.materials = store.materials

theorem clone_cloned {store : Store} {id : NodeId} (tree : store.Tree id) :
    ∃ after, store.clone id = (store.size, after) ∧ Cloned store after id (store.outline id) := by
  obtain ⟨_, follows⟩ := outline_follows tree
  obtain ⟨copies, twins, cloned⟩ := clone_append tree
  have reads := twins_read follows twins
  have low := follows_height follows
  refine ⟨_, cloned, follows, reads, ?_, ?_, fun x => get_append_old store copies, rfl⟩
  · rw [walk_labels, rows_label]
  · rw [rows_place]
    refine walkWithin_rows none store.size _ (fun row member => (reads row member).children) _ ?_
    rw [size_append]
    omega

theorem fresh_of_cloned {store after : Store} {id : NodeId} {t : Outline NodeId} (cloned : Cloned store after id t)
    {y : NodeId} (member : y ∈ after.walk store.size) : store.size ≤ y := by
  rw [cloned.copied, rows_place] at member
  exact (List.mem_range'_1.mp member).1

/-- Cloning a node tree makes a deep copy of it. -/
theorem clone_deep_copy {store : Store} {id : NodeId} (tree : store.Tree id) :
    DeepCopy store (store.clone id).2 id (store.clone id).1 := by
  obtain ⟨after, made, cloned⟩ := clone_cloned tree
  obtain ⟨top, first, place, _, root⟩ := first_stands none store.size (store.outline id)
  rw [made]
  refine
    { tree := place ▸ reads_tree cloned.follows cloned.reads top first
      parentless := place ▸ (cloned.reads top first).parent.trans root
      nodes := ?_
      shape := ?_
      linked := ?_
      distinct := ?_
      fresh := ?_
      kept := cloned.kept
      materials := cloned.materials }
  · rw [cloned.original, cloned.copied, List.forall₂_map_left_iff, List.forall₂_map_right_iff, List.forall₂_same]
    exact fun row member => (cloned.reads row member).copied
  · rw [cloned.original, cloned.copied]
    intro i x y atX atY
    rw [List.getElem?_map, Option.map_eq_some_iff] at atX atY
    obtain ⟨row, here, rfl⟩ := atX
    obtain ⟨also, here', rfl⟩ := atY
    obtain rfl := Option.some.inj (here.symm.trans here')
    exact reads_shape cloned.follows cloned.reads (List.mem_of_getElem? here)
  · rw [cloned.copied]
    intro x atX y atY
    obtain ⟨above, here, rfl⟩ := List.mem_map.mp atX
    obtain ⟨row, member, rfl⟩ := List.mem_map.mp atY
    exact reads_linked cloned.follows cloned.reads here member
  · rw [cloned.copied, rows_place]
    exact List.nodup_range'
  · intro y member
    have new := fresh_of_cloned cloned member
    refine ⟨new, fun x old change => ⟨?_, ?_⟩⟩
    · rw [get_modify_elsewhere after change (old.trans_le new).ne, cloned.kept x old]
    · exact get_modify_elsewhere after change (old.trans_le new).ne'

/-- A hall with a group of a disposed drawable, a closed curve and a field. -/
def gallery : Store where
  nodes := #[
    Node.ofPayload "hall" (.container [1]),
    { Node.ofPayload "group" (.container [2, 3, 4]) with parent := some 0, visible := false },
    { Node.ofPayload "box" (.drawable (some ⟨"box", [(.text "size", .int 2)], true⟩) (some 0)) with
      parent := some 1, disposed := true },
    { Node.ofPayload "path" (.curve ⟨[Vec3.zero, Vec3.one], true⟩) with parent := some 1 },
    { Node.ofPayload "wind" (.field [[.int 0]] [[.float 1.0]]) with parent := some 1 }]
  materials := #[Material.fallback]

theorem gallery_tree : gallery.Tree 1 := by
  have leaf : ∀ child ∈ [2, 3, 4], gallery.Tree child := by
    rintro child (_ | ⟨_, _ | ⟨_, _ | ⟨_, ⟨⟩⟩⟩⟩)
    · exact .mk rfl (by rintro _ ⟨⟩)
    · exact .mk rfl (by rintro _ ⟨⟩)
    · exact .mk rfl (by rintro _ ⟨⟩)
  exact .mk rfl leaf

theorem clone_deep_copy_gallery : gallery.Tree 1 ∧ DeepCopy gallery (gallery.clone 1).2 1 (gallery.clone 1).1 :=
  ⟨gallery_tree, clone_deep_copy gallery_tree⟩

end Store

end ProceduralScene
