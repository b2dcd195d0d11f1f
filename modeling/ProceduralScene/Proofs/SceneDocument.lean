import ProceduralScene.Export.Gltf
import ProceduralScene.Proofs.DeepCopy

/-!
The document of a scene tree. Its nodes are the rows of the outline of the tree, each made from the node that is its
label, and its materials are those that the nodes use, in the order of their first use.
-/

set_option autoImplicit false

namespace ProceduralScene

namespace Gltf

/-! ### Materials -/

/-- The materials of a document after one more use. -/
def note (materials : List MaterialId) (id : MaterialId) : List MaterialId := (materialIndex id materials).2

def noteAll (materials uses : List MaterialId) : List MaterialId := uses.foldl note materials

theorem note_eq (materials : List MaterialId) (id : MaterialId) :
    note materials id = if id ∈ materials then materials else materials ++ [id] := by
  unfold note materialIndex
  cases found : materials.idxOf? id with
  | none => rw [if_neg (List.idxOf?_eq_none_iff.mp found)]
  | some index =>
    have member : id ∈ materials := by
      rw [← List.isSome_idxOf?, found]
      rfl
    rw [if_pos member]

theorem materialIndex_note (materials : List MaterialId) (id : MaterialId) :
    (note materials id)[(materialIndex id materials).1]? = some id := by
  unfold note materialIndex
  cases found : materials.idxOf? id with
  | none => simp
  | some index =>
    obtain ⟨bound, same, _⟩ := List.idxOf?_eq_some_iff.mp found
    exact List.getElem?_eq_some_iff.mpr ⟨bound, same⟩

theorem note_grows (materials : List MaterialId) (id : MaterialId) : materials <+: note materials id := by
  rw [note_eq]
  split
  · exact List.prefix_rfl
  · exact List.prefix_append _ _

theorem noteAll_grows (materials uses : List MaterialId) : materials <+: noteAll materials uses := by
  induction uses generalizing materials with
  | nil => exact List.prefix_rfl
  | cons id rest ih => exact (note_grows materials id).trans (ih _)

theorem noteAll_append (materials uses more : List MaterialId) :
    noteAll materials (uses ++ more) = noteAll (noteAll materials uses) more := List.foldl_append

/-- What was used is noted once each, in the order of the first uses. -/
theorem noteAll_eraseDups (uses : List MaterialId) : noteAll [] uses = uses.eraseDups ∧ (noteAll [] uses).Nodup := by
  induction uses using List.reverseRecOn with
  | nil => exact ⟨rfl, List.nodup_nil⟩
  | append_singleton uses id ih =>
    obtain ⟨same, distinct⟩ := ih
    rw [noteAll_append, List.eraseDups_append, ← same]
    change note (noteAll [] uses) id = _ ∧ (note (noteAll [] uses) id).Nodup
    have known : id ∈ noteAll [] uses ↔ id ∈ uses := by rw [same, List.mem_eraseDups]
    rw [note_eq]
    by_cases used : id ∈ uses
    · rw [if_pos (known.mpr used)]
      exact ⟨by simp [List.removeAll, used], distinct⟩
    · rw [if_neg (mt known.mp used)]
      refine ⟨by simp [List.removeAll, used, List.eraseDups_cons], ?_⟩
      exact distinct.append (List.nodup_singleton id) (by simpa using mt known.mp used)

/-! ### Entries -/

/-- The material that a node uses. -/
def uses? (store : Store) (id : NodeId) : Option MaterialId := (store.get? id).bind (·.payload.material?)

/-- The node at an identity, if there is one, has no infinite rotation. -/
def Turnable (store : Store) (id : NodeId) : Prop :=
  ∀ node, store.get? id = some node → node.rotation.toList.any Float.isInf = false

/-- The document with more entries and later materials. -/
def extend (document : Gltf) (entries : List Gltf.Node) (materials : List MaterialId) : Gltf :=
  ⟨document.nodes ++ entries.toArray, materials⟩

/-- An entry is made from the label of a row, with the materials as they were then, and has the children of the row. -/
structure Describes (store : Store) (materials : List MaterialId) (row : Row NodeId) (entry : Gltf.Node) : Prop where
  children : entry.children = row.children
  made : ∃ node earlier, store.get? row.label = some node ∧
    nodeOf node (payloadExtras store earlier node.payload).1 = .ok { entry with children := [] } ∧
    (payloadExtras store earlier node.payload).2 <+: materials

theorem describes_mono {store : Store} {materials later : List MaterialId} (more : materials <+: later) {row : Row NodeId}
    {entry : Gltf.Node} (describes : Describes store materials row entry) : Describes store later row entry := by
  obtain ⟨children, node, earlier, found, made, known⟩ := describes
  exact ⟨children, node, earlier, found, made, known.trans more⟩

theorem payloadExtras_materials (store : Store) (materials : List MaterialId) (payload : Payload) :
    (payloadExtras store materials payload).2 = noteAll materials payload.material?.toList := by
  cases payload with
  | drawable geometry material => cases material <;> rfl
  | _ => rfl

theorem nodeOf_ok {node : ProceduralScene.Node} (turnable : node.rotation.toList.any Float.isInf = false) (extras : Bindings) :
    ∃ entry, nodeOf node extras = .ok entry ∧ entry.children = [] := by
  unfold nodeOf quaternion
  rw [turnable]
  exact ⟨_, rfl, rfl⟩

theorem extend_push (document : Gltf) (entry : Gltf.Node) (materials : List MaterialId) :
    (⟨document.nodes.push entry, materials⟩ : Gltf) = document.extend [entry] materials := by
  simp [extend]

theorem extend_extend (document : Gltf) (entries more : List Gltf.Node) (materials later : List MaterialId) :
    (document.extend entries materials).extend more later = document.extend (entries ++ more) later := by
  simp [extend]

theorem extend_setChildren (document : Gltf) (entry : Gltf.Node) (rest : List Gltf.Node) (materials : List MaterialId)
    (children : List Nat) :
    (document.extend (entry :: rest) materials).setChildren document.nodes.size children =
      document.extend ({ entry with children := children } :: rest) materials :=
  congrArg (fun nodes : Array Gltf.Node => (⟨nodes, materials⟩ : Gltf))
    (modify_append_cons document.nodes [] entry rest fun node => { node with children := children })

theorem size_extend (document : Gltf) (entries : List Gltf.Node) (materials : List MaterialId) :
    (document.extend entries materials).nodes.size = document.nodes.size + entries.length := by
  simp [extend]

section

open Outline

variable {store : Store}

/-- On every outline up to a height whose nodes have no infinite rotation, a function adds the entries that the rows
describe, and notes the materials that the labels use. -/
def Adds (store : Store) (high : Nat) (addChild : NodeId → Gltf → Except Failure (Nat × Gltf)) : Prop :=
  ∀ (t : Outline NodeId) (document : Gltf), Follows store.links t → t.height ≤ high →
    (∀ id ∈ t.labels, Turnable store id) → ∀ parent, ∃ entries,
      List.Forall₂ (Describes store (noteAll document.materials (t.labels.filterMap (uses? store))))
        (t.rows parent document.nodes.size) entries ∧
      addChild t.label document = .ok (document.nodes.size,
        document.extend entries (noteAll document.materials (t.labels.filterMap (uses? store))))

/-- The entries of children follow one another, and what later ones note leaves the places of earlier materials. -/
theorem adds_children {high : Nat} {addChild : NodeId → Gltf → Except Failure (Nat × Gltf)} (adds : Adds store high addChild)
    (parent : Option Nat) : ∀ (ts : List (Outline NodeId)) (before : List Nat) (document : Gltf),
      (∀ t ∈ ts, Follows store.links t ∧ t.height ≤ high) → (∀ id ∈ labelsOfAll ts, Turnable store id) →
        ∃ entries, List.Forall₂ (Describes store (noteAll document.materials ((labelsOfAll ts).filterMap (uses? store))))
            (rowsOfAll parent document.nodes.size ts) entries ∧
          (ts.map label).foldlM (fun (state : List Nat × Gltf) child => do
              let (place, document) ← addChild child state.2
              return (state.1 ++ [place], document)) (before, document) =
            .ok (before ++ places document.nodes.size ts,
              document.extend entries (noteAll document.materials ((labelsOfAll ts).filterMap (uses? store)))) := by
  intro ts
  induction ts with
  | nil => exact fun before document _ _ => ⟨[], .nil, by simp [places, extend, noteAll, labelsOfAll]; rfl⟩
  | cons t rest ih =>
    intro before document each turnable
    obtain ⟨follows, low⟩ := each t List.mem_cons_self
    rw [labelsOfAll] at turnable ⊢
    obtain ⟨entries, described, added⟩ := adds t document follows low
      (fun id member => turnable id (List.mem_append_left _ member)) parent
    have long : document.nodes.size + t.labels.length = document.nodes.size + entries.length := by
      rw [← described.length_eq, length_rows]
    obtain ⟨more, others, rest⟩ := ih (before ++ [document.nodes.size])
      (document.extend entries (noteAll document.materials (t.labels.filterMap (uses? store))))
      (fun u member => each u (List.mem_cons_of_mem _ member)) (fun id member => turnable id (List.mem_append_right _ member))
    rw [size_extend, ← long] at others rest
    refine ⟨entries ++ more, ?_, ?_⟩
    · rw [rowsOfAll, List.filterMap_append, noteAll_append]
      refine List.rel_append (described.imp fun row entry => describes_mono (noteAll_grows _ _)) others
    · rw [List.map_cons, List.foldlM_cons, added]
      refine rest.trans ?_
      rw [places, List.filterMap_append, noteAll_append, extend_extend, List.append_assoc]
      rfl

theorem addWithin_zero {id : NodeId} {document : Gltf} {node : ProceduralScene.Node} (found : store.get? id = some node)
    {entry : Gltf.Node} (made : nodeOf node (payloadExtras store document.materials node.payload).1 = .ok entry) :
    addWithin store 0 id document = .ok (document.nodes.size,
      document.extend [entry] (payloadExtras store document.materials node.payload).2) := by
  rw [addWithin, found]
  dsimp only
  rw [made, ← extend_push]
  rfl

theorem addWithin_succ {id : NodeId} {document : Gltf} {node : ProceduralScene.Node} (found : store.get? id = some node)
    {entry : Gltf.Node} (made : nodeOf node (payloadExtras store document.materials node.payload).1 = .ok entry)
    (depth : Nat) : addWithin store (depth + 1) id document = (do
      let (children, filled) ← node.payload.children.foldlM (fun (state : List Nat × Gltf) child => do
          let (place, document) ← addWithin store depth child state.2
          return (state.1 ++ [place], document))
        ([], document.extend [entry] (payloadExtras store document.materials node.payload).2)
      return (document.nodes.size, filled.setChildren document.nodes.size children)) := by
  rw [addWithin, found]
  dsimp only
  rw [made, ← extend_push]
  rfl

theorem use_noted {id : NodeId} {node : ProceduralScene.Node} (found : store.get? id = some node) (materials : List MaterialId)
    (more : List NodeId) : noteAll materials ((id :: more).filterMap (uses? store)) =
      noteAll (payloadExtras store materials node.payload).2 (more.filterMap (uses? store)) := by
  rw [payloadExtras_materials, ← noteAll_append, List.filterMap_cons, uses?, found, Option.bind_some]
  cases node.payload.material? <;> rfl

theorem describes_made {id : NodeId} {node : ProceduralScene.Node} (found : store.get? id = some node)
    {materials : List MaterialId} {entry : Gltf.Node}
    (made : nodeOf node (payloadExtras store materials node.payload).1 = .ok entry) (barren : entry.children = [])
    (place : Nat) (parent : Option Nat) (children : List Nat) :
    Describes store (payloadExtras store materials node.payload).2 ⟨place, id, parent, children⟩
      { entry with children := children } := by
  refine ⟨rfl, node, materials, found, ?_, List.prefix_rfl⟩
  rw [made, ← barren]

/-- With enough depth a scene tree without infinite rotations adds the entries that its rows describe. -/
theorem addWithin_adds (depth : Nat) : Adds store (depth + 1) (addWithin store depth) := by
  induction depth with
  | zero =>
    rintro ⟨here, inner⟩ document follows low turnable parent
    obtain ⟨node, found, _⟩ := Store.follows_node follows
    rw [height, Nat.add_le_add_iff_right] at low
    obtain rfl := eq_nil_of_heightAll low
    obtain ⟨entry, made, barren⟩ := nodeOf_ok (turnable here List.mem_cons_self node found)
      (payloadExtras store document.materials node.payload).1
    have top := describes_made found made barren document.nodes.size parent []
    rw [show { entry with children := [] } = entry by rw [← barren]] at top
    rw [label, labels, labelsOfAll, use_noted found, addWithin_zero found made]
    exact ⟨[entry], .cons top .nil, rfl⟩
  | succ depth ih =>
    rintro ⟨here, inner⟩ document follows low turnable parent
    obtain ⟨node, found, listed, below⟩ := Store.follows_node follows
    rw [height, Nat.add_le_add_iff_right, heightAll_le] at low
    obtain ⟨entry, made, barren⟩ := nodeOf_ok (turnable here List.mem_cons_self node found)
      (payloadExtras store document.materials node.payload).1
    have top := describes_made found made barren document.nodes.size parent (places (document.nodes.size + 1) inner)
    obtain ⟨entries, described, added⟩ := adds_children ih (some document.nodes.size) inner []
      (document.extend [entry] (payloadExtras store document.materials node.payload).2)
      (fun t member => ⟨below t member, low t member⟩) fun id member => turnable id (List.mem_cons_of_mem _ member)
    rw [size_extend] at described added
    rw [label, labels, use_noted found, addWithin_succ found made, listed, added]
    refine ⟨_, .cons (describes_mono (noteAll_grows _ _) top) described, ?_⟩
    rw [extend_extend]
    exact congrArg (fun filled => Except.ok (document.nodes.size, filled)) (extend_setChildren ..)

/-- On every outline up to a height with an infinite rotation, a function fails. -/
def Refuses (store : Store) (high : Nat) (addChild : NodeId → Gltf → Except Failure (Nat × Gltf)) : Prop :=
  ∀ (t : Outline NodeId) (document : Gltf), Follows store.links t → t.height ≤ high →
    (∃ id ∈ t.labels, ¬ Turnable store id) → addChild t.label document = .error .badContent

theorem refuses_children {high : Nat} {addChild : NodeId → Gltf → Except Failure (Nat × Gltf)} (adds : Adds store high addChild)
    (refuses : Refuses store high addChild) (ts : List (Outline NodeId)) (before : List Nat) (document : Gltf)
    (each : ∀ t ∈ ts, Follows store.links t ∧ t.height ≤ high) (stuck : ∃ id ∈ labelsOfAll ts, ¬ Turnable store id) :
    (ts.map label).foldlM (fun (state : List Nat × Gltf) child => do
        let (place, document) ← addChild child state.2
        return (state.1 ++ [place], document)) (before, document) = .error .badContent := by
  induction ts generalizing before document with
  | nil => obtain ⟨id, ⟨⟩, _⟩ := stuck
  | cons t rest ih =>
    obtain ⟨follows, low⟩ := each t List.mem_cons_self
    rw [List.map_cons, List.foldlM_cons]
    by_cases first : ∃ id ∈ t.labels, ¬ Turnable store id
    · rw [refuses t document follows low first]
      rfl
    · have turnable : ∀ id ∈ t.labels, Turnable store id := by simpa using first
      obtain ⟨entries, _, added⟩ := adds t document follows low turnable none
      rw [added]
      refine ih _ _ (fun u member => each u (List.mem_cons_of_mem _ member)) ?_
      obtain ⟨id, member, infinite⟩ := stuck
      rw [labelsOfAll] at member
      exact ⟨id, (List.mem_append.mp member).resolve_left fun here => infinite (turnable id here), infinite⟩

theorem addWithin_infinite {id : NodeId} {node : ProceduralScene.Node} (found : store.get? id = some node)
    (infinite : node.rotation.toList.any Float.isInf = true) (depth : Nat) (document : Gltf) :
    addWithin store depth id document = .error .badContent := by
  have refused : ∀ extras, nodeOf node extras = .error .badContent := by
    intro extras
    unfold nodeOf quaternion
    rw [infinite]
    rfl
  cases depth <;> (rw [addWithin, found]; dsimp only; rw [refused]; rfl)

theorem infinite_below {here : NodeId} {inner : List (Outline NodeId)} {node : ProceduralScene.Node}
    (found : store.get? here = some node) (finite : node.rotation.toList.any Float.isInf = false)
    (stuck : ∃ id ∈ (Outline.mk here inner).labels, ¬ Turnable store id) : ∃ id ∈ labelsOfAll inner, ¬ Turnable store id := by
  obtain ⟨id, member, infinite⟩ := stuck
  rcases List.mem_cons.mp member with rfl | below
  · refine absurd (fun other also => ?_) infinite
    rwa [← Option.some.inj (found.symm.trans also)]
  · exact ⟨id, below, infinite⟩

/-- With enough depth a scene tree with an infinite rotation gives no document. -/
theorem addWithin_refuses (depth : Nat) : Refuses store (depth + 1) (addWithin store depth) := by
  induction depth with
  | zero =>
    rintro ⟨here, inner⟩ document follows low stuck
    obtain ⟨node, found, _⟩ := Store.follows_node follows
    rw [height, Nat.add_le_add_iff_right] at low
    obtain rfl := eq_nil_of_heightAll low
    by_cases top : node.rotation.toList.any Float.isInf = true
    · exact addWithin_infinite found top 0 document
    · obtain ⟨id, ⟨⟩, _⟩ := infinite_below found (eq_false_of_ne_true top) stuck
  | succ depth ih =>
    rintro ⟨here, inner⟩ document follows low stuck
    obtain ⟨node, found, listed, below⟩ := Store.follows_node follows
    rw [height, Nat.add_le_add_iff_right, heightAll_le] at low
    by_cases top : node.rotation.toList.any Float.isInf = true
    · exact addWithin_infinite found top (depth + 1) document
    · obtain ⟨entry, made, _⟩ := nodeOf_ok (eq_false_of_ne_true top)
        (payloadExtras store document.materials node.payload).1
      rw [label, addWithin_succ found made, listed, refuses_children (addWithin_adds depth) ih inner _ _
        (fun t member => ⟨below t member, low t member⟩) (infinite_below found (eq_false_of_ne_true top) stuck)]
      rfl

/-- A scene tree with an infinite rotation has no document. -/
theorem ofScene_infinite {root : NodeId} (tree : store.Tree root) (stuck : ∃ id ∈ store.walk root, ¬ Turnable store id) :
    ofScene store root = .error .badContent := by
  obtain ⟨here, follows⟩ := Store.outline_follows tree
  rw [Store.walk_labels] at stuck
  have refused := addWithin_refuses store.size (store.outline root) ⟨#[], []⟩ follows
    (Nat.le_succ_of_le (Store.follows_height follows)) stuck
  rw [here] at refused
  rw [ofScene, refused]
  rfl

/-- The document of a scene tree has the entries that the rows of its outline describe. -/
theorem ofScene_extend {root : NodeId} (tree : store.Tree root) (turnable : ∀ id ∈ store.walk root, Turnable store id) :
    ∃ entries, List.Forall₂ (Describes store (noteAll [] ((store.walk root).filterMap (uses? store))))
        ((store.outline root).rows none 0) entries ∧
      ofScene store root = .ok ⟨entries.toArray, noteAll [] ((store.walk root).filterMap (uses? store))⟩ := by
  obtain ⟨here, follows⟩ := Store.outline_follows tree
  rw [Store.walk_labels] at turnable ⊢
  obtain ⟨entries, described, added⟩ := addWithin_adds store.size (store.outline root) ⟨#[], []⟩ follows
    (Nat.le_succ_of_le (Store.follows_height follows)) turnable none
  refine ⟨entries, described, ?_⟩
  rw [here] at added
  rw [ofScene, added]
  simp [extend]

end

/-! ### What the document tells -/

/-- An entry tells of a node: its name, kind and transform, and where its own material is. -/
structure Tells (materials : List MaterialId) (node : ProceduralScene.Node) (entry : Gltf.Node) : Prop where
  name : entry.name = node.name
  translation : entry.translation = node.position.toList
  rotation : quaternion node.rotation = .ok entry.rotation
  scale : entry.scale = node.scale.toList
  kind : entry.extras.lookup "kind" = some (.text node.payload.kind)
  material : ∀ id, node.payload.material? = some id → ∃ k : Nat,
    entry.extras.lookup "material" = some (.int k) ∧ materials[k]? = some id
  plain : node.payload.material? = none → entry.extras.lookup "material" = none

theorem payloadExtras_material (store : Store) (materials : List MaterialId) (payload : Payload) :
    (payloadExtras store materials payload).1.lookup "material" =
      payload.material?.map fun id => .int (materialIndex id materials).1 := by
  cases payload with
  | drawable geometry material => cases geometry <;> cases material <;> rfl
  | _ => rfl

theorem nodeOf_tells {store : Store} {node : ProceduralScene.Node} {earlier materials : List MaterialId} {entry : Gltf.Node}
    (made : nodeOf node (payloadExtras store earlier node.payload).1 = .ok { entry with children := [] })
    (known : (payloadExtras store earlier node.payload).2 <+: materials) : Tells materials node entry := by
  unfold nodeOf at made
  cases turned : quaternion node.rotation with
  | error failure =>
    rw [turned] at made
    cases made
  | ok rotation =>
    rw [turned] at made
    obtain ⟨name, translation, same, scale, children, extras⟩ := entry
    cases made
    have passed : ∀ key content, key ≠ "kind" → key ≠ "visible" → ([("kind", Value.text node.payload.kind)] ++
        (if node.visible then [] else [("visible", Value.bool false)]) ++ content).lookup key = content.lookup key := by
      intro key content notKind notVisible
      cases node.visible <;> simp [List.lookup_cons, beq_false_of_ne notKind, beq_false_of_ne notVisible]
    have used := (passed "material" _ (by decide) (by decide)).trans (payloadExtras_material store earlier node.payload)
    refine ⟨rfl, rfl, turned, rfl, rfl, fun id uses => ⟨(materialIndex id earlier).1, ?_, ?_⟩, fun none => ?_⟩
    · exact used.trans (by rw [uses]; rfl)
    · obtain ⟨bound, here⟩ := List.getElem?_eq_some_iff.mp (materialIndex_note earlier id)
      rw [payloadExtras_materials, uses] at known
      exact (List.prefix_iff_getElem?.mp known _ bound).trans (congrArg some here)
    · exact used.trans (by rw [none]; rfl)

/-- The kind that the extras of an entry name. -/
def Node.kind? (entry : Node) : Option String :=
  match entry.extras.lookup "kind" with
  | some (.text kind) => some kind
  | _ => none

theorem tells_kind {materials : List MaterialId} {node : ProceduralScene.Node} {entry : Node}
    (tells : Tells materials node entry) : entry.kind? = some node.payload.kind := by
  rw [Node.kind?, tells.kind]

/-- The names and kinds of an entry and of what is below it, down to a depth. -/
def outlineWithin (document : Gltf) : Nat → Nat → Option (Outline (String × String))
  | 0, _ => none
  | depth + 1, i => do
    let entry ← document.nodes[i]?
    let kind ← entry.kind?
    let inner ← entry.children.mapM (document.outlineWithin depth)
    return ⟨(entry.name, kind), inner⟩

/-- The tree of names and kinds of a document. -/
def outline? (document : Gltf) : Option (Outline (String × String)) := document.outlineWithin document.nodes.size 0

/-- At the place of a row is an entry with its children and the name and kind of its label. -/
def Entered (document : Gltf) (named : NodeId → String × String) (row : Row NodeId) : Prop :=
  ∃ entry, document.nodes[row.place]? = some entry ∧ entry.children = row.children ∧
    entry.name = (named row.label).1 ∧ entry.kind? = some (named row.label).2

open Outline

mutual
/-- Where the rows of an outline are entered, their names and kinds are found again. -/
theorem outlineWithin_rows {document : Gltf} {named : NodeId → String × String} (parent : Option Nat) (start : Nat) :
    ∀ t : Outline NodeId, (∀ row ∈ t.rows parent start, Entered document named row) → ∀ depth, t.height ≤ depth →
      document.outlineWithin depth start = some (t.map named)
  | ⟨here, inner⟩ => by
    intro entered depth low
    rw [height] at low
    cases depth with
    | zero => exact absurd low (Nat.not_succ_le_zero _)
    | succ depth =>
      rw [rows] at entered
      obtain ⟨entry, read, children, name, kind⟩ := entered _ List.mem_cons_self
      have below := outlineWithin_places (some start) (start + 1) inner
        (fun row member => entered row (List.mem_cons_of_mem _ member)) depth (Nat.le_of_succ_le_succ low)
      simp only [outlineWithin, read, kind, children, below, name, Option.bind_eq_bind, Option.bind_some]
      rfl

theorem outlineWithin_places {document : Gltf} {named : NodeId → String × String} (parent : Option Nat) (start : Nat) :
    ∀ ts : List (Outline NodeId), (∀ row ∈ rowsOfAll parent start ts, Entered document named row) → ∀ depth,
      heightAll ts ≤ depth → (places start ts).mapM (document.outlineWithin depth) = some (mapAll named ts)
  | [] => fun _ _ _ => rfl
  | t :: rest => by
    intro entered depth low
    rw [heightAll, Nat.max_le] at low
    rw [rowsOfAll] at entered
    rw [places, List.mapM_cons,
      outlineWithin_rows parent start t (fun row first => entered row (List.mem_append_left _ first)) depth low.1,
      outlineWithin_places parent _ rest (fun row later => entered row (List.mem_append_right _ later)) depth low.2]
    rfl
end

def nameAndKind (store : Store) (id : NodeId) : String × String :=
  ((store.get? id).map fun node => (node.name, node.payload.kind)).getD ("", "")

section

variable {store : Store} {materials : List MaterialId} {t : Outline NodeId} {entries : List Node}

theorem described_at (described : List.Forall₂ (Describes store materials) (t.rows none 0) entries) {i : Nat} {entry : Node}
    (here : entries[i]? = some entry) : ∃ row ∈ t.rows none 0, row.place = i ∧ Describes store materials row entry := by
  obtain ⟨bound, same⟩ := List.getElem?_eq_some_iff.mp here
  have inside : i < (t.rows none 0).length := described.length_eq ▸ bound
  refine ⟨_, List.getElem_mem inside, (place_getElem none 0 t inside).trans (Nat.zero_add i), ?_⟩
  exact same ▸ described.get inside bound

theorem described_children {rows : List (Row NodeId)} (described : List.Forall₂ (Describes store materials) rows entries) :
    entries.flatMap Node.children = rows.flatMap Row.children := by
  induction described with
  | nil => rfl
  | cons first _ ih => rw [List.flatMap_cons, List.flatMap_cons, first.children, ih]

theorem described_entered (described : List.Forall₂ (Describes store materials) (t.rows none 0) entries) :
    ∀ row ∈ t.rows none 0, Entered ⟨entries.toArray, materials⟩ (nameAndKind store) row := by
  intro row member
  obtain ⟨i, inside, rfl⟩ := List.getElem_of_mem member
  have bound : i < entries.length := described.length_eq ▸ inside
  obtain ⟨children, node, earlier, found, made, known⟩ := described.get inside bound
  have tells := nodeOf_tells made known
  rw [List.get_eq_getElem] at found
  refine ⟨entries[i], ?_, children, ?_, ?_⟩
  · rw [place_getElem, Nat.zero_add, List.getElem?_toArray, List.getElem?_eq_getElem bound]
  · rw [nameAndKind, found]
    exact tells.name
  · rw [nameAndKind, found]
    exact tells_kind tells

end

/-- The document holds a scene tree without loss. -/
structure Encodes (store : Store) (root : NodeId) (document : Gltf) : Prop where
  nodes : List.Forall₂ (fun id entry => ∃ node, store.get? id = some node ∧ Tells document.materials node entry)
    (store.walk root) document.nodes.toList
  /-- The children of an entry are the places of the children of its node. -/
  children : ∀ (i : Nat) (id : NodeId) (entry : Node), (store.walk root)[i]? = some id → document.nodes[i]? = some entry →
    List.Forall₂ (fun child place => (store.walk root)[place]? = some child) (store.childrenOf id) entry.children
  /-- Every place but the first is listed once. -/
  once : (document.nodes.toList.flatMap Node.children).Perm (List.range' 1 (document.nodes.size - 1))
  later : ∀ (i : Nat) (entry : Node), document.nodes[i]? = some entry → ∀ place ∈ entry.children, i < place
  rebuilt : document.outline? = some ((store.outline root).map (nameAndKind store))
  materials : document.materials = ((store.walk root).filterMap (uses? store)).eraseDups
  distinct : document.materials.Nodup

/-- A scene tree without infinite rotations has a document that holds it without loss. -/
theorem encodes_of_turnable {store : Store} {root : NodeId} (tree : store.Tree root)
    (turnable : ∀ id ∈ store.walk root, Turnable store id) :
    ∃ document, ofScene store root = .ok document ∧ Encodes store root document := by
  obtain ⟨_, follows⟩ := Store.outline_follows tree
  obtain ⟨entries, described, made⟩ := ofScene_extend tree turnable
  refine ⟨_, made, ?_⟩
  obtain ⟨same, distinct⟩ := noteAll_eraseDups ((store.walk root).filterMap (uses? store))
  have long : entries.length = (store.outline root).labels.length := by rw [← described.length_eq, length_rows]
  refine ⟨?_, ?_, ?_, ?_, ?_, same, distinct⟩
  · rw [Store.walk_labels, ← rows_label none 0, List.forall₂_map_left_iff]
    refine described.imp fun row entry describes => ?_
    obtain ⟨node, earlier, found, made, known⟩ := describes.made
    rw [Store.walk_labels, ← rows_label none 0] at known
    exact ⟨node, found, nodeOf_tells made known⟩
  · intro i id entry here there
    obtain ⟨row, member, rfl, describes⟩ := described_at described (by rwa [List.getElem?_toArray] at there)
    rw [Store.walk_labels] at here ⊢
    obtain rfl := Option.some.inj ((labels_place member).symm.trans here)
    obtain ⟨linked, links, stand⟩ := rows_children none 0 follows row member
    rw [Store.links_childrenOf links, describes.children]
    refine stand.imp fun child place ⟨found, listed, there, label, _⟩ => ?_
    rw [← there, ← label]
    exact labels_place listed
  · rw [List.toList_toArray, List.size_toArray, described_children described, long]
    exact rows_perm none 0 (store.outline root)
  · intro i entry here
    obtain ⟨row, member, rfl, describes⟩ := described_at described (by rwa [List.getElem?_toArray] at here)
    rw [describes.children]
    exact rows_ascend none 0 (store.outline root) row member
  · refine outlineWithin_rows none 0 (store.outline root) (described_entered described) _ ?_
    rw [List.size_toArray, long]
    exact height_le_length (store.outline root)

/-- A scene tree has a document that holds it without loss, unless a node in it has an infinite rotation. -/
theorem ofScene_encodes {store : Store} {root : NodeId} (tree : store.Tree root) :
    ((∀ id ∈ store.walk root, Turnable store id) → ∃ document, ofScene store root = .ok document ∧
      Encodes store root document) ∧
    ((∃ id ∈ store.walk root, ¬ Turnable store id) → ofScene store root = .error .badContent) :=
  ⟨encodes_of_turnable tree, ofScene_infinite tree⟩

theorem ofScene_encodes_gallery : Store.gallery.Tree 1 ∧ (∀ id ∈ Store.gallery.walk 1, Turnable Store.gallery id) ∧
    ∃ document, ofScene Store.gallery 1 = .ok document ∧ Encodes Store.gallery 1 document := by
  have turnable : ∀ id ∈ Store.gallery.walk 1, Turnable Store.gallery id := by
    rintro id (_ | ⟨_, _ | ⟨_, _ | ⟨_, _ | ⟨_, ⟨⟩⟩⟩⟩⟩) node found
    all_goals
      obtain rfl := Option.some.inj found
      decide
  exact ⟨Store.gallery_tree, turnable, (ofScene_encodes Store.gallery_tree).1 turnable⟩

/-- A group with a node that is turned infinitely far. -/
def turnedForever : Store where
  nodes := #[
    ProceduralScene.Node.ofPayload "g" (.container [1]),
    { ProceduralScene.Node.ofPayload "x" (.drawable none none) with
      rotation := ⟨1.0 / 0.0, 0.0, 0.0⟩, parent := some 0 }]
  materials := #[Material.fallback]

theorem exists_tree_without_document : ¬ ∀ (store : Store) (root : NodeId), store.Tree root →
    ∃ document, ofScene store root = .ok document ∧ Encodes store root document := by
  intro every
  have leaf : turnedForever.Tree 1 := .mk rfl (by rintro _ ⟨⟩)
  have tree : turnedForever.Tree 0 := .mk rfl (by rintro child (_ | ⟨_, ⟨⟩⟩); exact leaf)
  have failed : ofScene turnedForever 0 = .error .badContent := rfl
  obtain ⟨document, made, _⟩ := every turnedForever 0 tree
  rw [failed] at made
  cases made

end Gltf

end ProceduralScene
