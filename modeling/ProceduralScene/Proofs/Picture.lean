import Mathlib.Data.Finset.Lattice.Fold
import ProceduralScene.Proofs.SceneSteps

/-!
Pictures: what a node and everything below it look like, whichever nodes they are and whether they were disposed. A
copy shows the picture of its original, and so does a node after everything below it is moved along or disposed.
-/

set_option autoImplicit false

namespace ProceduralScene

/-- The look of a node, as a copy of it has it, over the pictures of its children. -/
inductive Picture where
  | mk (look : Node) (inner : List Picture)

namespace Picture

mutual
/-- A change of every look. -/
def map (change : Node → Node) : Picture → Picture
  | ⟨look, inner⟩ => ⟨change look, mapAll change inner⟩

def mapAll (change : Node → Node) : List Picture → List Picture
  | [] => []
  | p :: rest => map change p :: mapAll change rest
end

/-- A change of the uppermost look. -/
def onTop (change : Node → Node) : Picture → Picture
  | ⟨look, inner⟩ => ⟨change look, inner⟩

mutual
def height : Picture → Nat
  | ⟨_, inner⟩ => heightAll inner + 1

def heightAll : List Picture → Nat
  | [] => 0
  | p :: rest => max (height p) (heightAll rest)
end

mutual
/-- How many looks have a geometry. -/
def geometries : Picture → Nat
  | ⟨look, inner⟩ => (if look.liveGeometry then 1 else 0) + geometriesOfAll inner

def geometriesOfAll : List Picture → Nat
  | [] => 0
  | p :: rest => geometries p + geometriesOfAll rest
end

mutual
theorem map_map {f g : Node → Node} : ∀ p : Picture, (p.map f).map g = p.map fun look => g (f look)
  | ⟨look, inner⟩ => by rw [map, map, map, mapAll_mapAll inner]

theorem mapAll_mapAll {f g : Node → Node} : ∀ ps : List Picture,
    mapAll g (mapAll f ps) = mapAll (fun look => g (f look)) ps
  | [] => rfl
  | p :: rest => by rw [mapAll, mapAll, mapAll, map_map p, mapAll_mapAll rest]
end

mutual
theorem map_id : ∀ p : Picture, p.map (fun look => look) = p
  | ⟨look, inner⟩ => by rw [map, mapAll_id inner]

theorem mapAll_id : ∀ ps : List Picture, mapAll (fun look => look) ps = ps
  | [] => rfl
  | p :: rest => by rw [mapAll, map_id p, mapAll_id rest]
end

theorem onTop_onTop {f g : Node → Node} (p : Picture) : (p.onTop f).onTop g = p.onTop fun look => g (f look) := by
  cases p
  rfl

/-- The uppermost look and all looks can be changed in any order when the changes of one look can. -/
theorem map_onTop {f g : Node → Node} (commute : ∀ look, g (f look) = f (g look)) (p : Picture) :
    (p.onTop f).map g = (p.map g).onTop f := by
  obtain ⟨look, inner⟩ := p
  rw [onTop, map, map, onTop, commute]

end Picture

namespace Store

/-- What a copy of a node alone would look like. -/
def look? (store : Store) (id : NodeId) : Option Node := (store.get? id).map Node.copyWithoutChildren

mutual
/-- A node and what is below it look like a picture. -/
inductive Shows (store : Store) : NodeId → Picture → Prop where
  | mk {id : NodeId} {look : Node} {inner : List Picture} (here : store.look? id = some look)
      (below : ShowsAll store (store.childrenOf id) inner) : Shows store id ⟨look, inner⟩

inductive ShowsAll (store : Store) : List NodeId → List Picture → Prop where
  | nil : ShowsAll store [] []
  | cons {id : NodeId} {ids : List NodeId} {p : Picture} {ps : List Picture} (first : Shows store id p)
      (rest : ShowsAll store ids ps) : ShowsAll store (id :: ids) (p :: ps)
end

section

variable {store store' : Store}

theorem look_of_get {x : NodeId} (same : store'.get? x = store.get? x) : store'.look? x = store.look? x := by
  rw [look?, look?, same]

theorem copy_of_bare (node : Node) : node.bare.copyWithoutChildren = node.copyWithoutChildren := by
  unfold Node.bare Node.copyWithoutChildren
  cases node.payload <;> rfl

theorem look_of_bare {x : NodeId} (same : store'.bare? x = store.bare? x) : store'.look? x = store.look? x := by
  have read : ∀ s : Store, s.look? x = (s.bare? x).map Node.copyWithoutChildren := by
    intro s
    simp only [look?, bare?, Option.map_map, Function.comp_def, copy_of_bare]
  rw [read, read, same]

theorem look_lt {x : NodeId} {look : Node} (here : store.look? x = some look) : x < store.size := by
  obtain ⟨node, found, _⟩ := Option.map_eq_some_iff.mp here
  exact get_some_lt found

theorem shows_lt {id : NodeId} {p : Picture} (shown : Shows store id p) : id < store.size := by
  cases shown with
  | mk here _ => exact look_lt here

mutual
theorem shows_unique {id : NodeId} {p q : Picture} (left : Shows store id p) (right : Shows store id q) : p = q := by
  cases left with
  | mk here below =>
    cases right with
    | mk here' below' =>
      rw [here] at here'
      rw [Option.some.inj here', showsAll_unique below below']

theorem showsAll_unique {ids : List NodeId} {ps qs : List Picture} (left : ShowsAll store ids ps)
    (right : ShowsAll store ids qs) : ps = qs := by
  cases left with
  | nil =>
    cases right
    rfl
  | cons first rest =>
    cases right with
    | cons first' rest' => rw [shows_unique first first', showsAll_unique rest rest']
end

theorem showsAll_append {ids ids' : List NodeId} {ps ps' : List Picture} (first : ShowsAll store ids ps)
    (rest : ShowsAll store ids' ps') : ShowsAll store (ids ++ ids') (ps ++ ps') := by
  cases first with
  | nil => exact rest
  | cons here later => exact .cons here (showsAll_append later rest)

theorem showsAll_mem {ids : List NodeId} {ps : List Picture} (shown : ShowsAll store ids ps) {id : NodeId}
    (member : id ∈ ids) : ∃ p ∈ ps, Shows store id p := by
  cases shown with
  | nil => cases member
  | @cons _ _ p _ first rest =>
    rcases List.mem_cons.mp member with rfl | later
    · exact ⟨p, by simp, first⟩
    · obtain ⟨q, listed, shown⟩ := showsAll_mem rest later
      exact ⟨q, by simp [listed], shown⟩

theorem showsAll_of_each {ids : List NodeId} (each : ∀ id ∈ ids, ∃ p, Shows store id p) :
    ∃ ps, ShowsAll store ids ps := by
  induction ids with
  | nil => exact ⟨[], .nil⟩
  | cons id rest ih =>
    obtain ⟨p, first⟩ := each id (by simp)
    obtain ⟨ps, others⟩ := ih fun other member => each other (by simp [member])
    exact ⟨p :: ps, .cons first others⟩

/-! ### Changes of the store -/

theorem below_child (linked : Linked store) {c a x : NodeId} (listed : c ∈ store.childrenOf a) (below : Below store c x) :
    Below store a x := below_trans (.child ((linked.agree c a).mp listed) .top) below

mutual
/-- Every look below a node is changed alike, and the children stay. -/
theorem shows_map (linked : Linked store) {change : Node → Node} {id : NodeId} {p : Picture}
    (looks : ∀ x, Below store id x → store'.look? x = (store.look? x).map change)
    (children : ∀ x, Below store id x → store'.childrenOf x = store.childrenOf x) (shown : Shows store id p) :
    Shows store' id (p.map change) := by
  cases shown with
  | mk here below =>
    rw [Picture.map]
    refine .mk (by rw [looks id .top, here, Option.map_some]) ?_
    rw [children id .top]
    apply showsAll_map linked _ _ below
    · exact fun c listed x inside => looks x (below_child linked listed inside)
    · exact fun c listed x inside => children x (below_child linked listed inside)

theorem showsAll_map (linked : Linked store) {change : Node → Node} {ids : List NodeId} {ps : List Picture}
    (looks : ∀ id ∈ ids, ∀ x, Below store id x → store'.look? x = (store.look? x).map change)
    (children : ∀ id ∈ ids, ∀ x, Below store id x → store'.childrenOf x = store.childrenOf x)
    (shown : ShowsAll store ids ps) : ShowsAll store' ids (Picture.mapAll change ps) := by
  cases shown with
  | nil => exact .nil
  | cons first rest =>
    refine .cons (shows_map linked (looks _ (by simp)) (children _ (by simp)) first) ?_
    apply showsAll_map linked _ _ rest
    · exact fun id member => looks id (by simp [member])
    · exact fun id member => children id (by simp [member])
end

/-- Where looks and children below a node stay, so does its picture. -/
theorem shows_same (linked : Linked store) {id : NodeId} {p : Picture}
    (looks : ∀ x, Below store id x → store'.look? x = store.look? x)
    (children : ∀ x, Below store id x → store'.childrenOf x = store.childrenOf x) (shown : Shows store id p) :
    Shows store' id p := by
  have mapped : Shows store' id (p.map fun look => look) :=
    shows_map linked (fun x below => by rw [looks x below, Option.map_id']) children shown
  rwa [Picture.map_id] at mapped

theorem showsAll_each {ids : List NodeId} {ps : List Picture}
    (each : ∀ id ∈ ids, ∀ p, Shows store id p → Shows store' id p) (shown : ShowsAll store ids ps) :
    ShowsAll store' ids ps := by
  cases shown with
  | nil => exact .nil
  | cons first rest =>
    exact .cons (each _ (by simp) _ first) (showsAll_each (fun id member => each id (by simp [member])) rest)

theorem shows_of_get (linked : Linked store) {id : NodeId} {p : Picture}
    (same : ∀ x, Below store id x → store'.get? x = store.get? x) (shown : Shows store id p) : Shows store' id p :=
  shows_same linked (fun x below => look_of_get (same x below)) (fun x below => children_of_get (same x below)) shown

theorem showsAll_of_get (linked : Linked store) {ids : List NodeId} {ps : List Picture}
    (same : ∀ id ∈ ids, ∀ x, Below store id x → store'.get? x = store.get? x) (shown : ShowsAll store ids ps) :
    ShowsAll store' ids ps :=
  showsAll_each (fun id member _ => shows_of_get linked (same id member)) shown

/-- A change of one node shows at the top of its own picture. -/
theorem shows_modify (linked : Linked store) {change look : Node → Node} (keeps : KeepsLinks change)
    (copies : ∀ node, (change node).copyWithoutChildren = look node.copyWithoutChildren) {n : NodeId} {p : Picture}
    (shown : Shows store n p) : Shows (store.modify n change) n (p.onTop look) := by
  cases shown with
  | mk here below =>
    refine .mk ?_ ?_
    · obtain ⟨node, found, same⟩ := Option.map_eq_some_iff.mp here
      rw [look?, get_modify, if_pos rfl, found, Option.map_some, Option.map_some, copies, same]
    · rw [children_modify_keep store n keeps]
      apply showsAll_of_get linked _ below
      intro c listed x inside
      refine get_modify_elsewhere store change fun same => ?_
      exact not_below_own_child linked ((linked.agree c n).mp listed) (same ▸ inside)

/-- A node that goes into a container outside of a picture changes nothing in it. -/
theorem shows_add (linked : Linked store) {container child : NodeId}
    (isContainer : store.holds Payload.isContainer container = true) (parentless : store.parentOf child = none)
    {id : NodeId} {p : Picture} (outside : ¬ Below store id container) (shown : Shows store id p) :
    Shows (store.add container child) id p := by
  apply shows_same linked (fun x _ => look_of_bare (bare_add container child x)) _ shown
  intro x inside
  have elsewhere : x ≠ container := fun same => outside (same ▸ inside)
  have absent : child ∉ store.childrenOf x := fun listed => by
    rw [linked.agree, parentless] at listed
    cases listed
  rw [children_add linked isContainer, if_neg elsewhere, List.erase_of_not_mem absent]

end

/-! ### Every node shows a picture -/

section

variable {store : Store}

theorem shows_exists (linked : Linked store) {id : NodeId} (made : id < store.size) : ∃ p, Shows store id p := by
  obtain ⟨rank, grounded⟩ := linked.grounded
  -- children rank higher than their parents, and there is a highest rank
  have bounded : ∀ x ∈ Finset.range store.size, rank x ≤ (Finset.range store.size).sup rank := fun x member =>
    Finset.le_sup member
  generalize (Finset.range store.size).sup rank = highest at bounded
  have step : ∀ (room : Nat) (x : NodeId), x < store.size → highest - rank x < room → ∃ p, Shows store x p := by
    intro room
    induction room with
    | zero => exact fun x _ short => absurd short (Nat.not_lt_zero _)
    | succ room ih =>
      intro x made short
      obtain ⟨node, found⟩ := get_of_lt made
      have inner : ∃ ps, ShowsAll store (store.childrenOf x) ps := by
        apply showsAll_of_each
        intro c listed
        have link := (linked.agree c x).mp listed
        have higher := grounded c x link
        have below := bounded c (Finset.mem_range.mpr (parent_lt link))
        exact ih c (parent_lt link) (by omega)
      obtain ⟨ps, inner⟩ := inner
      exact ⟨_, .mk (by rw [look?, found, Option.map_some]) inner⟩
  exact step _ id made (Nat.lt_succ_self _)

mutual
/-- Down a picture there are as many different nodes as it is high. -/
theorem shows_chain (linked : Linked store) {rank : NodeId → Nat}
    (grounded : ∀ child parent, store.parentOf child = some parent → rank parent < rank child) {id : NodeId}
    {p : Picture} (shown : Shows store id p) :
    ∃ chain : List NodeId, chain.Nodup ∧ chain.length = p.height ∧
      ∀ y ∈ chain, y < store.size ∧ rank id ≤ rank y := by
  cases shown with
  | mk here below =>
    obtain ⟨chain, distinct, long, bounded⟩ := showsAll_chain linked grounded below fun c listed =>
      grounded c id ((linked.agree c id).mp listed)
    refine ⟨id :: chain, List.nodup_cons.mpr ⟨fun again => ?_, distinct⟩, by simp [Picture.height, long], ?_⟩
    · exact Nat.lt_irrefl _ (bounded id again).2
    · intro y member
      rcases List.mem_cons.mp member with rfl | later
      · exact ⟨look_lt here, Nat.le_refl _⟩
      · exact ⟨(bounded y later).1, Nat.le_of_lt (bounded y later).2⟩

theorem showsAll_chain (linked : Linked store) {rank : NodeId → Nat}
    (grounded : ∀ child parent, store.parentOf child = some parent → rank parent < rank child) {ids : List NodeId}
    {ps : List Picture} (shown : ShowsAll store ids ps) {low : Nat} (above : ∀ id ∈ ids, low < rank id) :
    ∃ chain : List NodeId, chain.Nodup ∧ chain.length = Picture.heightAll ps ∧
      ∀ y ∈ chain, y < store.size ∧ low < rank y := by
  cases shown with
  | nil => exact ⟨[], List.nodup_nil, rfl, by simp⟩
  | @cons id _ p ps first rest =>
    obtain ⟨chain, distinct, long, bounded⟩ := shows_chain linked grounded first
    obtain ⟨others, distinct', long', bounded'⟩ := showsAll_chain linked grounded rest fun id member =>
      above id (by simp [member])
    -- the longer chain is as long as the pictures are high
    rcases Nat.le_total (Picture.heightAll ps) p.height with taller | taller
    · refine ⟨chain, distinct, by rw [Picture.heightAll, Nat.max_eq_left taller, long], fun y member => ?_⟩
      exact ⟨(bounded y member).1, (above id (by simp)).trans_le (bounded y member).2⟩
    · exact ⟨others, distinct', by rw [Picture.heightAll, Nat.max_eq_right taller, long'], bounded'⟩
end

theorem shows_height (linked : Linked store) {id : NodeId} {p : Picture} (shown : Shows store id p) :
    p.height ≤ store.size := by
  obtain ⟨rank, grounded⟩ := linked.grounded
  obtain ⟨chain, distinct, long, bounded⟩ := shows_chain linked grounded shown
  exact long ▸ length_le_of_nodup_lt distinct fun y member => (bounded y member).1

end

/-! ### Copies -/

theorem below_lt {store : Store} {a x : NodeId} (below : Below store a x) (made : a < store.size) : x < store.size := by
  rcases below_cases below with rfl | ⟨_, link, _⟩
  · exact made
  · exact parent_lt link

theorem copy_of_copy (node : Node) : node.copyWithoutChildren.copyWithoutChildren = node.copyWithoutChildren := by
  unfold Node.copyWithoutChildren Payload.copyWithoutChildren
  cases node.payload with
  | drawable geometry material => cases geometry <;> rfl
  | _ => rfl

/-- What was there before shows the same after nodes were made. -/
theorem shows_later {store store' : Store} (linked : Linked store) (later : Confined store.New store store') {id : NodeId}
    {p : Picture} (shown : Shows store id p) : Shows store' id p := by
  apply shows_of_get linked _ shown
  intro x below
  exact later.old x (Nat.not_le_of_lt (below_lt below (shows_lt shown)))

section

variable {store : Store} {copy : NodeId} {cloneChild : NodeId → Store → NodeId × Store}

/-- The copies of the children show what the children show. -/
theorem showsAll_copies {room : Nat}
    (clones : ∀ child grown, Linked grown → child < grown.size → Copied grown (cloneChild child grown))
    (pictures : ∀ child grown p, Linked grown → p.height ≤ room → Shows grown child p →
      Shows (cloneChild child grown).2 (cloneChild child grown).1 p)
    (linked : Linked store) (fresh : store.New copy) (children : List NodeId) :
    ∀ (ps qs : List Picture) (grown : Store), ShowsAll store children ps → Picture.heightAll ps ≤ room →
      Copying store copy grown → (children ≠ [] → grown.holds Payload.isContainer copy = true) →
      ShowsAll grown (grown.childrenOf copy) qs →
      let last := children.foldl (fun grown child =>
        let (childCopy, grown) := cloneChild child grown
        grown.add copy childCopy) grown
      ShowsAll last (last.childrenOf copy) (qs ++ ps) ∧ last.look? copy = grown.look? copy := by
  induction children with
  | nil =>
    intro ps qs grown shown _ _ _ done
    cases shown
    exact ⟨by rwa [List.append_nil], rfl⟩
  | cons child rest ih =>
    intro ps qs grown shown low copying container done
    cases shown with
    | @cons _ _ p ps first others =>
      rw [Picture.heightAll, Nat.max_le] at low
      have linkedGrown := copying.sofar.linked linked
      have firstGrown := shows_later linked copying.sofar first
      have copied := clones child grown linkedGrown (shows_lt firstGrown)
      have same := pictures child grown p linkedGrown low.1 firstGrown
      rcases made : cloneChild child grown with ⟨childCopy, more⟩
      rw [made] at copied same
      obtain rfl : childCopy = grown.size := copied.id
      have next := nextCopy copying (container (by simp)) copied
      have linkedMore := next.sofar.linked linked
      obtain ⟨added, still⟩ := copying_add linked fresh copying.sofar.size next
      -- the copies made before stay as they are
      have kept : more.get? copy = grown.get? copy := copied.confined.old copy (Nat.not_le_of_lt copying.inside)
      have earlier : ShowsAll (more.add copy grown.size) (more.childrenOf copy) qs := by
        rw [children_of_get kept]
        refine showsAll_each (fun c listed q before => ?_) done
        apply shows_add linkedMore next.container next.parentless _ (shows_later linkedGrown copied.confined before)
        rw [← children_of_get kept] at listed
        exact not_below_own_child linkedMore ((linkedMore.agree c copy).mp listed)
      have absent : grown.size ∉ more.childrenOf copy := fun listed => by
        rw [linkedMore.agree, next.parentless] at listed
        cases listed
      have children : (more.add copy grown.size).childrenOf copy = more.childrenOf copy ++ [grown.size] := by
        rw [children_add linkedMore next.container, if_pos rfl, List.erase_of_not_mem absent]
      have now := showsAll_append earlier (.cons (shows_add linkedMore next.container next.parentless next.apart same) .nil)
      rw [← children] at now
      obtain ⟨all, look⟩ := ih ps _ _ others low.2 added (fun _ => still) now
      simp only [List.foldl_cons, made]
      refine ⟨by simpa using all, look.trans ?_⟩
      rw [look_of_bare (bare_add _ _ _), look_of_get kept]

end

theorem heightAll_zero {ps : List Picture} (low : Picture.heightAll ps = 0) : ps = [] := by
  cases ps with
  | nil => rfl
  | cons p rest =>
    obtain ⟨look, inner⟩ := p
    rw [Picture.heightAll, Picture.height] at low
    omega

/-- A node just made as a copy of another one, still without children. -/
theorem create_copy (store : Store) (node : Node) :
    (store.create node.copyWithoutChildren).2.look? store.size = some node.copyWithoutChildren ∧
      (store.create node.copyWithoutChildren).2.childrenOf store.size = [] ∧
      Copying store store.size (store.create node.copyWithoutChildren).2 := by
  have read : (store.create node.copyWithoutChildren).2.get? store.size = some node.copyWithoutChildren := by
    rw [get_create, if_pos rfl]
  refine ⟨by rw [look?, read, Option.map_some, copy_of_copy], by simp [childrenOf, read, copy_barren], ?_, by simp, ?_⟩
  · exact confined_create (copy_root node) (copy_barren node) (copy_pristine node)
  · simp [parentOf, read, copy_root]

theorem shows_cloneWithin (depth : Nat) : ∀ (id : NodeId) (store : Store) (p : Picture), Linked store →
    p.height ≤ depth + 1 → Shows store id p → Shows (cloneWithin depth id store).2 (cloneWithin depth id store).1 p := by
  induction depth with
  | zero =>
    intro id store p linked low shown
    cases shown with
    | @mk _ look inner here below =>
      obtain ⟨node, found, rfl⟩ := Option.map_eq_some_iff.mp here
      obtain ⟨same, childless, _⟩ := create_copy store node
      obtain rfl : inner = [] := heightAll_zero (by rw [Picture.height] at low; omega)
      rw [cloneWithin_zero found]
      exact .mk same (childless ▸ .nil)
  | succ depth ih =>
    intro id store p linked low shown
    cases shown with
    | @mk _ look inner here below =>
      obtain ⟨node, found, rfl⟩ := Option.map_eq_some_iff.mp here
      obtain ⟨same, childless, started⟩ := create_copy store node
      have listed : store.childrenOf id = node.payload.children := by simp [childrenOf, found]
      rw [listed] at below
      have container : node.payload.children ≠ [] →
          (store.create node.copyWithoutChildren).2.holds Payload.isContainer store.size = true := by
        intro some
        rw [holds, get_create, if_pos rfl, Option.any_some, copy_isContainer]
        cases payload : node.payload with
        | container children => rfl
        | _ => simp [payload, Payload.children] at some
      obtain ⟨all, look⟩ := showsAll_copies (cloneWithin_copied depth) (fun child grown p linked low shown =>
        ih child grown p linked low shown) linked (Nat.le_refl _) node.payload.children inner [] _ below
        (by rw [Picture.height] at low; omega) started container (childless ▸ .nil)
      rw [cloneWithin_succ found]
      exact .mk (look.trans same) all

/-- A copy shows what its original shows. -/
theorem shows_clone {store : Store} (linked : Linked store) {id : NodeId} {p : Picture} (shown : Shows store id p) :
    Shows (clone id store).2 (clone id store).1 p :=
  shows_cloneWithin store.size id store p linked (Nat.le_succ_of_le (shows_height linked shown)) shown

/-! ### Geometries -/

theorem live_of_look {store : Store} {x : NodeId} {look : Node} (here : store.look? x = some look)
    (pristine : store.PristineAt x) : store.hasLiveGeometry x = look.liveGeometry := by
  obtain ⟨node, found, rfl⟩ := Option.map_eq_some_iff.mp here
  have undisposed := (pristine node found).2
  rw [hasLiveGeometry, found, Option.any_some]
  unfold Node.liveGeometry Node.copyWithoutChildren Payload.copyWithoutChildren
  cases payload : node.payload with
  | drawable geometry material =>
    cases geometry with
    | none => rfl
    | some shape =>
      have whole : shape.disposed = false := undisposed shape (by rw [payload]; rfl)
      simp [Payload.geometry?, whole, Geometry.copy]
  | _ => rfl

mutual
theorem countP_walkWithin {store : Store} (linked : Linked store) {id : NodeId} {p : Picture} (shown : Shows store id p)
    (pristine : ∀ x, Below store id x → store.PristineAt x) (depth : Nat) (low : p.height ≤ depth + 1) :
    (store.walkWithin depth id).countP store.hasLiveGeometry = p.geometries := by
  cases shown with
  | @mk _ look inner here below =>
    rw [Picture.height] at low
    have top := live_of_look here (pristine id .top)
    have deeper : ∀ c ∈ store.childrenOf id, ∀ x, Below store c x → store.PristineAt x := fun c listed x inside =>
      pristine x (below_child linked listed inside)
    cases depth with
    | zero =>
      obtain rfl : inner = [] := heightAll_zero (by omega)
      simp [walkWithin, Picture.geometries, Picture.geometriesOfAll, List.countP_cons, top]
    | succ depth =>
      have rest := countP_flatMap linked below deeper depth (by omega)
      simp [walkWithin, Picture.geometries, List.countP_cons, top, rest, Nat.add_comm]

theorem countP_flatMap {store : Store} (linked : Linked store) {ids : List NodeId} {ps : List Picture}
    (shown : ShowsAll store ids ps) (pristine : ∀ id ∈ ids, ∀ x, Below store id x → store.PristineAt x) (depth : Nat)
    (low : Picture.heightAll ps ≤ depth + 1) :
    (ids.flatMap (store.walkWithin depth)).countP store.hasLiveGeometry = Picture.geometriesOfAll ps := by
  cases shown with
  | nil => rfl
  | cons first rest =>
    rw [Picture.heightAll, Nat.max_le] at low
    rw [List.flatMap_cons, List.countP_append, countP_walkWithin linked first (pristine _ (by simp)) depth low.1,
      countP_flatMap linked rest (fun id member => pristine id (by simp [member])) depth low.2, Picture.geometriesOfAll]
end

/-- The geometries of a picture are those that a walk meets. -/
theorem countP_walk {store : Store} (linked : Linked store) {id : NodeId} {p : Picture} (shown : Shows store id p)
    (pristine : ∀ x, Below store id x → store.PristineAt x) :
    (store.walk id).countP store.hasLiveGeometry = p.geometries :=
  countP_walkWithin linked shown pristine store.size (Nat.le_succ_of_le (shows_height linked shown))

end Store

namespace Scene

open Store

/-! ### Paint -/

/-- A node with a material; one that has a material keeps it unless `always`. -/
def painted (always : Bool) (material : MaterialId) (node : Node) : Node :=
  if always || !node.payload.material?.isSome then setMaterial material node else node

theorem painted_painted (always : Bool) (material : MaterialId) (node : Node) :
    painted always material (painted always material node) = painted always material node := by
  unfold painted setMaterial
  cases payload : node.payload with
  | drawable geometry old => cases always <;> cases old <;> simp [Payload.material?, payload]
  | _ => simp [payload]

theorem painted_copy (always : Bool) (material : MaterialId) (node : Node) :
    (painted always material node).copyWithoutChildren = painted always material node.copyWithoutChildren := by
  unfold painted setMaterial Node.copyWithoutChildren Payload.copyWithoutChildren
  cases payload : node.payload with
  | drawable geometry old => cases always <;> cases old <;> simp [Payload.material?, payload]
  | _ => simp [payload]

theorem painted_bare {always : Bool} {material : MaterialId} {node : Node} (other : node.payload.isDrawable = false) :
    painted always material node = node := by
  unfold painted setMaterial
  cases payload : node.payload with
  | drawable geometry old => simp [payload, Payload.isDrawable] at other
  | _ => simp

theorem paint_get (always : Bool) (material : MaterialId) (id : NodeId) (scene : Scene) (x : NodeId) :
    (scene.paint always material id).store.get? x =
      if x ∈ scene.store.drawables id then (scene.store.get? x).map (painted always material) else scene.store.get? x := by
  unfold paint
  generalize scene.store.drawables id = ids
  induction ids generalizing scene with
  | nil => simp
  | cons first rest ih =>
    -- one step paints the first node
    have step : (if always || !(scene.store.get? first).any (·.payload.material?.isSome) then
          scene.onStore (·.modify first (setMaterial material)) else scene).store.get? x =
        if x = first then (scene.store.get? x).map (painted always material) else scene.store.get? x := by
      by_cases same : x = first
      · subst same
        cases found : scene.store.get? x with
        | none => split <;> simp [onStore, get_modify, found]
        | some node =>
          unfold painted
          simp only [Option.any_some, Option.map_some, if_true]
          split <;> simp_all [onStore, get_modify]
      · rw [if_neg same]
        split
        · exact get_modify_elsewhere _ _ same
        · rfl
    rw [List.foldl_cons, ih, step]
    by_cases here : x = first <;> by_cases later : x ∈ rest <;>
      simp [here, later, Option.map_map, Function.comp_def, painted_painted]

/-- Paint on a node shows on every look of the pictures below it. -/
theorem shows_paint {always : Bool} {material : MaterialId} {scene : Scene} (linked : Linked scene.store) {n id : NodeId}
    (inside : Below scene.store n id) {p : Picture} (shown : Shows scene.store id p) :
    Shows (scene.paint always material n).store id (p.map (painted always material)) := by
  refine shows_map linked (fun x below => ?_) (fun x _ => ?_) shown
  · rw [look?, look?, paint_get]
    split
    · cases scene.store.get? x <;> simp [painted_copy]
    · rename_i plain
      cases found : scene.store.get? x with
      | none => rfl
      | some node =>
        have other : node.payload.isDrawable = false := by
          by_contra drawable
          refine plain (List.mem_filter.mpr ⟨(mem_walk linked).mpr (below_trans inside below), ?_⟩)
          simpa [holds, found] using drawable
        simp [← painted_copy, painted_bare other]
  · exact (paint_stays always material n scene).2 x

end Scene

end ProceduralScene
