import Mathlib.Data.List.Forall2
import ProceduralScene.Proofs.MaterialRecall
import ProceduralScene.Proofs.Picture

/-!
What placing a blueprint will show. The picture of a blueprint follows from the pictures of the results in it and of
the registered nodes that its references mean, and from the materials that it asks for.
-/

set_option autoImplicit false

namespace ProceduralScene

open Store

namespace Place

/-- The nodes that a result hands over. -/
def resultNodes : Value → List NodeId
  | .list items => nodesOf items
  | .node id => [id]
  | _ => []

/-- A part of a transform after it was set; null leaves it as it was. -/
def partOf (missing : Float) (value : Value) (old : Vec3) : Vec3 :=
  if value.isNull then old else (Vec3.ofTransform missing value).toOption.getD old

def ReadablePart (missing : Float) (value : Value) : Prop :=
  value.isNull = true ∨ ∃ part, Vec3.ofTransform missing value = .ok part

end Place

/-- The helper and the result of a blueprint that holds a result. -/
def BlueprintContent.made? : BlueprintContent → Option (String × Value)
  | .call helper _ (some result) | .shape helper _ result => some (helper, result)
  | _ => none

namespace Blueprint

mutual
/-- The blueprint and everything that is placed with it. -/
def placed : Blueprint → List Blueprint
  | ⟨path, name, content, position, rotation, scale, visible, material, children, context, scope, source, index,
      anchor⟩ =>
    ⟨path, name, content, position, rotation, scale, visible, material, children, context, scope, source, index,
      anchor⟩ ::
      match content with
      | .group => placedAll children
      | _ => []

def placedAll : List Blueprint → List Blueprint
  | [] => []
  | b :: rest => placed b ++ placedAll rest
end

mutual
/-- Induction along the children of blueprints. -/
theorem along_children {holds : Blueprint → Prop} (step : ∀ b : Blueprint, (∀ c ∈ b.children, holds c) → holds b) :
    ∀ b, holds b
  | ⟨_, _, _, _, _, _, _, _, children, _, _, _, _, _⟩ => step _ (along_list step children)

theorem along_list {holds : Blueprint → Prop} (step : ∀ b : Blueprint, (∀ c ∈ b.children, holds c) → holds b) :
    ∀ (list : List Blueprint), ∀ b ∈ list, holds b
  | first :: _, _, .head _ => along_children step first
  | _ :: rest, b, .tail _ later => along_list step rest b later
end

/-- The nodes that the blueprint takes over from a helper. -/
def given (b : Blueprint) : List NodeId :=
  match b.content.made? with
  | some (_, result) => Place.resultNodes result
  | none => []

mutual
/-- The paths that placing the blueprint registers when `known` ones are registered already. -/
def registers (known : List String) (parentPath : String) : Blueprint → List String
  | ⟨path, _, content, _, _, _, _, _, children, _, _, _, _, _⟩ =>
    match content with
    | .group => registersAll known path children ++ [path]
    | .reference target => if (Registry.resolvePath known target parentPath).isSome then [path] else []
    | .call _ _ (some result) | .shape _ _ result => if Place.resultNodes result = [] then [] else [path]
    | .call _ _ none => []

def registersAll (known : List String) (parentPath : String) : List Blueprint → List String
  | [] => []
  | b :: rest =>
    registers known parentPath b ++ registersAll (known ++ registers known parentPath b) parentPath rest
end

/-- A blueprint that can be placed without a failure: its helper ran already, its transform is made of numbers and
its material has a name. -/
structure Legible (b : Blueprint) : Prop where
  made : b.content.isDeferred = false
  position : Place.ReadablePart 0.0 b.position
  rotation : Place.ReadablePart 0.0 b.rotation
  scale : Place.ReadablePart 1.0 b.scale
  material : b.LegibleMaterial

/-- A node as the blueprint names it and transforms it. -/
def styled (b : Blueprint) (node : Node) : Node :=
  { node with
    name := b.name
    position := Place.partOf 0.0 b.position node.position
    rotation := Place.partOf 0.0 b.rotation node.rotation
    scale := Place.partOf 1.0 b.scale node.scale
    visible := node.visible && b.visible }

theorem placed_group {b : Blueprint} (group : b.content = .group) : b.placed = b :: placedAll b.children := by
  cases b
  cases group
  rw [placed]

theorem placed_single {b : Blueprint} (single : b.content ≠ .group) : b.placed = [b] := by
  cases b with
  | mk path name content =>
    cases content with
    | group => exact absurd rfl single
    | _ => rw [placed]; simp

theorem placedAll_append (list rest : List Blueprint) : placedAll (list ++ rest) = placedAll list ++ placedAll rest := by
  induction list with
  | nil => rfl
  | cons b list ih => rw [List.cons_append, placedAll, placedAll, ih, List.append_assoc]

theorem placedAll_single (b : Blueprint) : placedAll [b] = b.placed := by
  rw [placedAll, placedAll, List.append_nil]

theorem given_made {b : Blueprint} {helper : String} {result : Value} (made : b.content.made? = some (helper, result)) :
    b.given = Place.resultNodes result := by
  rw [given, made]

theorem registers_group {b : Blueprint} (group : b.content = .group) (known : List String) (parentPath : String) :
    b.registers known parentPath = registersAll known b.path b.children ++ [b.path] := by
  cases b
  cases group
  rw [registers]

theorem registers_reference {b : Blueprint} {target : String} (reference : b.content = .reference target)
    (known : List String) (parentPath : String) : b.registers known parentPath =
      if (Registry.resolvePath known target parentPath).isSome then [b.path] else [] := by
  cases b
  cases reference
  rw [registers]

theorem registers_made {b : Blueprint} {helper : String} {result : Value}
    (made : b.content.made? = some (helper, result)) (known : List String) (parentPath : String) :
    b.registers known parentPath = if Place.resultNodes result = [] then [] else [b.path] := by
  cases b with
  | mk path name content =>
    cases content with
    | call verb params found =>
      cases found with
      | none => cases made
      | some value => cases made; rw [registers]
    | shape verb params value => cases made; rw [registers]
    | _ => cases made

theorem partOf_partOf (missing : Float) (value : Value) (old : Vec3) :
    Place.partOf missing value (Place.partOf missing value old) = Place.partOf missing value old := by
  unfold Place.partOf
  split
  · rfl
  · cases Vec3.ofTransform missing value <;> rfl

theorem styled_styled (b : Blueprint) (node : Node) : b.styled (b.styled node) = b.styled node := by
  simp only [styled, partOf_partOf, Bool.and_assoc, Bool.and_self]

theorem styled_copy (b : Blueprint) (node : Node) :
    (b.styled node).copyWithoutChildren = b.styled node.copyWithoutChildren := rfl

theorem painted_styled (b : Blueprint) (always : Bool) (material : MaterialId) (node : Node) :
    Scene.painted always material (b.styled node) = b.styled (Scene.painted always material node) := by
  obtain ⟨name, position, rotation, scale, visible, carried, parent, disposed, payload⟩ := node
  cases payload with
  | drawable geometry old => cases always <;> cases old <;> rfl
  | _ => cases always <;> rfl

/-- What becomes of a result: its look is painted and then named and transformed. -/
def finished (b : Blueprint) (always : Bool) (material : MaterialId) (p : Picture) : Picture :=
  (p.map (Scene.painted always material)).onTop b.styled

/-- What was finished once does not change when it is finished again. -/
theorem finished_finished (b : Blueprint) (always : Bool) (material : MaterialId) (p : Picture) :
    b.finished always material (b.finished always material p) = b.finished always material p := by
  unfold finished
  rw [Picture.map_onTop (painted_styled b always material), Picture.map_map, Picture.onTop_onTop]
  simp only [Scene.painted_painted, styled_styled]

end Blueprint

/-! ### Galleries -/

/-- The pictures of the registered nodes by their paths. -/
abbrev Gallery := List (String × Picture)

namespace Gallery

def paths (gallery : Gallery) : List String := gallery.map (·.1)

/-- The picture that a target means in a scope. -/
def resolve (target scope : String) (gallery : Gallery) : Option Picture :=
  (Registry.resolvePath gallery.paths target scope).bind fun path => gallery.lookup path

end Gallery

/-- Every entry shows its picture of the gallery. -/
def Hung (store : Store) (entries : List (Entry Blueprint)) (gallery : Gallery) : Prop :=
  List.Forall₂ (fun e g => e.path = g.1 ∧ Shows store e.node g.2) entries gallery

section

variable {store store' : Store} {entries : List (Entry Blueprint)} {gallery : Gallery}

theorem hung_paths (hung : Hung store entries gallery) : entries.map (·.path) = gallery.paths := by
  induction hung with
  | nil => rfl
  | cons first _ ih => rw [List.map_cons, Gallery.paths, List.map_cons, first.1, ih, Gallery.paths]

theorem hung_lookup (hung : Hung store entries gallery) (path : String) :
    (entries.find? (·.path == path) = none ∧ gallery.lookup path = none) ∨
      ∃ e p, entries.find? (·.path == path) = some e ∧ gallery.lookup path = some p ∧ Shows store e.node p := by
  induction hung with
  | nil => exact .inl ⟨rfl, rfl⟩
  | @cons e g entries gallery first _ ih =>
    obtain ⟨name, p⟩ := g
    obtain ⟨rfl, shown⟩ := first
    by_cases same : e.path = path
    · exact .inr ⟨e, p, by simp [same], by simp [same], shown⟩
    · rw [List.find?_cons_of_neg (by simpa using same), List.lookup_cons,
        beq_eq_false_iff_ne.mpr (Ne.symm same)]
      exact ih

/-- A target means a registered node and its picture alike. -/
theorem hung_resolve {registry : Registry Blueprint} (hung : Hung store registry.entries gallery) (target scope : String) :
    (registry.resolve target scope = none ∧ gallery.resolve target scope = none) ∨
      ∃ e p, registry.resolve target scope = some e ∧ gallery.resolve target scope = some p ∧ Shows store e.node p := by
  have paths : registry.paths = gallery.paths := hung_paths hung
  unfold Registry.resolve Gallery.resolve
  rw [paths]
  cases Registry.resolvePath gallery.paths target scope with
  | none => exact .inl ⟨rfl, rfl⟩
  | some path => exact hung_lookup hung path

theorem leastPath_mem {paths : List String} {path : String} (found : Registry.leastPath paths = some path) :
    path ∈ paths := by
  induction paths generalizing path with
  | nil => cases found
  | cons first rest ih =>
    rw [Registry.leastPath] at found
    cases later : Registry.leastPath rest with
    | none =>
      rw [later] at found
      cases found
      simp
    | some other =>
      rw [later] at found
      dsimp only at found
      split at found
      · cases found
        exact List.mem_cons_of_mem _ (ih later)
      · cases found
        simp

theorem resolvePath_mem {paths : List String} {target scope path : String}
    (found : Registry.resolvePath paths target scope = some path) : path ∈ paths := by
  unfold Registry.resolvePath at found
  split at found
  · rename_i candidate first
    cases found
    simpa using List.find?_some first
  · exact (List.mem_filter.mp (leastPath_mem found)).1

theorem gallery_resolve_none {gallery : Gallery} {target scope : String} (missing : gallery.resolve target scope = none) :
    Registry.resolvePath gallery.paths target scope = none := by
  unfold Gallery.resolve at missing
  cases found : Registry.resolvePath gallery.paths target scope with
  | none => rfl
  | some path =>
    rw [found] at missing
    obtain ⟨⟨name, p⟩, member, rfl⟩ := List.mem_map.mp (resolvePath_mem found)
    have absent := List.lookup_eq_none_iff.mp missing (name, p) member
    simp at absent

theorem hung_each (hung : Hung store entries gallery)
    (each : ∀ e ∈ entries, ∀ p, Shows store e.node p → Shows store' e.node p) : Hung store' entries gallery := by
  induction hung with
  | nil => exact .nil
  | cons first _ ih =>
    exact .cons ⟨first.1, each _ (by simp) _ first.2⟩ (ih fun e member => each e (by simp [member]))

theorem hung_append {more : List (Entry Blueprint)} {added : Gallery} (first : Hung store entries gallery)
    (rest : Hung store more added) : Hung store (entries ++ more) (gallery ++ added) := by
  induction first with
  | nil => exact rest
  | cons here _ ih => exact .cons here ih

theorem hung_single {e : Entry Blueprint} {p : Picture} (shown : Shows store e.node p) : Hung store [e] [(e.path, p)] :=
  .cons ⟨rfl, shown⟩ .nil

theorem hung_exists (linked : Linked store) (made : ∀ e ∈ entries, e.node < store.size) :
    ∃ gallery, Hung store entries gallery := by
  induction entries with
  | nil => exact ⟨[], .nil⟩
  | cons e rest ih =>
    obtain ⟨p, shown⟩ := shows_exists linked (made e (by simp))
    obtain ⟨gallery, hung⟩ := ih fun f member => made f (by simp [member])
    exact ⟨(e.path, p) :: gallery, .cons ⟨rfl, shown⟩ hung⟩

theorem gallery_paths_append (gallery added : Gallery) : (gallery ++ added).paths = gallery.paths ++ added.paths := by
  rw [Gallery.paths, List.map_append, Gallery.paths, Gallery.paths]

end

/-! ### Pictures of blueprints -/

/-- What the nodes of a result show, several ones in a container with a name. -/
inductive ResultShows (store : Store) (name : String) : Value → Picture → Prop where
  | node {id : NodeId} {p : Picture} (shown : Shows store id p) : ResultShows store name (.node id) p
  | list {items : List Value} {ps : List Picture} (some : Place.nodesOf items ≠ [])
      (shown : ShowsAll store (Place.nodesOf items) ps) :
      ResultShows store name (.list items) ⟨Node.ofPayload name (.container []), ps⟩

/-- What a reference shows: its target, with the material of the blueprint if it names one. -/
def Blueprint.copied (b : Blueprint) (material : MaterialId) (p : Picture) : Picture :=
  if b.material.isNull then p.onTop b.styled else b.finished true material p

mutual
/-- The picture of a blueprint, if it is not left out, and what it adds to the gallery. -/
inductive Depicts (s : Session) : Gallery → String → Blueprint → Option Picture → Gallery → Prop where
  | group {gallery more : Gallery} {parentPath : String} {b : Blueprint} {inner : List Picture}
      (group : b.content = .group) (children : DepictsAll s gallery b.path b.children inner more) :
      Depicts s gallery parentPath b (some ((Picture.mk (Node.ofPayload b.name (.container [])) inner).onTop b.styled))
        (more ++ [(b.path, (Picture.mk (Node.ofPayload b.name (.container [])) inner).onTop b.styled)])
  | made {gallery : Gallery} {parentPath helper : String} {b : Blueprint} {result : Value} {p : Picture}
      {material : MaterialId} (made : b.content.made? = some (helper, result))
      (shown : ResultShows s.scene.store b.name result p) (tints : s.Tints b material) :
      Depicts s gallery parentPath b (some (b.finished (!b.material.isNull) material p))
        [(b.path, b.finished (!b.material.isNull) material p)]
  | barren {gallery : Gallery} {parentPath helper : String} {b : Blueprint} {result : Value}
      (made : b.content.made? = some (helper, result)) (empty : Place.resultNodes result = []) :
      Depicts s gallery parentPath b none []
  | reference {gallery : Gallery} {parentPath target : String} {b : Blueprint} {p : Picture} {material : MaterialId}
      (reference : b.content = .reference target) (found : gallery.resolve target parentPath = some p)
      (tints : s.Tints b material) :
      Depicts s gallery parentPath b (some (b.copied material p)) [(b.path, b.copied material p)]
  | missing {gallery : Gallery} {parentPath target : String} {b : Blueprint}
      (reference : b.content = .reference target) (missing : gallery.resolve target parentPath = none) :
      Depicts s gallery parentPath b none []

inductive DepictsAll (s : Session) : Gallery → String → List Blueprint → List Picture → Gallery → Prop where
  | nil {gallery : Gallery} {parentPath : String} : DepictsAll s gallery parentPath [] [] []
  | cons {gallery added more : Gallery} {parentPath : String} {b : Blueprint} {rest : List Blueprint}
      {p : Option Picture} {ps : List Picture} (first : Depicts s gallery parentPath b p added)
      (others : DepictsAll s (gallery ++ added) parentPath rest ps more) :
      DepictsAll s gallery parentPath (b :: rest) (p.toList ++ ps) (added ++ more)
end

section

variable {s s' : Session}

theorem tints_unique {b : Blueprint} {material other : MaterialId} (first : s.Tints b material)
    (second : s.Tints b other) : material = other := by
  obtain ⟨_, _, _, rfl, same⟩ := returns_iff.mp (returns_and (first s (recalls_refl s)) (second s (recalls_refl s)))
  exact same

theorem tints_later {b : Blueprint} {material : MaterialId} (recalls : s.Recalls s') (tints : s.Tints b material) :
    s'.Tints b material := fun later after => tints later (recalls_trans recalls after)

theorem resultShows_unique {store : Store} {name : String} {result : Value} {p q : Picture}
    (left : ResultShows store name result p) (right : ResultShows store name result q) : p = q := by
  cases left with
  | node shown =>
    cases right with
    | node shown' => exact shows_unique shown shown'
  | list _ shown =>
    cases right with
    | list _ shown' => rw [showsAll_unique shown shown']

theorem resultShows_some {store : Store} {name : String} {result : Value} {p : Picture}
    (shown : ResultShows store name result p) : Place.resultNodes result ≠ [] := by
  cases shown with
  | node _ => simp [Place.resultNodes]
  | list some _ => exact some

theorem resultShows_each {store store' : Store} {name : String} {result : Value} {p : Picture}
    (each : ∀ id ∈ Place.resultNodes result, ∀ q, Shows store id q → Shows store' id q)
    (shown : ResultShows store name result p) : ResultShows store' name result p := by
  cases shown with
  | node shown => exact .node (each _ (by simp [Place.resultNodes]) _ shown)
  | list some shown => exact .list some (showsAll_each each shown)

theorem made_not_group {b : Blueprint} {made : String × Value} (holds : b.content.made? = some made) :
    b.content ≠ .group := by
  intro group
  rw [group] at holds
  cases holds

theorem made_not_reference {b : Blueprint} {made : String × Value} {target : String}
    (holds : b.content.made? = some made) : b.content ≠ .reference target := by
  intro reference
  rw [reference] at holds
  cases holds

theorem depictsAll_unique {list : List Blueprint}
    (each : ∀ b ∈ list, ∀ {gallery added added' : Gallery} {parentPath : String} {p p' : Option Picture},
      Depicts s gallery parentPath b p added → Depicts s gallery parentPath b p' added' → p = p' ∧ added = added') :
    ∀ {gallery more more' : Gallery} {parentPath : String} {ps ps' : List Picture},
      DepictsAll s gallery parentPath list ps more → DepictsAll s gallery parentPath list ps' more' →
      ps = ps' ∧ more = more' := by
  induction list with
  | nil =>
    intro gallery more more' parentPath ps ps' left right
    cases left
    cases right
    exact ⟨rfl, rfl⟩
  | cons b rest ih =>
    intro gallery more more' parentPath ps ps' left right
    cases left with
    | cons first others =>
      cases right with
      | cons first' others' =>
        obtain ⟨rfl, rfl⟩ := each b (by simp) first first'
        obtain ⟨rfl, rfl⟩ := ih (fun c member => each c (by simp [member])) others others'
        exact ⟨rfl, rfl⟩

/-- A blueprint has one picture. -/
theorem depicts_unique (b : Blueprint) : ∀ {gallery added added' : Gallery} {parentPath : String}
    {p p' : Option Picture}, Depicts s gallery parentPath b p added → Depicts s gallery parentPath b p' added' →
    p = p' ∧ added = added' := by
  induction b using Blueprint.along_children with | step b ih =>
  intro gallery added added' parentPath p p' left right
  cases left with
  | group group children =>
    cases right with
    | group _ children' =>
      obtain ⟨rfl, rfl⟩ := depictsAll_unique ih children children'
      exact ⟨rfl, rfl⟩
    | made made | barren made => exact absurd group (made_not_group made)
    | reference other | missing other => rw [group] at other; cases other
  | made made shown tints =>
    cases right with
    | group group => exact absurd group (made_not_group made)
    | made made' shown' tints' =>
      rw [made] at made'
      cases made'
      obtain rfl := resultShows_unique shown shown'
      obtain rfl := tints_unique tints tints'
      exact ⟨rfl, rfl⟩
    | barren made' empty =>
      rw [made] at made'
      cases made'
      exact absurd empty (resultShows_some shown)
    | reference other | missing other => exact absurd other (made_not_reference made)
  | barren made empty =>
    cases right with
    | group group => exact absurd group (made_not_group made)
    | made made' shown' =>
      rw [made] at made'
      cases made'
      exact absurd empty (resultShows_some shown')
    | barren => exact ⟨rfl, rfl⟩
    | reference other | missing other => exact absurd other (made_not_reference made)
  | reference reference found tints =>
    cases right with
    | group group => rw [group] at reference; cases reference
    | made made | barren made => exact absurd reference (made_not_reference made)
    | reference other found' tints' =>
      rw [reference] at other
      cases other
      rw [found] at found'
      cases found'
      obtain rfl := tints_unique tints tints'
      exact ⟨rfl, rfl⟩
    | missing other missing =>
      rw [reference] at other
      cases other
      rw [found] at missing
      cases missing
  | missing reference missing =>
    cases right with
    | group group => rw [group] at reference; cases reference
    | made made | barren made => exact absurd reference (made_not_reference made)
    | reference other found =>
      rw [reference] at other
      cases other
      rw [found] at missing
      cases missing
    | missing => exact ⟨rfl, rfl⟩

/-- The results of some blueprints look in one session as in another. -/
def SameResults (list : List Blueprint) (s s' : Session) : Prop :=
  ∀ b ∈ list, ∀ id ∈ b.given, ∀ p, Shows s.scene.store id p → Shows s'.scene.store id p

theorem depictsAll_later {list : List Blueprint} (each : ∀ b ∈ list, ∀ {gallery added : Gallery} {parentPath : String}
      {p : Option Picture}, SameResults b.placed s s' → Depicts s gallery parentPath b p added →
      Depicts s' gallery parentPath b p added) :
    ∀ {gallery more : Gallery} {parentPath : String} {ps : List Picture}, SameResults (Blueprint.placedAll list) s s' →
      DepictsAll s gallery parentPath list ps more → DepictsAll s' gallery parentPath list ps more := by
  induction list with
  | nil =>
    intro gallery more parentPath ps _ depicts
    cases depicts
    exact .nil
  | cons b rest ih =>
    intro gallery more parentPath ps same depicts
    rw [Blueprint.placedAll] at same
    cases depicts with
    | cons first others =>
      refine .cons (each b (by simp) (fun c member => same c (List.mem_append_left _ member)) first) ?_
      exact ih (fun c member => each c (by simp [member])) (fun c member => same c (List.mem_append_right _ member)) others

/-- The picture of a blueprint stays as long as its results look the same and no material is forgotten. -/
theorem depicts_later (recalls : s.Recalls s') (b : Blueprint) : ∀ {gallery added : Gallery} {parentPath : String}
    {p : Option Picture}, SameResults b.placed s s' → Depicts s gallery parentPath b p added →
    Depicts s' gallery parentPath b p added := by
  induction b using Blueprint.along_children with | step b ih =>
  intro gallery added parentPath p same depicts
  cases depicts with
  | group group children =>
    rw [Blueprint.placed_group group] at same
    exact .group group (depictsAll_later ih (fun c member => same c (List.mem_cons_of_mem b member)) children)
  | made made shown tints =>
    refine .made made (resultShows_each (fun id member => ?_) shown) (tints_later recalls tints)
    exact same b (by simp [Blueprint.placed_single (made_not_group made)]) id (Blueprint.given_made made ▸ member)
  | barren made empty => exact .barren made empty
  | reference reference found tints => exact .reference reference found (tints_later recalls tints)
  | missing reference missing => exact .missing reference missing

theorem depictsAll_registers {list : List Blueprint} (each : ∀ b ∈ list, ∀ {gallery added : Gallery}
      {parentPath : String} {p : Option Picture}, Depicts s gallery parentPath b p added →
      added.paths = b.registers gallery.paths parentPath) :
    ∀ {gallery more : Gallery} {parentPath : String} {ps : List Picture}, DepictsAll s gallery parentPath list ps more →
      more.paths = Blueprint.registersAll gallery.paths parentPath list := by
  induction list with
  | nil =>
    intro gallery more parentPath ps depicts
    cases depicts
    rfl
  | cons b rest ih =>
    intro gallery more parentPath ps depicts
    cases depicts with
    | cons first others =>
      rw [gallery_paths_append, ih (fun c member => each c (by simp [member])) others, gallery_paths_append,
        each b (by simp) first, Blueprint.registersAll]

/-- The gallery gains the paths that are said to be registered. -/
theorem depicts_registers (b : Blueprint) : ∀ {gallery added : Gallery} {parentPath : String} {p : Option Picture},
    Depicts s gallery parentPath b p added → added.paths = b.registers gallery.paths parentPath := by
  induction b using Blueprint.along_children with | step b ih =>
  intro gallery added parentPath p depicts
  cases depicts with
  | group group children =>
    rw [gallery_paths_append, depictsAll_registers ih children, Blueprint.registers_group group]
    rfl
  | made made shown tints =>
    rw [Blueprint.registers_made made, if_neg (resultShows_some shown)]
    rfl
  | barren made empty =>
    rw [Blueprint.registers_made made, if_pos empty]
    rfl
  | reference reference found tints =>
    obtain ⟨path, resolved, _⟩ := Option.bind_eq_some_iff.mp found
    rw [Blueprint.registers_reference reference, resolved]
    rfl
  | missing reference missing =>
    rw [Blueprint.registers_reference reference, gallery_resolve_none missing]
    rfl

theorem depictsAll_snoc {list : List Blueprint} {b : Blueprint} {parentPath : String} {added : Gallery}
    {p : Option Picture} : ∀ {gallery more : Gallery} {ps : List Picture}, DepictsAll s gallery parentPath list ps more →
    Depicts s (gallery ++ more) parentPath b p added →
    DepictsAll s gallery parentPath (list ++ [b]) (ps ++ p.toList) (more ++ added) := by
  induction list with
  | nil =>
    intro gallery more ps first last
    cases first
    rw [List.append_nil] at last
    simpa using DepictsAll.cons last .nil
  | cons c rest ih =>
    intro gallery more ps first last
    cases first with
    | cons here others =>
      rw [← List.append_assoc] at last
      rw [List.append_assoc, List.append_assoc]
      exact .cons here (ih others last)

theorem depictsAll_last {list : List Blueprint} {b : Blueprint} {parentPath : String} : ∀ {gallery all : Gallery}
    {qs : List Picture}, DepictsAll s gallery parentPath (list ++ [b]) qs all → ∃ ps p more added,
      DepictsAll s gallery parentPath list ps more ∧ Depicts s (gallery ++ more) parentPath b p added ∧
        qs = ps ++ p.toList ∧ all = more ++ added := by
  induction list with
  | nil =>
    intro gallery all qs depicts
    cases depicts with
    | cons last none =>
      cases none
      exact ⟨[], _, [], _, .nil, by rwa [List.append_nil], by simp, by simp⟩
  | cons c rest ih =>
    intro gallery all qs depicts
    cases depicts with
    | cons here others =>
      obtain ⟨ps, p, more, added, first, last, rfl, rfl⟩ := ih others
      rw [List.append_assoc] at last
      exact ⟨_, p, _, added, .cons here first, last, by simp, by simp⟩

theorem depictsAll_paths {list : List Blueprint} (each : ∀ b ∈ list, ∀ {gallery added : Gallery}
      {parentPath : String} {p : Option Picture}, Depicts s gallery parentPath b p added →
      added.paths ⊆ b.placed.map Blueprint.path) :
    ∀ {gallery more : Gallery} {parentPath : String} {ps : List Picture}, DepictsAll s gallery parentPath list ps more →
      more.paths ⊆ (Blueprint.placedAll list).map Blueprint.path := by
  induction list with
  | nil =>
    intro gallery more parentPath ps depicts
    cases depicts
    exact List.nil_subset _
  | cons b rest ih =>
    intro gallery more parentPath ps depicts
    cases depicts with
    | cons first others =>
      rw [gallery_paths_append, Blueprint.placedAll, List.map_append]
      have later := ih (fun c member => each c (by simp [member])) others
      exact List.append_subset.mpr ⟨List.subset_append_of_subset_left _ (each b (by simp) first),
        List.subset_append_of_subset_right _ later⟩

theorem depicts_paths (b : Blueprint) : ∀ {gallery added : Gallery} {parentPath : String} {p : Option Picture},
    Depicts s gallery parentPath b p added → added.paths ⊆ b.placed.map Blueprint.path := by
  induction b using Blueprint.along_children with | step b ih =>
  intro gallery added parentPath p depicts
  cases depicts with
  | group group children =>
    rw [gallery_paths_append, Blueprint.placed_group group, List.map_cons]
    refine List.append_subset.mpr ⟨List.Subset.trans (depictsAll_paths ih children) (List.subset_cons_self _ _), ?_⟩
    simp [Gallery.paths]
  | made made | barren made => simp [Blueprint.placed_single (made_not_group made), Gallery.paths]
  | reference reference | missing reference =>
    have single : b.content ≠ .group := fun group => by rw [group] at reference; cases reference
    simp [Blueprint.placed_single single, Gallery.paths]

theorem depictsAll_inner {list : List Blueprint} {gallery more : Gallery} {parentPath : String} {ps : List Picture}
    (depicts : DepictsAll s gallery parentPath list ps more) : more.paths ⊆ (Blueprint.placedAll list).map Blueprint.path :=
  depictsAll_paths (fun b _ => depicts_paths b) depicts

/-- What a blueprint adds before itself are blueprints inside it. -/
theorem depicts_inner {b : Blueprint} {gallery more all : Gallery} {parentPath : String} {p q : Picture}
    (depicts : Depicts s gallery parentPath b (some p) all) (last : all = more ++ [(b.path, q)]) :
    more.paths ⊆ b.placed.tail.map Blueprint.path := by
  cases depicts with
  | group group children =>
    obtain ⟨rfl, _⟩ := List.append_inj' last rfl
    rw [Blueprint.placed_group group]
    exact depictsAll_inner children
  | made | reference =>
    obtain ⟨rfl, _⟩ := List.append_inj' (show [] ++ [_] = more ++ [_] from last) rfl
    exact List.nil_subset _

end

end ProceduralScene
