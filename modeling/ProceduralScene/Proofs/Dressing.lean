import ProceduralScene.Proofs.Gathering

/-!
The node that a result stands for, and how a node is named, transformed and registered.
-/

set_option autoImplicit false

namespace ProceduralScene

open Store SessionAction

namespace Store

theorem modify_modify (store : Store) (n : NodeId) (first second : Node → Node) :
    (store.modify n first).modify n second = store.modify n fun node => second (first node) := by
  unfold modify
  congr 1
  apply Array.ext
  · simp
  · intro i _ _
    simp only [Array.getElem_modify]
    split <;> rfl

theorem modify_same (store : Store) (n : NodeId) : (store.modify n fun node => node) = store := by
  unfold modify
  congr 1
  apply Array.ext
  · simp
  · intro i _ _
    simp only [Array.getElem_modify]
    split <;> rfl

end Store

/-- Nothing happened but that something was recorded. -/
structure Noted (s s' : Session) : Prop where
  scene : s'.scene = s.scene
  registry : s'.registry = s.registry
  recalls : s.Recalls s'

theorem noted_record (code text : String) (path : Option String) (s : Session) :
    Returns (record code text path) s fun _ s' => Noted s s' :=
  returns_modify ⟨rfl, rfl, fun _ _ found => found, MaterialTable.grows_refl _⟩

/-- A container stays filled when something is recorded. -/
theorem gathered_noted {s s' s'' : Session} {done : List NodeId} {bay : NodeId} {name : String} {ps : List Picture}
    {added : List (Entry Blueprint)} {more : Gallery} (gathered : Gathered bay name s done ps s' added more)
    (noted : Noted s' s'') : Gathered bay name s done ps s'' added more where
  confined := noted.scene ▸ gathered.confined
  parents := noted.scene ▸ gathered.parents
  counted := noted.scene ▸ gathered.counted
  recalls := recalls_trans gathered.recalls noted.recalls
  entries := noted.registry ▸ gathered.entries
  kept := noted.scene ▸ gathered.kept
  alive := noted.scene ▸ gathered.alive
  listed := noted.scene ▸ gathered.listed
  made := noted.scene ▸ gathered.made
  parentless := noted.scene ▸ gathered.parentless
  own := gathered.own
  shown := noted.scene ▸ gathered.shown
  taken := noted.scene ▸ gathered.taken
  below := noted.scene ▸ gathered.below
  inside := noted.scene ▸ gathered.inside
  hung := noted.scene ▸ gathered.hung
  new := gathered.new
  container := noted.scene ▸ gathered.container
  moved := noted.scene ▸ gathered.moved

namespace Place

variable {s : Session} {b : Blueprint} {helper : String} {result : Value} {p : Picture} {n parent : NodeId}
  {parentPath : String}

/-! ### Results -/

theorem noted_nodeOfResult (empty : resultNodes result = []) :
    Returns (nodeOfResult b helper result) s fun found s' => found = none ∧ Noted s s' := by
  have recorded : ∀ text, Returns (do
      record "H02" text (some b.path)
      return none : SessionAction (Option NodeId)) s fun found s' => found = none ∧ Noted s s' := fun text =>
    returns_bind (noted_record _ _ _ s) fun _ s' noted => returns_pure ⟨rfl, noted⟩
  unfold nodeOfResult
  cases result with
  | null => exact returns_pure ⟨rfl, rfl, rfl, recalls_refl s⟩
  | node id => cases empty
  | list items =>
    have none : nodesOf items = [] := empty
    dsimp only
    rw [none]
    exact recorded _
  | _ => exact returns_get (recorded _)

/-- A single node is the result itself or a copy, and several ones are in a new container. -/
theorem formed_nodeOfResult (stock : Stock s (resultNodes result)) (shown : ResultShows s.scene.store b.name result p) :
    Returns (nodeOfResult b helper result) s fun found s' => ∃ n, found = some n ∧
      Formed (resultNodes result) s n p s' [] [] ∧ Unpainted s.scene.store s'.scene.store ∧
      (n ∈ resultNodes result → result = .node n) := by
  unfold nodeOfResult
  cases shown with
  | @node id _ shown =>
    have taken : Returns (onScene (fresh id)) s fun n s' =>
        Formed [id] s n p s' [] [] ∧ Unpainted s.scene.store s'.scene.store :=
      returns_onScene (returns_mono (formed_fresh stock shown) fun _ _ formed => ⟨formed.1, unpainted_new formed.2⟩)
    refine returns_bind taken ?_
    rintro n s' ⟨formed, unpainted⟩
    exact returns_pure ⟨n, rfl, formed, unpainted, fun member => by rw [List.mem_singleton.mp member]⟩
  | @list items ps some shown =>
    have gathered : Returns (onScene (gather b.name (nodesOf items))) s fun n s' =>
        Formed (nodesOf items) s n ⟨Node.ofPayload b.name (.container []), ps⟩ s' [] [] ∧ s.scene.store.New n ∧
          Unpainted s.scene.store s'.scene.store :=
      returns_onScene (formed_gather stock shown)
    obtain ⟨first, rest, nodes⟩ := List.exists_cons_of_ne_nil some
    dsimp only
    rw [nodes] at gathered ⊢
    refine returns_bind gathered ?_
    rintro n s' ⟨formed, new, unpainted⟩
    rw [← nodes] at formed
    exact returns_pure ⟨n, rfl, formed, unpainted, fun member => absurd (stock.made n member) (Nat.not_lt_of_ge new)⟩

/-! ### Names and transforms -/

theorem returns_setPart {missing : Float} {change : Vec3 → Node → Node} (read : Node → Vec3) {value : Value}
    (same : ∀ node, change (read node) node = node) (readable : ReadablePart missing value) (scene : Scene) :
    Returns (SceneAction.setPart missing change n value) scene fun _ scene' =>
      scene' = scene.onStore (·.modify n fun node => change (partOf missing value (read node)) node) := by
  unfold SceneAction.setPart
  cases null : value.isNull with
  | true =>
    refine returns_pure ?_
    simp [partOf, null, same, Scene.onStore, modify_same]
  | false =>
    rcases readable with absurd | ⟨part, read⟩
    · rw [null] at absurd
      cases absurd
    · rw [if_neg Bool.false_ne_true, read]
      refine returns_pure_bind (returns_modify ?_)
      simp [partOf, null, read, Except.toOption]

theorem returns_setTransform (legible : b.Legible) (scene : Scene) :
    Returns (SceneAction.setTransform n b.position b.rotation b.scale) scene fun _ scene' =>
      scene' = scene.onStore (·.modify n fun node =>
        { node with
          position := partOf 0.0 b.position node.position
          rotation := partOf 0.0 b.rotation node.rotation
          scale := partOf 1.0 b.scale node.scale }) := by
  unfold SceneAction.setTransform
  refine returns_bind (returns_setPart Node.position (fun _ => rfl) legible.position scene) ?_
  rintro _ first rfl
  refine returns_bind (returns_setPart Node.rotation (fun _ => rfl) legible.rotation _) ?_
  rintro _ second rfl
  refine returns_mono (returns_setPart Node.scale (fun _ => rfl) legible.scale _) ?_
  rintro _ third rfl
  simp only [Scene.onStore, modify_modify]

/-- A node is named, transformed and hidden, goes into its parent and is registered. -/
theorem returns_settle (legible : b.Legible) (unknown : s.registry.get? b.path = none) :
    Returns (settle b n parent parentPath) s fun found s' => found = n ∧
      s' = (s.styled b n).entered [⟨b.path, n, parentPath, b⟩] ((s.styled b n).scene.attach parent n) := by
  have change : ∀ {action : SceneAction PUnit} {scene next : Scene},
      Returns action scene (fun _ after => after = next) →
      Returns (onScene action) { s with scene := scene } fun _ after => after = { s with scene := next } :=
    fun body => returns_onScene (returns_mono body fun _ _ same => by rw [same])
  -- what is left to do once the node looks as it should
  have finish : ∀ scene, scene = s.scene.onStore (·.modify n b.styled) →
      Returns (enter b n parent parentPath) { s with scene := scene } fun found s' => found = n ∧
        s' = (s.styled b n).entered [⟨b.path, n, parentPath, b⟩] ((s.styled b n).scene.attach parent n) := by
    rintro scene rfl
    refine returns_bind (change (returns_modify rfl)) ?_
    rintro _ _ rfl
    refine returns_modify_bind (returns_pure ⟨rfl, ?_⟩)
    rw [register_free unknown, putEntry_absent (Registry.get_none unknown)]
    rfl
  refine returns_bind (change (returns_modify rfl)) ?_
  rintro _ _ rfl
  refine returns_bind (change (returns_setTransform legible _)) ?_
  rintro _ _ rfl
  cases shown : b.visible with
  | true =>
    refine finish _ ?_
    unfold Blueprint.styled
    simp only [Scene.rename, Scene.onStore, modify_modify, shown, Bool.and_true]
  | false =>
    refine returns_bind (change (returns_modify rfl)) ?_
    rintro _ _ rfl
    refine finish _ ?_
    unfold Blueprint.styled
    simp only [Scene.rename, Scene.hide, Scene.onStore, modify_modify, shown, Bool.and_false]

end Place

end ProceduralScene
