import ProceduralScene.Proofs.Mirroring
import ProceduralScene.Proofs.Placeable
import ProceduralScene.Proofs.Showing

/-!
What placing a single blueprint does: its node is built aside from the tree and then goes into its parent, and the
picture that it shows is the picture of the blueprint, before as well as after its results were taken.
-/

set_option autoImplicit false

namespace ProceduralScene

open Store SessionAction
open Blueprint (results)

/-- The node of a blueprint was built: it shows the picture of the blueprint, and its children mirror those of a group. -/
structure Built (gallery : Gallery) (parentPath : String) (b : Blueprint) (s : Session) (n : NodeId) (p : Picture)
    (mid : Session) (added : List (Entry Blueprint)) (more : Gallery) : Prop extends
    Formed (results b.placed) s n p mid added more where
  named : mid.scene.store.nameOf n = b.name
  depicts : Depicts mid gallery parentPath b (some p) (more ++ [(b.path, p)])
  honest : ∀ q all, Depicts s gallery parentPath b q all → q = some p ∧ all = more ++ [(b.path, p)]
  inner : b.content = .group → mid.scene.store.holds Payload.isContainer n = true ∧
    ∃ nodes, MirrorsAll mid b.children nodes ∧ mid.scene.store.childrenOf n = nodes.reduceOption

/-- How placing a blueprint ends: it is left out, or its node goes into the parent and is registered. -/
inductive Ending (gallery : Gallery) (parent : NodeId) (parentPath : String) (b : Blueprint) (s : Session) :
    Option NodeId → Session → Prop where
  | left {s' : Session} (noted : Noted s s') (single : b.content ≠ .group) (bare : results b.placed = [])
      (depicts : Depicts s gallery parentPath b none []) : Ending gallery parent parentPath b s none s'
  | placed {n : NodeId} {p : Picture} {mid : Session} {added : List (Entry Blueprint)} {more : Gallery}
      (built : Built gallery parentPath b s n p mid added more) :
      Ending gallery parent parentPath b s (some n)
        (mid.entered [⟨b.path, n, parentPath, b⟩] (mid.scene.attach parent n))

section

variable {s : Session} {b : Blueprint} {gallery : Gallery} {parent : NodeId} {parentPath : String}

theorem nameOf_styled {store : Store} {n : NodeId} {p : Picture} (shown : Shows store n (p.onTop b.styled)) :
    store.nameOf n = b.name := by
  obtain ⟨look, inner⟩ := p
  cases shown with
  | mk here _ =>
    obtain ⟨node, found, same⟩ := Option.map_eq_some_iff.mp here
    rw [nameOf, found]
    exact congrArg Node.name same

theorem resultShows_exists {store : Store} (linked : Linked store) {result : Value} (name : String)
    (made : ∀ id ∈ Place.resultNodes result, id < store.size) (some : Place.resultNodes result ≠ []) :
    ∃ p, ResultShows store name result p := by
  cases result with
  | node id =>
    obtain ⟨p, shown⟩ := shows_exists linked (made id (by simp [Place.resultNodes]))
    exact ⟨p, .node shown⟩
  | list items =>
    obtain ⟨ps, shown⟩ := showsAll_of_each fun id member => shows_exists linked (made id member)
    exact ⟨_, .list some shown⟩
  | _ => exact absurd rfl some

theorem results_single (single : b.content ≠ .group) : results b.placed = b.given := by
  rw [results, Blueprint.placed_single single, List.flatMap_cons, List.flatMap_nil, List.append_nil]

/-- A result that has no nodes is left out. -/
theorem ending_barren {helper : String} {result : Value} (made : b.content.made? = some (helper, result))
    (empty : Place.resultNodes result = []) :
    Returns (Place.leaf b helper result parent parentPath) s (Ending gallery parent parentPath b s) := by
  unfold Place.leaf
  refine returns_bind (Place.noted_nodeOfResult empty) ?_
  rintro _ s' ⟨rfl, noted⟩
  have single := made_not_group made
  refine returns_pure (.left noted single ?_ (.barren made empty))
  rw [results_single single, Blueprint.given_made made, empty]

/-- The session once a node was painted, named and transformed. -/
def Session.finished (b : Blueprint) (always : Bool) (material : MaterialId) (n : NodeId) (s : Session) : Session :=
  (s.painted always material n).styled b n

theorem recalls_finished (b : Blueprint) (always : Bool) (material : MaterialId) (n : NodeId) (s : Session) :
    s.Recalls (s.finished b always material n) := recalls_elsewhere s _ _

theorem formed_finished {given : List NodeId} {s' : Session} {n : NodeId} {p : Picture} (b : Blueprint) (always : Bool)
    (material : MaterialId) (stock : Stock s given) (formed : Formed given s n p s' [] []) :
    Formed given s n (b.finished always material p) (s'.finished b always material n) [] [] :=
  formed_styled b stock (formed_painted always material stock formed)

theorem ending_settle {n : NodeId} {p : Picture} {s' : Session} {added : List (Entry Blueprint)} {more : Gallery}
    (legible : b.Legible) (unknown : s'.registry.get? b.path = none)
    (built : Built gallery parentPath b s n p (s'.styled b n) added more) :
    Returns (do return some (← Place.settle b n parent parentPath)) s' (Ending gallery parent parentPath b s) := by
  refine returns_bind (Place.returns_settle legible unknown) ?_
  rintro _ _ ⟨here, rfl⟩
  rw [here]
  exact returns_pure (.placed built)

/-- Painting, then what settling does. -/
theorem ending_finished {n : NodeId} {p : Picture} {s' : Session} (legible : b.Legible) (always : Bool)
    (material : MaterialId) (unknown : s'.registry.get? b.path = none)
    (built : Built gallery parentPath b s n p (s'.finished b always material n) [] []) :
    Returns (do
      onScene (modify fun scene => scene.paint always material n)
      return some (← Place.settle b n parent parentPath)) s' (Ending gallery parent parentPath b s) := by
  have painted : Returns (onScene (modify fun scene => scene.paint always material n : SceneAction PUnit)) s' fun _ s'' =>
      s'' = s'.painted always material n := returns_onScene (returns_modify rfl)
  refine returns_bind painted ?_
  rintro _ _ rfl
  exact ending_settle legible unknown built

theorem built_leaf {helper : String} {result : Value} {n : NodeId} {p : Picture} {s' : Session} {material : MaterialId}
    (stock : Stock s (results b.placed)) (made : b.content.made? = some (helper, result))
    (formed : Formed (results b.placed) s n p s' [] []) (single : n ∈ Place.resultNodes result → result = .node n)
    (shown : ResultShows s.scene.store b.name result p) (shownNow : ResultShows s'.scene.store b.name result p)
    (tints : s'.Tints b material) :
    Built gallery parentPath b s n (b.finished (!b.material.isNull) material p)
      (s'.finished b (!b.material.isNull) material n) [] [] := by
  have finished := formed_finished b (!b.material.isNull) material stock formed
  have tintsLater := tints_later (recalls_finished b (!b.material.isNull) material n s') tints
  obtain ⟨q, alike, again⟩ := resultShows_finished b (!b.material.isNull) material (formed.linked stock)
    formed.parentless single shownNow finished.shown
  exact
    { finished with
      named := nameOf_styled finished.shown
      depicts := alike ▸ Depicts.made made again tintsLater
      honest := by
        intro r all depicts
        cases depicts with
        | group group => exact absurd group (made_not_group made)
        | made made' shown' tints' =>
          rw [made] at made'
          cases made'
          obtain rfl := resultShows_unique shown shown'
          obtain rfl := tints_unique (tints_later finished.recalls tints') tintsLater
          exact ⟨rfl, rfl⟩
        | barren made' empty =>
          rw [made] at made'
          cases made'
          exact absurd empty (resultShows_some shown)
        | reference other | missing other => exact absurd other (made_not_reference made)
      inner := fun group => absurd group (made_not_group made) }

theorem ending_leaf {helper : String} {result : Value} (legible : b.Legible) (placeable : Placeable s b.placed)
    (unknown : s.registry.get? b.path = none) (made : b.content.made? = some (helper, result))
    (some : Place.resultNodes result ≠ []) :
    Returns (Place.leaf b helper result parent parentPath) s (Ending gallery parent parentPath b s) := by
  have given : results b.placed = Place.resultNodes result := by
    rw [results_single (made_not_group made), Blueprint.given_made made]
  have stock := placeable.toStock
  obtain ⟨p, shown⟩ := resultShows_exists stock.linked b.name (given ▸ stock.made) some
  have formedNode : Returns (Place.nodeOfResult b helper result) s fun found s' => ∃ n, found = Option.some n ∧
      Formed (Place.resultNodes result) s n p s' [] [] ∧ Unpainted s.scene.store s'.scene.store ∧
      (n ∈ Place.resultNodes result → result = .node n) := Place.formed_nodeOfResult (given ▸ stock) shown
  rw [← given] at formedNode
  unfold Place.leaf
  refine returns_bind formedNode ?_
  rintro _ s₁ ⟨n, rfl, formed, unpainted, single⟩
  refine returns_bind (Place.returns_materialOf legible.material s₁) fun material s₂ tinted => ?_
  have same : ∀ x, s₂.scene.store.get? x = s₁.scene.store.get? x := fun x => tinted.confined.old x id
  have registry : s₂.registry.entries = s.registry.entries := by
    rw [tinted.registry, formed.entries, List.append_nil]
  have unknown' : s₂.registry.get? b.path = none := by
    rw [Registry.get?, registry]
    exact unknown
  -- the results still show what they showed
  have shownNow : ResultShows s₂.scene.store b.name result p := by
    refine resultShows_each (fun id member q before => ?_) shown
    have bound := stock.made id (given ▸ member)
    apply shows_same stock.linked _ _ before
    · exact fun x below => (look_of_get (same x)).trans (unpainted x (below_lt below bound)).1
    · exact fun x below => (children_of_get (same x)).trans (unpainted x (below_lt below bound)).2
  have tintedForm := formed_tinted stock formed tinted
  exact ending_finished legible _ material unknown'
    (built_leaf stock made tintedForm (given ▸ single) shown shownNow tinted.tints)

theorem ending_made {helper : String} {result : Value} (legible : b.Legible) (placeable : Placeable s b.placed)
    (unknown : s.registry.get? b.path = none) (made : b.content.made? = some (helper, result)) :
    Returns (Place.leaf b helper result parent parentPath) s (Ending gallery parent parentPath b s) := by
  by_cases empty : Place.resultNodes result = []
  · exact ending_barren made empty
  · exact ending_leaf legible placeable unknown made empty

/-! ### References -/

theorem noted_resolveTarget {target scope path : String} (missing : s.registry.resolve target scope = none) :
    Returns (Place.resolveTarget target scope path) s fun found s' => found = none ∧ Noted s s' := by
  refine returns_get ?_
  rw [missing]
  exact returns_bind (noted_record _ _ _ s) fun _ s' noted => returns_pure ⟨rfl, noted⟩

theorem returns_resolveTarget {target scope path : String} {e : Entry Blueprint}
    (found : s.registry.resolve target scope = some e) :
    Returns (Place.resolveTarget target scope path) s fun node s' => node = some e.node ∧ s' = s := by
  refine returns_get ?_
  rw [found]
  exact returns_pure ⟨rfl, rfl⟩

theorem tints_null (null : b.material.isNull = true) (s : Session) : s.Tints b s.materials.default := by
  have value : b.material = .null := by
    cases material : b.material with
    | null => rfl
    | _ => rw [material] at null; cases null
  intro later recalls
  have plain : ∀ text, b.material ≠ .text text := fun text same => by
    rw [value] at same
    cases same
  rw [Place.materialOf_value plain, value]
  exact returns_modifyGet (MaterialTable.default_grows recalls.materials)

theorem given_reference {target : String} (reference : b.content = .reference target) : results b.placed = [] := by
  have single : b.content ≠ .group := fun group => by rw [group] at reference; cases reference
  rw [results_single single, Blueprint.given, reference]
  rfl

theorem built_reference {target : String} {n : NodeId} {p : Picture} {mid : Session} {material : MaterialId}
    (reference : b.content = .reference target) (found : gallery.resolve target parentPath = some p)
    (formed : Formed (results b.placed) s n (b.copied material p) mid [] []) (tints : mid.Tints b material) :
    Built gallery parentPath b s n (b.copied material p) mid [] [] := by
  have single : b.content ≠ .group := fun group => by rw [group] at reference; cases reference
  exact
    { formed with
      named := by
        have shown := formed.shown
        unfold Blueprint.copied at shown
        split at shown
        · exact nameOf_styled shown
        · exact nameOf_styled shown
      depicts := .reference reference found tints
      honest := by
        intro q all depicts
        cases depicts with
        | group group => exact absurd group single
        | made made | barren made => exact absurd reference (made_not_reference made)
        | reference other found' tints' =>
          rw [reference] at other
          cases other
          rw [found] at found'
          cases found'
          obtain rfl := tints_unique (tints_later formed.recalls tints') tints
          exact ⟨rfl, rfl⟩
        | missing other missing =>
          rw [reference] at other
          cases other
          rw [found] at missing
          cases missing
      inner := fun group => absurd group single }

theorem ending_reference {target : String} (legible : b.Legible) (placeable : Placeable s b.placed)
    (unknown : s.registry.get? b.path = none) (reference : b.content = .reference target)
    (hung : Hung s.scene.store s.registry.entries gallery) :
    Returns (Place.reference b target parent parentPath) s (Ending gallery parent parentPath b s) := by
  have none := given_reference reference
  have stock := placeable.toStock
  have unused : ∀ x, ¬ s.scene.store.Used (results b.placed) x := by
    rintro x ⟨id, member, _⟩
    rw [none] at member
    cases member
  unfold Place.reference
  rcases hung_resolve hung target parentPath with ⟨missing, missing'⟩ | ⟨e, p, found, found', shown⟩
  · refine returns_bind (noted_resolveTarget missing) ?_
    rintro _ s' ⟨rfl, noted⟩
    refine returns_pure (.left noted (fun group => ?_) none (.missing reference missing'))
    rw [group] at reference
    cases reference
  · refine returns_bind (returns_resolveTarget found) ?_
    rintro _ _ ⟨rfl, same⟩
    rw [same]
    have cloned : Returns (onScene (SceneAction.clone e.node)) s fun n s' =>
        Formed (results b.placed) s n p s' [] [] ∧ s'.registry = s.registry :=
      returns_onScene (returns_mono (formed_clone stock unused shown) fun _ _ formed => ⟨formed.1, rfl⟩)
    refine returns_bind cloned ?_
    rintro n s₁ ⟨formed, registry⟩
    cases null : b.material.isNull with
    | true =>
      refine ending_settle legible (registry ▸ unknown) (built_reference reference found' ?_ (tints_null null _))
      rw [Blueprint.copied, if_pos null]
      exact formed_styled b stock formed
    | false =>
      refine returns_bind (Place.returns_materialOf legible.material s₁) fun material s₂ tinted => ?_
      have unknown' : s₂.registry.get? b.path = Option.none := by
        rw [tinted.registry, registry]
        exact unknown
      have finished := formed_finished b true material stock (formed_tinted stock formed tinted)
      have copied : b.copied material p = b.finished true material p := by
        rw [Blueprint.copied, if_neg (by simp [null])]
      rw [← copied] at finished
      have tints := tints_later (recalls_finished b true material n s₂) tinted.tints
      exact ending_finished legible true material unknown' (built_reference reference found' finished tints)

end

end ProceduralScene
