import ProceduralScene.Proofs.Depiction
import ProceduralScene.Proofs.Walks

/-!
What later actions do to the results of earlier ones. As long as no stored result is handed to a group, later actions
leave every node alone that was made before. The stock factory of groups is the one that interferes: it takes its members
out of whatever held them.
-/

set_option autoImplicit false

namespace ProceduralScene

open Store

/-! ### Results -/

theorem BlueprintContent.among_of_holds {store : Store} {lo hi : Nat} {content : BlueprintContent} {helper : String}
    {result : Value} (made : content.made? = some (helper, result)) (holds : content.Holds store lo hi) :
    result.Among (Range lo hi) store := by
  cases content with
  | call called params found =>
    cases found with
    | none => cases made
    | some found =>
      cases made
      exact holds
  | shape called params found =>
    cases made
    exact holds
  | _ => cases made

namespace Blueprint

/-- The nodes of all results among the blueprints lie in the interval. -/
def ResultsIn (store : Store) (lo hi : Nat) (list : List Blueprint) : Prop :=
  ∀ b ∈ list, ∀ helper result, b.content.made? = some (helper, result) → result.Among (Range lo hi) store

section

variable {store : Store}

theorem resultsIn_mono {list : List Blueprint} {lo hi lower upper : Nat} (low : lower ≤ lo) (high : hi ≤ upper)
    (inside : ResultsIn store lo hi list) : ResultsIn store lower upper list := by
  intro b member helper result made id held
  obtain ⟨range, exists'⟩ := inside b member helper result made id held
  exact ⟨⟨low.trans range.1, range.2.trans_le high⟩, exists'⟩

theorem resultsIn_list {list : List Blueprint}
    (each : ∀ b ∈ list, ∀ {lo hi : Nat}, b.Laid store lo hi → ResultsIn store lo hi b.placed) {lo hi : Nat}
    (laid : AllLaid store list lo hi) : ResultsIn store lo hi (placedAll list) := by
  induction list generalizing lo with
  | nil => exact fun b member => nomatch member
  | cons first rest ih =>
    rw [AllLaid] at laid
    obtain ⟨_, start, mid, low, here, later⟩ := laid
    have lower := low.trans (laid_apart here).ordered
    have upper := (allLaid_apart later).ordered
    intro b member
    rcases List.mem_append.mp member with inside | behind
    · exact resultsIn_mono low upper (each first (by simp) here) b inside
    · exact resultsIn_mono lower (Nat.le_refl hi) (ih (fun b member => each b (by simp [member])) later) b behind

theorem laid_results : ∀ (b : Blueprint) {lo hi : Nat}, b.Laid store lo hi → ResultsIn store lo hi b.placed := by
  refine along_children fun b ih lo hi laid => ?_
  by_cases group : b.content = .group
  · rw [placed_group group]
    intro c member
    rcases List.mem_cons.mp member with rfl | inner
    · exact fun helper result made => nomatch group ▸ made
    · exact resultsIn_list ih ((laid_group group lo hi).mp laid) c inner
  · rw [placed_single group]
    intro c member helper result made
    rw [List.mem_singleton] at member
    subst member
    exact BlueprintContent.among_of_holds made ((laid_leaf group lo hi).mp laid).2

theorem allLaid_results {list : List Blueprint} {lo hi : Nat} (laid : AllLaid store list lo hi) :
    ResultsIn store lo hi (placedAll list) := resultsIn_list (fun b _ => laid_results b) laid

end

end Blueprint

/-! ### Later actions -/

namespace Walk

theorem actions_append (ctx : Context) (scope : String) (xs ys : List Action) :
    actions ctx scope (xs ++ ys) = do
      let first ← actions ctx scope xs
      return first ++ (← actions ctx scope ys) := by
  induction xs with
  | nil => simp [actions]
  | cons x xs ih => simp only [actions, ih, List.cons_append, bind_assoc, pure_bind, List.append_assoc]

section

variable {names : List String} {s last : Session} {ctx : Context} {scope : String} {xs ys : List Action}

/-- A walk over more actions begins with the walk over the first ones. -/
theorem all_append {list : List Blueprint} (run : (all (xs ++ ys) ctx scope).run.run s = (.ok list, last)) :
    ∃ mine later middle siblings, (all xs ctx scope).run.run s = (.ok mine, middle) ∧ list = mine ++ later ∧
      ∃ rest, (actions ctx scope ys siblings).run.run middle = (.ok (later, rest), last) := by
  suffices yields : Yields (all (xs ++ ys) ctx scope) s fun list last => ∃ mine later middle siblings,
      (all xs ctx scope).run.run s = (.ok mine, middle) ∧ list = mine ++ later ∧
        ∃ rest, (actions ctx scope ys siblings).run.run middle = (.ok (later, rest), last) from yields_ok yields run
  rw [all, actions_append]
  refine ends_map (yields_bind (yields_of_run fun _ _ run => run) ?_)
  rintro ⟨mine, siblings⟩ middle first
  refine yields_bind (yields_of_run fun _ _ run => run) ?_
  rintro ⟨later, rest⟩ last second
  have alone : (all xs ctx scope).run.run s = (.ok mine, middle) := by
    have mapped : (all xs ctx scope).run.run s = (Prod.fst <$> actions ctx scope xs []).run.run s := rfl
    rw [mapped, ExceptT.run_map, StateT.run_map, first]
    rfl
  exact yields_pure ⟨mine, later, middle, siblings, alone, rfl, rest, second⟩

/-- When no stored result is handed to a group, a walk over more actions makes the blueprints of the first ones as it
makes them alone, and everything that it made until then is still the same in the end: each result shows what it showed. -/
theorem earlier_results (ready : Ready names s) (plain : ctx.Plain) (tame : Action.allTame names xs = true)
    (tame' : Action.allTame names ys = true) {list : List Blueprint}
    (run : (all (xs ++ ys) ctx scope).run.run s = (.ok list, last)) :
    ∃ mine later middle, (all xs ctx scope).run.run s = (.ok mine, middle) ∧ list = mine ++ later ∧
      (∀ x < middle.scene.store.size, last.scene.store.get? x = middle.scene.store.get? x) ∧
      ∀ b ∈ Blueprint.placedAll mine, ∀ helper result, b.content.made? = some (helper, result) → ∀ id ∈ result.nodes,
        id < middle.scene.store.size ∧ ∀ p, Shows last.scene.store id p ↔ Shows middle.scene.store id p := by
  obtain ⟨mine, later, middle, siblings, first, rfl, rest, second⟩ := all_append run
  obtain ⟨walked, made⟩ := ends_ok (made_all plain ready tame) first
  have ready' := walked.ready ready
  obtain ⟨further, _⟩ := ends_ok (made_actions ys ctx scope middle plain ready' tame' siblings) second
  have kept := further.scene.store
  refine ⟨mine, later, middle, first, rfl, fun x old => kept.old x (Nat.not_le_of_lt old), ?_⟩
  intro b member helper result holds id held
  have exists' := (Blueprint.allLaid_results made.laid b member helper result holds id held).2
  refine ⟨exists', fun p => ⟨fun shown => ?_, shows_later ready'.linked kept⟩⟩
  -- a node shows one picture, and it had one before
  obtain ⟨q, before⟩ := shows_exists ready'.linked exists'
  rwa [shows_unique shown (shows_later ready'.linked kept before)]

end

end Walk

/-! ### Groups of stored results -/

namespace Factory

open SceneAction

theorem children_gathered {container : NodeId} (members : List NodeId) : ∀ store : Store, Linked store →
    (∀ id ∈ members, id < store.size ∧ id ≠ container) → store.parentOf container = none →
    store.holds Payload.isContainer container = true →
    ∀ x c, c ∈ (members.foldl (fun store child => store.add container child) store).childrenOf x ↔
      if x = container then c ∈ store.childrenOf x ∨ c ∈ members else c ∈ store.childrenOf x ∧ c ∉ members := by
  induction members with
  | nil => exact fun store _ _ _ _ x c => by simp
  | cons child rest ih =>
    intro store linked made root isContainer x c
    obtain ⟨here, other⟩ := made child (by simp)
    have apart : ¬ Below store child container := fun below => other (below_root below root).symm
    have linked' := linked_add linked here isContainer apart
    rw [List.foldl_cons, ih _ linked' (fun id member => by simpa using made id (by simp [member])) ?_ ?_,
      children_add linked isContainer]
    · by_cases same : x = container
      · simp only [if_pos same, List.mem_append, (linked.distinct x).mem_erase_iff, List.mem_cons]
        tauto
      · simp only [if_neg same, (linked.distinct x).mem_erase_iff, List.mem_cons]
        tauto
    · rw [parent_add here, if_neg (Ne.symm other), root]
    · exact (holds_of_bare (bare_add _ _ _) bare_isContainer).trans isContainer

theorem container_created (store : Store) (name : String) :
    let grown := (store.create (Node.ofPayload name (.container []))).2
    grown.parentOf store.size = none ∧ grown.childrenOf store.size = [] ∧
      grown.holds Payload.isContainer store.size = true := by
  have read := get_create store (Node.ofPayload name (.container [])) store.size
  rw [if_pos rfl] at read
  dsimp only
  rw [parentOf, childrenOf, holds, read]
  exact ⟨rfl, rfl, rfl⟩

/-- The nodes that the parameters hand to a group. -/
def handed (entries : List (Key × Value)) : List NodeId :=
  let given := param entries "children" .null
  match if given.truthy then given.items else .ok [] with
  | .ok items => memberNodes items
  | .error _ => []

/-- A group takes its members out of whatever held them, and no other node out of anything. -/
theorem group_takes {entries : List (Key × Value)} {scene : Scene} (linked : Linked scene.store)
    (made : ∀ id ∈ handed entries, id < scene.store.size) : Yields (group (.map entries)) scene fun result after =>
      result = .node scene.store.size ∧ (∀ c, c ∈ after.store.childrenOf scene.store.size ↔ c ∈ handed entries) ∧
        ∀ x c, x ≠ scene.store.size →
          (c ∈ after.store.childrenOf x ↔ c ∈ scene.store.childrenOf x ∧ c ∉ handed entries) := by
  unfold group entriesOf
  refine yields_pure_bind (yields_reads reads_store fun store => yields_reads (reads_lift _) fun name => ?_)
  unfold handed at made ⊢
  dsimp only at made ⊢
  cases listed : if (param entries "children" .null).truthy then (param entries "children" .null).items else .ok [] with
  | error failure => exact yields_throw
  | ok members =>
    rw [listed] at made
    dsimp only at made ⊢
    have passed : Yields (lift (.ok members)) scene fun value after => value = members ∧ after = scene :=
      yields_pure ⟨rfl, rfl⟩
    have created : Yields (createContainer name) scene fun id after =>
        id = scene.store.size ∧ after = (scene.create (Node.ofPayload name (.container []))).2 := ends_modifyGet ⟨rfl, rfl⟩
    refine yields_bind passed ?_
    rintro value before ⟨same, still⟩
    rw [same, still]
    refine yields_bind created ?_
    rintro id grown ⟨new, same⟩
    rw [new, same]
    refine yields_modify_bind (yields_pure ⟨rfl, ?_⟩)
    obtain ⟨parentless, childless, container⟩ := container_created scene.store name
    have gathered := children_gathered (memberNodes members) _ (linked_create linked rfl rfl)
      (fun id member => ⟨(made id member).trans (by simp), Nat.ne_of_lt (made id member)⟩) parentless container
    refine ⟨fun c => ?_, fun x c other => ?_⟩
    · refine (gathered scene.store.size c).trans ?_
      simp [childless]
    · refine (gathered x c).trans ?_
      rw [if_neg other, children_create rfl]

end Factory

end ProceduralScene
