import ProceduralScene.Proofs.Dressing

/-!
What the results of a blueprint show after its node was painted, named and transformed: the results that were taken as
they are have the new looks, so that the blueprint has the same picture again.
-/

set_option autoImplicit false

namespace ProceduralScene

open Store

section

variable {scene : Scene} {n : NodeId} (b : Blueprint) (always : Bool) (material : MaterialId)

/-- A node other than a finished one shows its picture, painted or not. -/
theorem shows_finished (linked : Linked scene.store) (parentless : scene.store.parentOf n = none) {id : NodeId}
    (other : id ≠ n) {p : Picture} (shown : Shows scene.store id p) :
    ∃ q, q.map (Scene.painted always material) = p.map (Scene.painted always material) ∧
      Shows ((scene.paint always material n).onStore (·.modify n b.styled)).store id q := by
  have outside : ¬ Below scene.store id n := fun below => other (below_root below parentless).symm
  obtain ⟨parents, children⟩ := Scene.paint_stays always material n scene
  have linked' : Linked (scene.paint always material n).store := linked_of_same linked parents children
  have painted : ∃ q, q.map (Scene.painted always material) = p.map (Scene.painted always material) ∧
      Shows (scene.paint always material n).store id q := by
    by_cases inside : Below scene.store n id
    · refine ⟨_, ?_, Scene.shows_paint linked inside shown⟩
      rw [Picture.map_map]
      simp only [Scene.painted_painted]
    · refine ⟨p, rfl, shows_of_get linked (fun x below => ?_) shown⟩
      rw [Scene.paint_get, if_neg]
      intro member
      have above := (mem_walk linked).mp (List.mem_filter.mp member).1
      exact (below_linear below above).elim outside inside
  obtain ⟨q, same, shown⟩ := painted
  refine ⟨q, same, shows_of_get linked' (fun x below => ?_) shown⟩
  refine get_modify_elsewhere _ _ fun same => outside ?_
  exact (below_alike parents).mp (same ▸ below)

theorem showsAll_finished (linked : Linked scene.store) (parentless : scene.store.parentOf n = none) {ids : List NodeId}
    {ps : List Picture} (others : n ∉ ids) (shown : ShowsAll scene.store ids ps) :
    ∃ qs, Picture.mapAll (Scene.painted always material) qs = Picture.mapAll (Scene.painted always material) ps ∧
      ShowsAll ((scene.paint always material n).onStore (·.modify n b.styled)).store ids qs := by
  induction ids generalizing ps with
  | nil =>
    cases shown
    exact ⟨[], rfl, .nil⟩
  | cons id rest ih =>
    cases shown with
    | cons first later =>
      have other : id ≠ n := fun same => others (by simp [same])
      obtain ⟨q, same, here⟩ := shows_finished b always material linked parentless other first
      obtain ⟨qs, alike, rest⟩ := ih (fun member => others (by simp [member])) later
      exact ⟨q :: qs, by rw [Picture.mapAll, Picture.mapAll, same, alike], .cons here rest⟩

theorem finished_alike {p q : Picture}
    (same : q.map (Scene.painted always material) = p.map (Scene.painted always material)) :
    b.finished always material q = b.finished always material p := by
  rw [Blueprint.finished, same, Blueprint.finished]

/-- The results of a finished node give the picture of that node once more. -/
theorem resultShows_finished (linked : Linked scene.store) (parentless : scene.store.parentOf n = none) {result : Value}
    {p : Picture} (single : n ∈ Place.resultNodes result → result = .node n)
    (shown : ResultShows scene.store b.name result p)
    (finished : Shows ((scene.paint always material n).onStore (·.modify n b.styled)).store n (b.finished always material p)) :
    ∃ q, b.finished always material q = b.finished always material p ∧
      ResultShows ((scene.paint always material n).onStore (·.modify n b.styled)).store b.name result q := by
  cases shown with
  | @node id _ shown =>
    by_cases same : id = n
    · exact ⟨_, Blueprint.finished_finished b always material p, .node (same ▸ finished)⟩
    · obtain ⟨q, alike, here⟩ := shows_finished b always material linked parentless same shown
      exact ⟨q, finished_alike b always material alike, .node here⟩
  | @list items ps some shown =>
    have others : n ∉ Place.nodesOf items := fun member => by cases single member
    obtain ⟨qs, alike, here⟩ := showsAll_finished b always material linked parentless others shown
    exact ⟨_, finished_alike b always material (by rw [Picture.map, Picture.map, alike]), .list some here⟩

end

end ProceduralScene
