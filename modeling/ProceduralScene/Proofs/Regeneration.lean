import ProceduralScene.Proofs.Runs

/-!
Regeneration of one subtree. Whatever set of nodes holds the parent and no node of the subtree is spared, as long as no
entry of its nodes has a path of the new blueprint; the nodes above the subtree are such a set always.
-/

set_option autoImplicit false

namespace ProceduralScene

open Store

section

variable {names : List String} {root p : NodeId} {e : Entry Blueprint} {s s' : Session}

/-- What is left when a subtree is released, and what its action is made into again. -/
structure Remade (names : List String) (root : NodeId) (e : Entry Blueprint) (p : NodeId) (s : Session)
    (result : Option NodeId × Option Blueprint) (s' : Session) : Prop where
  parent : result.1 = some p
  whole : Whole names root s'
  stands : Stands [(root, "")] s' e.parentPath p
  entries : ∀ f, f ∈ s'.registry.entries ↔ f ∈ s.registry.entries ∧ ¬ Below s.scene.store e.node f.node
  children : s'.scene.store.childrenOf p = (s.scene.store.childrenOf p).erase e.node
  spared : ∀ (K : NodeId → Prop) (paths : List String), UpwardClosed s.scene.store K → ¬ K e.node →
    (∀ x, K x → x < s.scene.store.size) → Spared K paths (fun _ => False) s s'
  nested : ∀ b, result.2 = some b → b.Nested names e.parentPath
  laid : ∀ b, result.2 = some b → ∃ lo hi, s.scene.store.size ≤ lo ∧ hi ≤ s'.scene.store.size ∧
    b.Laid s'.scene.store lo hi
  named : e.build.name ≠ "" → ∀ b, result.2 = some b → b.name = e.build.name

/-- A name that was given is the name again. -/
theorem yields_given {source : Action} {index : Option Nat} (one : source.makesOne index = true) (ctx : Context)
    (scope name : String) :
    Yields (Walk.again source ctx scope name index) s fun result _ => name ≠ "" → ∀ b, result = some b → b.name = name := by
  by_cases given : name = ""
  · exact yields_mono (yields_any _ s) fun _ _ _ other => absurd given other
  · exact yields_mono (Walk.named_again one ctx scope given) fun _ _ named _ => named

theorem remade (whole : Whole names root s) (member : e ∈ s.registry.entries)
    (link : s.scene.store.parentOf e.node = some p) (stands : Stands [(root, "")] s e.parentPath p) :
    Yields (SessionAction.remake e.path e) s fun result after => Remade names root e p s result after := by
  -- forgetting what was evaluated changes neither registry nor scene
  let start : Session := { s with evaluator := s.evaluator.clearMemo }
  have whole₁ : Whole names root start := whole_tuned whole rfl rfl rfl
    { whole.coherent.ready with evaluator := plain_clearMemo whole.coherent.ready.evaluator }
    (furnished_same whole.furnished rfl)
  have linked := whole.coherent.linked
  refine yields_modify_bind ?_
  have read : Yields SessionAction.store start fun store after => store = s.scene.store ∧ after = start :=
    yields_get (yields_pure ⟨rfl, rfl⟩)
  refine yields_bind read ?_
  rintro _ _ ⟨rfl, rfl⟩
  have releasing : Yields (SessionAction.releasePath e.path) start fun _ after => after = start.released e.path :=
    ends_modifyGet rfl
  refine yields_bind releasing ?_
  rintro _ _ rfl
  have done := released whole₁.coherent whole₁.accounted e.path
  have dropped : Dropped e.node start (start.released e.path) := by
    rcases released_cases whole₁.coherent.linked whole₁.coherent.counted e.path with ⟨absent, _⟩ | ⟨f, there, same, dropped⟩
    · exact absurd rfl (absent e member)
    · exact whole₁.coherent.path_unique there member same ▸ dropped
  generalize start.released e.path = middle at done dropped
  refine yields_modify_bind (yields_get ?_)
  have spared₂ : ∀ (K : NodeId → Prop) (paths : List String), UpwardClosed s.scene.store K → ¬ K e.node →
      Spared K paths (fun _ => False) s middle.rebuildGlobals := fun K paths closed free =>
    have spared := dropped.spared (s := start) linked closed free paths fun _ => False
    { spared with same := by rw [Session.rebuildGlobals, dropped.same] }
  have whole₂ : Whole names root middle.rebuildGlobals := by
    have spared := spared₂ (· = root) [] (upward_root whole.coherent) fun same =>
      whole.coherent.entry_ne_anchor member whole.coherent.rooted same
    refine whole_spared (K := (· = root)) whole rfl spared ?_ done.accounted
    exact { done.coherent with ready := { done.coherent.ready with } }
  have furnished : Furnished middle := furnished_same whole₁.furnished (by rw [dropped.same])
  have globals := plain_rebuildGlobals furnished
  obtain ⟨_, tame, one, _, layers, _⟩ := (Blueprint.nested_iff _ _ _).mp (whole.coherent.builds e member).2
  have again := yields_and
    (yields_of_within (Walk.made_again (Context.plain_stack globals layers) whole₂.coherent.ready tame e.parentPath
      e.build.name one))
    (yields_given one (Context.stack middle.rebuildGlobals.globals e.build.scope) e.parentPath e.build.name)
  refine yields_bind again ?_
  rintro rebuilt last ⟨⟨walked, made⟩, named⟩
  have registry : last.registry = middle.registry := by rw [walked.same]; rfl
  have outside : ¬ Below s.scene.store e.node p := not_below_own_child linked link
  have bound : p < middle.scene.store.size := by
    rw [dropped.freed.size]
    exact parent_exists linked link
  refine yields_pure
    { parent := ?_
      whole := whole_walked whole₂ walked
      stands := ?_
      entries := fun f => ?_
      children := ?_
      spared := fun K paths closed free bounded => ?_
      nested := ?_
      laid := ?_
      named := named }
  · rw [link]
    rfl
  · have left := dropped.stands (s := start) linked outside stands
    unfold Stands at left ⊢
    rwa [registry]
  · rw [registry]
    exact dropped.mem_entries (s := start) linked
  · have old : last.scene.store.get? p = middle.scene.store.get? p := walked.scene.store.old p (Nat.not_le_of_lt bound)
    rw [children_of_get old]
    exact dropped.freed.children p
  · refine spared_trans (spared₂ K paths closed free) (spared_confined walked.scene.store registry ?_ ?_ paths _)
    · rw [walked.same]
    · intro x keep fresh
      have size : middle.scene.store.size = s.scene.store.size := dropped.freed.size
      exact Nat.not_lt_of_ge (size ▸ fresh) (bounded x keep)
  · rintro b rfl
    exact made.nested.1
  · rintro b rfl
    have laid := made.laid
    rw [Option.toList_some, Blueprint.AllLaid] at laid
    obtain ⟨_, lo, hi, low, here, later⟩ := laid
    have size : middle.scene.store.size = s.scene.store.size := dropped.freed.size
    exact ⟨lo, hi, size ▸ low, (Blueprint.allLaid_apart later).ordered, here⟩

/-- The parent of an entry is the root or below it. -/
theorem root_above (whole : Whole names root s) (member : e ∈ s.registry.entries)
    (link : s.scene.store.parentOf e.node = some p) : Below s.scene.store root p := by
  obtain ⟨a, anchor, below⟩ := whole.coherent.entry_placed member
  rw [List.mem_singleton.mp anchor] at below
  exact below_parent below link (whole.coherent.entry_ne_anchor member whole.coherent.rooted)

/-- What holds when a subtree was regenerated, for the nodes that are spared. -/
structure Regenerated (names : List String) (root : NodeId) (e : Entry Blueprint) (p : NodeId) (K : NodeId → Prop)
    (s : Session) (result : Option NodeId) (s' : Session) : Prop where
  whole : Whole names root s'
  spared : ∃ paths, Spared K paths (· = p) s s'
  appended : Appended K ((s.scene.store.childrenOf p).erase e.node) result.toList (s'.scene.store.childrenOf p)

theorem regenerated (whole : Whole names root s) (member : e ∈ s.registry.entries)
    (link : s.scene.store.parentOf e.node = some p) (stands : Stands [(root, "")] s e.parentPath p) {K : NodeId → Prop}
    (closed : UpwardClosed s.scene.store K) (bounded : ∀ x, K x → x < s.scene.store.size) (free : ¬ K e.node)
    (inside : K p)
    (clear : Yields (SessionAction.remake e.path e) s fun result middle =>
      Remade names root e p s result middle → ∀ b, result.2 = some b → Clear K b.paths middle) :
    Yields (SessionAction.regenerate e.path) s fun result after => Regenerated names root e p K s result after := by
  refine yields_get ?_
  rw [whole.coherent.get_path member]
  refine yields_bind (yields_and (remade whole member link stands) clear) ?_
  rintro ⟨here, rebuilt⟩ middle ⟨made, clear⟩
  have clear := clear made
  obtain rfl : here = some p := made.parent
  have spared := fun paths => made.spared K paths closed free bounded
  have later : ∀ {paths : List String} {after : Session}, Spared K paths (· = p) middle after →
      Spared K paths (· = p) s after := fun further =>
    spared_trans (spared_mono (fun _ keep => keep) (fun _ listed => listed) (fun _ _ never => never.elim) (spared _)) further
  cases rebuilt with
  | none =>
    refine yields_pure ⟨made.whole, ⟨[], later (spared_refl K _ _ middle)⟩, ?_⟩
    exact ⟨_, trimmed_refl K _, made.children.trans (List.append_nil _).symm⟩
  | some b =>
    have linked := whole.coherent.linked
    obtain ⟨lo, hi, low, high, laid⟩ := made.laid b rfl
    have container := container_of_child linked link
    have room : Room K [(root, "")] middle p e.parentPath lo hi :=
      { closed := upward_spared closed (spared [])
        bound := fun x keep => (bounded x keep).trans_le (spared []).size
        inside := inside
        aside := fun x keep range => Nat.not_lt_of_ge (low.trans range.1) (bounded x keep)
        apart := fun a anchor range =>
          Nat.not_lt_of_ge (low.trans range.1) (List.mem_singleton.mp anchor ▸ whole.coherent.roots _ whole.coherent.rooted).1
        high := high
        container := (holds_of_bare ((spared []).bare p inside) bare_isContainer).trans container
        stands := made.stands }
    refine yields_mono (done_place b p e.parentPath made.whole.coherent made.whole.accounted room laid (made.nested b rfl)
      (clear b rfl)) ?_
    intro result after done
    refine ⟨?_, ⟨b.paths, later done.spared⟩, made.children ▸ done.appended⟩
    exact whole_spared made.whole (upward_below closed (root_above whole member link) inside) done.spared done.coherent
      done.accounted

/-! ### The nodes above a subtree -/

theorem joinPath_top (name : String) : joinPath "" name = name := rfl

/-- A path in a scope is longer than the scope. -/
theorem joinPath_longer {scope : String} (inner : scope ≠ "") (name : String) :
    scope.length < (joinPath scope name).length := by
  have dotted : joinPath scope name = scope ++ "." ++ name := by simp [joinPath, inner]
  rw [dotted, String.length_append, String.length_append]
  exact Nat.lt_of_lt_of_le (Nat.lt_add_of_pos_right (by decide)) (Nat.le_add_right _ _)

theorem joinPath_length (scope name : String) : scope.length ≤ (joinPath scope name).length := by
  by_cases top : scope = ""
  · exact top ▸ Nat.zero_le _
  · exact Nat.le_of_lt (joinPath_longer top name)

theorem joinPath_nonempty {scope name : String} (given : scope ≠ "" ∨ name ≠ "") : joinPath scope name ≠ "" := by
  by_cases top : scope = ""
  · rw [top, joinPath_top]
    exact given.resolve_left (fun inner => inner top)
  · intro empty
    have long := joinPath_longer top name
    rw [empty] at long
    exact Nat.not_lt_zero _ long

/-- The entries above the parent of an entry have no longer paths than its scope. -/
theorem length_above (whole : Whole names root s) {f : Entry Blueprint} (there : f ∈ s.registry.entries) {x : NodeId}
    (above : Below s.scene.store f.node x) : ∀ e ∈ s.registry.entries, s.scene.store.parentOf e.node = some x →
      f.path.length ≤ e.parentPath.length := by
  have coherent := whole.coherent
  induction above with
  | top =>
    intro e member link
    obtain ⟨p, link', stands⟩ := coherent.parents e member
    obtain rfl : f.node = p := Option.some.inj (link.symm.trans link')
    rcases stands with anchor | ⟨g, _, path, same⟩
    · exact absurd rfl (coherent.entry_ne_anchor there anchor)
    · exact path ▸ le_of_eq (congrArg (·.path.length) (List.inj_on_of_nodup_map coherent.nodes ‹_› there same)).symm
  | @child x y up _ ih =>
    intro e member link
    obtain ⟨p, link', stands⟩ := coherent.parents e member
    obtain rfl : x = p := Option.some.inj (link.symm.trans link')
    rcases stands with anchor | ⟨g, inner, path, rfl⟩
    · rw [(coherent.roots _ anchor).2] at up
      cases up
    · have nested := (Blueprint.nested_iff _ _ _).mp (coherent.builds g inner).2
      calc f.path.length ≤ g.parentPath.length := ih g inner up
        _ ≤ (joinPath g.parentPath g.build.name).length := joinPath_length _ _
        _ = g.path.length := by rw [← nested.1, (coherent.builds g inner).1]
        _ = e.parentPath.length := by rw [path]

mutual
/-- No path in a blueprint is shorter than that of the blueprint. -/
theorem length_paths : ∀ (b : Blueprint) {scope path : String}, b.Nested names scope → path ∈ b.paths →
    b.path.length ≤ path.length
  | ⟨here, name, content, position, rotation, scale, visible, material, children, context, layers, source, index, anchor⟩,
    scope, path, nested, listed => by
    rw [Blueprint.paths] at listed
    rw [Blueprint.Nested] at nested
    rcases List.mem_cons.mp listed with rfl | inner
    · exact Nat.le_refl _
    · exact length_allPaths children nested.2.2.2.2.2 inner

theorem length_allPaths : ∀ (list : List Blueprint) {scope path : String}, Blueprint.AllNested names scope list →
    path ∈ Blueprint.allPaths list → scope.length ≤ path.length
  | [], _, _, _, listed => nomatch listed
  | first :: rest, scope, path, nested, listed => by
    rw [Blueprint.AllNested] at nested
    rw [Blueprint.allPaths] at listed
    rcases List.mem_append.mp listed with here | later
    · have path := ((Blueprint.nested_iff _ _ _).mp nested.1).1
      exact (path ▸ joinPath_length scope first.name).trans (length_paths first nested.1 here)
    · exact length_allPaths rest nested.2 later
end

/-- The paths that a subtree is made of again are not those of nodes above it. -/
theorem clear_above (whole : Whole names root s) (member : e ∈ s.registry.entries)
    (link : s.scene.store.parentOf e.node = some p) {result : Option NodeId × Option Blueprint}
    (made : Remade names root e p s result s') {b : Blueprint} (again : result.2 = some b) :
    Clear (fun x => Below s.scene.store x p) b.paths s' := by
  intro f there listed above
  have before := ((made.entries f).mp there).1
  have nested := made.nested b again
  have path := ((Blueprint.nested_iff _ _ _).mp nested).1
  have long := length_paths b nested listed
  have short := length_above whole before above e member link
  rw [path] at long
  by_cases inner : e.parentPath = ""
  · -- at the top the name of the subtree tells its path from the empty one
    rw [inner, joinPath_top] at long
    rw [inner] at short
    have empty : f.path = "" := String.length_eq_zero_iff.mp (Nat.le_zero.mp short)
    rw [empty] at long
    have nameless : b.name = "" := String.length_eq_zero_iff.mp (Nat.le_zero.mp long)
    have given : e.build.name = "" := by
      by_contra given
      exact given ((made.named given b again).symm.trans nameless)
    have builds := whole.coherent.builds e member
    have here : e.path = "" := by
      rw [← builds.1, ((Blueprint.nested_iff _ _ _).mp builds.2).1, inner, given]
      rfl
    have same := whole.coherent.path_unique before member (empty.trans here.symm)
    exact not_below_own_child whole.coherent.linked link (same ▸ above)
  · exact Nat.not_lt_of_ge (long.trans short) (joinPath_longer inner b.name)

/-- Nothing is regenerated at a path that has no entry. -/
theorem absent_regenerate {path : String} (absent : s.registry.get? path = none) {post : Option NodeId → Session → Prop} :
    Yields (SessionAction.regenerate path) s post := by
  refine yields_get ?_
  rw [absent]
  exact yields_throw

/-- Regeneration keeps a session whole. -/
theorem whole_regenerate (whole : Whole names root s) (path : String) :
    Yields (SessionAction.regenerate path) s fun _ after => Whole names root after := by
  cases found : s.registry.get? path with
  | none => exact absent_regenerate found
  | some e =>
    obtain ⟨member, rfl⟩ := Registry.get_mem found
    obtain ⟨p, link, stands⟩ := whole.coherent.parents e member
    have linked := whole.coherent.linked
    have bound := parent_exists linked link
    refine yields_mono (regenerated whole member link stands (ancestors_upward p)
      (fun x above => below_exists linked above bound) (fun above => not_below_own_child linked link above) .top ?_)
      fun _ _ done => done.whole
    exact yields_mono (yields_any _ s) fun result middle _ made b again => clear_above whole member link made again

end

end ProceduralScene
