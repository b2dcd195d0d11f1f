import ProceduralScene.Proofs.Consistency
import ProceduralScene.Proofs.Furnishing
import ProceduralScene.Proofs.WalkCount

/-!
Placing, releasing and placing again. Releasing takes everything back but the results, which are disposed then; the
second time they are copied, and the copies show what the results showed.
-/

set_option autoImplicit false

namespace ProceduralScene

open Store SessionAction
open Blueprint (results)

/-- Where a blueprint can be placed and released again: its paths are free, its results are nowhere else, and the
parent is a container apart from them. -/
structure Site (s : Session) (b : Blueprint) (parent : NodeId) : Prop where
  placeable : Placeable s b.placed
  unregistered : Unregistered s b.placed
  legible : ∀ c ∈ b.placed, c.Legible
  container : s.scene.store.holds Payload.isContainer parent = true
  outside : ¬ s.scene.store.Used (results b.placed) parent

/-- A blueprint was placed: the tree mirrors it, and it stands at the end of its parent unless it was left out. -/
structure Stood (s : Session) (b : Blueprint) (parent : NodeId) (parentPath : String) (found : Option NodeId)
    (s' : Session) : Prop where
  mirrors : Mirrors s' b found
  children : s'.scene.store.childrenOf parent = s.scene.store.childrenOf parent ++ found.toList
  paths : s'.registry.paths = s.registry.paths ++ b.registers s.registry.paths parentPath

section

variable {s mid : Session} {b : Blueprint} {parent n : NodeId} {parentPath : String} {gallery more : Gallery} {p : Picture}
  {added : List (Entry Blueprint)}

theorem Site.not_own (site : Site s b parent) : ¬ s.scene.store.Own (results b.placed) parent := by
  rintro (new | used)
  · exact Nat.not_lt_of_ge new (holds_lt site.container)
  · exact site.outside used

/-- The parent is as it was when the node is built. -/
theorem Site.kept (site : Site s b parent) (built : Built gallery parentPath b s n p mid added more) :
    mid.scene.store.get? parent = s.scene.store.get? parent := built.confined.old parent site.not_own

theorem Site.attachable (site : Site s b parent) (built : Built gallery parentPath b s n p mid added more) :
    Attachable mid parent n where
  linked := built.linked site.placeable.toStock
  counted := built.counted
  holds := (holds_of_bare (bare_of_get (site.kept built)) bare_isContainer).trans site.container
  made := built.made
  parentless := built.parentless
  apart below := site.not_own (built.own_below site.placeable.toStock below)

/-- What was there before is not below the node. -/
theorem Site.before (site : Site s b parent) (built : Built gallery parentPath b s n p mid added more) {x : NodeId}
    (made : x < s.scene.store.size) (unused : ¬ s.scene.store.Used (results b.placed) x) : ¬ Below mid.scene.store n x := by
  intro below
  rcases built.own_below site.placeable.toStock below with new | used
  · exact Nat.not_lt_of_ge new made
  · exact unused used

/-! ### Placing -/

theorem stood_left {s' : Session} (hung : Hung s.scene.store s.registry.entries gallery)
    (noted : Noted s s') (single : b.content ≠ .group) (free : s.registry.get? b.path = none)
    (depicts : Depicts s gallery parentPath b none []) : Stood s b parent parentPath none s' where
  mirrors := .left single (noted.registry ▸ free)
  children := by rw [noted.scene, Option.toList_none, List.append_nil]
  paths := by
    have none : [] = b.registers gallery.paths parentPath := depicts_registers b depicts
    have paths : s.registry.paths = gallery.paths := hung_paths hung
    rw [noted.registry, paths, ← none, List.append_nil]

theorem stood_placed (site : Site s b parent) (hung : Hung s.scene.store s.registry.entries gallery)
    (built : Built gallery parentPath b s n p mid added more) : Stood s b parent parentPath (some n)
      (mid.entered [⟨b.path, n, parentPath, b⟩] (mid.scene.attach parent n)) where
  mirrors := mirrors_built site.unregistered built (site.attachable built)
  children := by
    show (mid.scene.attach parent n).store.childrenOf parent = _
    rw [Scene.attach_store, (site.attachable built).children, if_pos rfl, children_of_get (site.kept built)]
    rfl
  paths := by
    have paths : s.registry.paths = gallery.paths := hung_paths hung
    have inner : added.map (·.path) = more.paths := hung_paths built.hung
    show (mid.registry.entries ++ [_]).map _ = _
    rw [built.entries, paths, ← depicts_registers b built.depicts, gallery_paths_append, ← inner, ← paths]
    simp [Registry.paths, Gallery.paths]

/-- The geometries of its picture are live once a blueprint was placed. -/
theorem liveCount_placed (site : Site s b parent) (built : Built gallery parentPath b s n p mid added more) :
    (mid.scene.attach parent n).liveCount = s.scene.liveCount + p.geometries := by
  have attachable := site.attachable built
  have stock := site.placeable.toStock
  obtain ⟨counted, _⟩ := Scene.attach_live attachable.counted attachable.linked_add
  have apart : ∀ x ∈ s.scene.live, ¬ Below mid.scene.store n x := fun x member =>
    site.before built (live_lt (stock.counted.sound x member)) (site.placeable.dead x member)
  have joined : (s.scene.live ++ (mid.scene.store.walk n).filter mid.scene.store.hasLiveGeometry).Nodup := by
    refine List.nodup_append.mpr ⟨stock.counted.distinct, (walk_nodup attachable.linked n).filter _, ?_⟩
    rintro x old y new rfl
    exact apart x old ((mem_walk attachable.linked).mp (List.mem_filter.mp new).1)
  -- the account is the old one and what a walk from the node meets
  have same : (mid.scene.attach parent n).live.Perm
      (s.scene.live ++ (mid.scene.store.walk n).filter mid.scene.store.hasLiveGeometry) := by
    refine (List.perm_ext_iff_of_nodup counted.distinct joined).mpr fun x => ?_
    rw [attachable.live, List.mem_append, List.mem_filter, mem_walk attachable.linked]
    constructor
    · rintro (before | new)
      · exact (built.below x before).imp_right fun below => ⟨below, attachable.counted.sound x before⟩
      · exact .inr new
    · exact Or.imp_left (built.kept x)
  have count := countP_walk attachable.linked built.shown fun x below => built.pristine stock below
  rw [Scene.liveCount, same.length_eq, List.length_append, ← count, List.countP_eq_length_filter, Scene.liveCount]

/-! ### Releasing -/

/-- What was registered outside of the node is what was registered before. -/
theorem kept_entries (site : Site s b parent) (built : Built gallery parentPath b s n p mid added more) {e : Entry Blueprint}
    (here : e.node = n) : (mid.registry.entries ++ [e]).filter
      (fun found => !((mid.scene.attach parent n).store.walk n).contains found.node) = s.registry.entries := by
  have attachable := site.attachable built
  have inside : ∀ x, x ∈ (mid.scene.attach parent n).store.walk n ↔ Below mid.scene.store n x := by
    intro x
    rw [Scene.attach_store, mem_walk attachable.linked_add, attachable.below]
  have old : s.registry.entries.filter (fun e => !((mid.scene.attach parent n).store.walk n).contains e.node) =
      s.registry.entries := by
    refine List.filter_eq_self.mpr fun e member => ?_
    have outside := site.before built (site.placeable.entries e member).1 (site.placeable.entries e member).2
    simpa [inside] using outside
  have new : (added ++ [e]).filter (fun e => !((mid.scene.attach parent n).store.walk n).contains e.node) = [] := by
    refine List.filter_eq_nil_iff.mpr fun f member => ?_
    have below : Below mid.scene.store n f.node := by
      rcases List.mem_append.mp member with inner | last
      · exact (built.inside f inner).2
      · rw [List.mem_singleton.mp last, here]
        exact .top
    simpa [inside] using below
  rw [built.entries, List.append_assoc, List.filter_append, old, new, List.append_nil]

theorem released_placed (site : Site s b parent) (built : Built gallery parentPath b s n p mid added more) :
    Returns (releasePath b.path) (mid.entered [⟨b.path, n, parentPath, b⟩] (mid.scene.attach parent n)) fun _ freed =>
      freed.registry = s.registry ∧ mid.Recalls freed ∧
        freed.scene = ((mid.scene.attach parent n).detach n).dispose n := by
  have found : (Registry.mk (mid.registry.entries ++ [⟨b.path, n, parentPath, b⟩])).get? b.path =
      some ⟨b.path, n, parentPath, b⟩ := by
    have none := absent_built site.unregistered built
    rw [Registry.get?] at none
    rw [Registry.get?, List.find?_append, none]
    simp
  refine returns_modifyGet ?_
  simp only [Session.entered, Registry.release, found]
  refine ⟨?_, recalls_elsewhere _ _ _, trivial⟩
  rw [kept_entries site built rfl]

end

section

variable {scene : Scene} {n x : NodeId}

theorem copy_dispose (node : Node) : node.dispose.copyWithoutChildren = node.copyWithoutChildren := by
  obtain ⟨name, position, rotation, scale, visible, carried, parent, disposed, payload⟩ := node
  cases payload with
  | drawable geometry material => cases geometry <;> rfl
  | _ => rfl

theorem look_dispose : (scene.dispose n).store.look? x = scene.store.look? x := by
  rw [Scene.dispose, look?, Scene.disposeAll_get]
  split
  · rw [Option.map_map, Function.comp_def]
    simp only [copy_dispose, look?]
  · rfl

theorem disposed_dispose (made : x < scene.store.size) (inside : x ∈ scene.store.walk n) :
    (scene.dispose n).store.isDisposed x = true := by
  obtain ⟨node, found⟩ := get_of_lt made
  rw [Scene.dispose, isDisposed, Scene.disposeAll_get, if_pos inside, found]
  rfl

end

/-- A scene in which a node went into a container and was freed. -/
def Scene.withdrawn (container n : NodeId) (scene : Scene) : Scene := ((scene.attach container n).detach n).dispose n

section

variable {s : Session} {container n : NodeId}

theorem freed_withdrawn (attachable : Attachable s container n) :
    Scene.Freed n (s.scene.attach container n) (s.scene.withdrawn container n) := by
  refine Scene.freed_dispose ?_ (Scene.attach_live attachable.counted attachable.linked_add).1 n
  rw [Scene.attach_store]
  exact attachable.linked_add

theorem look_withdrawn (x : NodeId) : (s.scene.withdrawn container n).store.look? x = s.scene.store.look? x := by
  rw [Scene.withdrawn, look_dispose, Scene.detach_store, look_of_bare (bare_detach n x), Scene.attach_store,
    look_of_bare (bare_add container n x)]

theorem children_withdrawn (attachable : Attachable s container n) (x : NodeId) :
    (s.scene.withdrawn container n).store.childrenOf x = s.scene.store.childrenOf x := by
  have absent : n ∉ s.scene.store.childrenOf x := fun listed => by
    rw [attachable.linked.agree, attachable.parentless] at listed
    cases listed
  rw [(freed_withdrawn attachable).children, Scene.attach_store, attachable.children]
  split
  · rw [List.erase_append_right _ absent, List.erase_cons_head, List.append_nil]
  · exact List.erase_of_not_mem absent

theorem shows_withdrawn (attachable : Attachable s container n) {id : NodeId} {p : Picture}
    (shown : Shows s.scene.store id p) : Shows (s.scene.withdrawn container n).store id p :=
  shows_same attachable.linked (fun x _ => look_withdrawn x) (fun x _ => children_withdrawn attachable x) shown

/-- A node that could still be taken stands outside of the freed one, and it could be taken before. -/
theorem usable_withdrawn (attachable : Attachable s container n) {x : NodeId} (made : x < s.scene.store.size)
    (usable : (s.scene.withdrawn container n).store.Usable x) :
    ¬ Below s.scene.store n x ∧ s.scene.store.Usable x := by
  have freed := freed_withdrawn attachable
  have store : (s.scene.attach container n).store = s.scene.store.add container n := Scene.attach_store _ _ _
  have below : ∀ y, Below (s.scene.attach container n).store n y ↔ Below s.scene.store n y := fun y => by
    rw [store, attachable.below]
  -- inside of the freed node everything is disposed
  have outside : ¬ Below s.scene.store n x := by
    intro inside
    have linked : Linked (s.scene.attach container n).store := store ▸ attachable.linked_add
    have walked : x ∈ ((s.scene.attach container n).detach n).store.walk n := by
      rw [Scene.detach_store, mem_walk (linked_detach linked n)]
      exact (Scene.below_detach_self linked n x).mpr ((below x).mpr inside)
    have bound : x < ((s.scene.attach container n).detach n).store.size := by
      rw [Scene.detach_store, size_detach, store, size_add]
      exact made
    have disposed := disposed_dispose bound walked
    rw [← Scene.withdrawn, usable.2] at disposed
    cases disposed
  have other : x ≠ n := fun same => outside (same ▸ .top)
  refine ⟨outside, ?_, ?_⟩
  · have parent := freed.parent x
    rw [usable.1, if_neg other, store, parent_add attachable.made, if_neg other] at parent
    exact parent.symm
  · have bare := freed.bare x fun inside => outside ((below x).mp inside)
    rw [← disposed_of_bare (bare_add container n x), ← store, ← disposed_of_bare bare]
    exact usable.2

end

/-! ### Placing again -/

section

variable {s mid freed : Session} {b : Blueprint} {parent n : NodeId} {parentPath : String} {gallery more : Gallery}
  {p : Picture} {added : List (Entry Blueprint)}

theorem liveCount_withdrawn (site : Site s b parent) (built : Built gallery parentPath b s n p mid added more) :
    (mid.scene.withdrawn parent n).liveCount = s.scene.liveCount := by
  have attachable := site.attachable built
  have withdrawn := freed_withdrawn attachable
  have below : ∀ x, Below (mid.scene.attach parent n).store n x ↔ Below mid.scene.store n x := fun x => by
    rw [Scene.attach_store, attachable.below]
  have counted := site.placeable.counted
  refine List.Perm.length_eq ((List.perm_ext_iff_of_nodup withdrawn.counted.distinct counted.distinct).mpr fun x => ?_)
  rw [withdrawn.live, attachable.live, below]
  constructor
  · rintro ⟨before | new, outside⟩
    · exact (built.below x before).resolve_right outside
    · exact absurd new.1 outside
  · intro member
    exact ⟨.inl (built.kept x member), site.before built (live_lt (counted.sound x member)) (site.placeable.dead x member)⟩

/-- After the release no result can be taken as it is any more. -/
theorem unused_withdrawn (site : Site s b parent) (built : Built gallery parentPath b s n p mid added more) (x : NodeId) :
    ¬ (mid.scene.withdrawn parent n).store.Used (results b.placed) x := by
  rintro ⟨id, member, usable, _⟩
  have stock := site.placeable.toStock
  obtain ⟨outside, before⟩ := usable_withdrawn (site.attachable built)
    ((stock.made id member).trans_le built.confined.size) usable
  exact outside (built.taken id ⟨id, member, usable_before stock built.toWorked before, .top⟩)

/-- The blueprint can be placed once more where it was released. -/
theorem site_withdrawn (site : Site s b parent) (built : Built gallery parentPath b s n p mid added more)
    (registry : freed.registry = s.registry) (scene : freed.scene = mid.scene.withdrawn parent n) : Site freed b parent := by
  have attachable := site.attachable built
  have withdrawn := freed_withdrawn attachable
  have unused := unused_withdrawn site built
  rw [← scene] at withdrawn unused
  have size : freed.scene.store.size = mid.scene.store.size := by
    rw [withdrawn.size, Scene.attach_store, size_add]
  have later : s.scene.store.size ≤ freed.scene.store.size := size ▸ built.confined.size
  have outside : ¬ Below (mid.scene.attach parent n).store n parent := by
    rw [Scene.attach_store, attachable.below]
    exact attachable.apart
  have unusable : ∀ id ∈ results b.placed, ¬ freed.scene.store.Usable id := fun id member usable =>
    unused id ⟨id, member, usable, .top⟩
  have placeable : Placeable freed b.placed :=
    { linked := withdrawn.linked
      counted := withdrawn.counted
      made := fun id member => (site.placeable.made id member).trans_le later
      pristine := fun x used => absurd used (unused x)
      apart := by
        refine site.placeable.apart.imp_of_mem fun {c d} listed listed' _ x given y given' free => ?_
        rcases free with free | free
        · exact absurd free (unusable x (List.mem_flatMap.mpr ⟨c, listed, given⟩))
        · exact absurd free (unusable y (List.mem_flatMap.mpr ⟨d, listed', given'⟩))
      entries := fun e member => ⟨(site.placeable.entries e (registry ▸ member)).1.trans_le later, unused e.node⟩
      dead := fun x _ => unused x }
  exact
    { placeable := placeable
      unregistered := ⟨site.unregistered.distinct, fun c member => registry ▸ site.unregistered.free c member⟩
      legible := site.legible
      container := by
        refine (holds_of_bare (withdrawn.bare parent outside) bare_isContainer).trans ?_
        rw [Scene.attach_store]
        exact (holds_of_bare (bare_add parent n parent) bare_isContainer).trans attachable.holds
      outside := unused parent }

/-- A session after the release of what was placed. -/
structure Recovered (s : Session) (parent : NodeId) (freed : Session) : Prop where
  registry : freed.registry = s.registry
  liveCount : freed.scene.liveCount = s.scene.liveCount
  children : freed.scene.store.childrenOf parent = s.scene.store.childrenOf parent

/-- Two subtrees look the same, and nothing in the second one was disposed. -/
structure Resembles (s : Session) (n : NodeId) (s' : Session) (n' : NodeId) : Prop where
  picture : ∃ p, Shows s.scene.store n p ∧ Shows s'.scene.store n' p
  undisposed : ∀ x, Below s'.scene.store n' x → s'.scene.store.isDisposed x = false

/-- What was placed, released and placed again stands there as it did the first time. -/
structure Restored (first : Session) (made : Option NodeId) (second : Session) (again : Option NodeId) :
    Prop where
  paths : second.registry.paths = first.registry.paths
  liveCount : second.scene.liveCount = first.scene.liveCount
  node : Option.Rel (fun n n' => Resembles first n second n') made again

theorem shows_entered (site : Site s b parent) (built : Built gallery parentPath b s n p mid added more) :
    Shows (mid.scene.attach parent n).store n p := by
  rw [Scene.attach_store]
  exact (site.attachable built).shows (site.attachable built).apart built.shown

theorem undisposed_entered (site : Site s b parent) (built : Built gallery parentPath b s n p mid added more) (x : NodeId)
    (below : Below (mid.scene.attach parent n).store n x) : (mid.scene.attach parent n).store.isDisposed x = false := by
  rw [Scene.attach_store, (site.attachable built).below] at below
  rw [Scene.attach_store, disposed_of_bare (bare_add parent n x)]
  exact pristine_undisposed (built.pristine site.placeable.toStock below)

/-- A blueprint that was placed is placed the same way after it was released. -/
theorem restored_placed (site : Site s b parent) (hung : Hung s.scene.store s.registry.entries gallery)
    (built : Built gallery parentPath b s n p mid added more) (registry : freed.registry = s.registry)
    (recalls : mid.Recalls freed) (scene : freed.scene = mid.scene.withdrawn parent n) :
    Returns (Place.place parent parentPath b) freed fun again second => Stood freed b parent parentPath again second ∧
      Restored (mid.entered [⟨b.path, n, parentPath, b⟩] (mid.scene.attach parent n)) (some n) second again := by
  have attachable := site.attachable built
  have site' := site_withdrawn site built registry scene
  have shows : ∀ id q, Shows mid.scene.store id q → Shows freed.scene.store id q := fun id q shown =>
    scene ▸ shows_withdrawn attachable shown
  have hung' : Hung freed.scene.store freed.registry.entries gallery := by
    rw [registry]
    exact hung_each (hung_kept site.placeable (List.Subset.refl _) built.confined hung) fun e _ q => shows e.node q
  have depicts : Depicts freed gallery parentPath b (some p) (more ++ [(b.path, p)]) :=
    depicts_later recalls b (fun _ _ id _ q => shows id q) built.depicts
  refine returns_mono (places b freed gallery parent parentPath site'.placeable site'.unregistered site'.legible hung') ?_
  intro again second ending
  cases ending with
  | left _ _ _ none =>
    obtain ⟨none, _⟩ := depicts_unique b none depicts
    cases none
  | @placed n' p' mid' added' more' built' =>
    -- the second time the picture is the one that the results promise, and they look as they did
    obtain ⟨same, sameMore⟩ := built'.honest _ _ depicts
    cases same
    have stood := stood_placed site hung built
    have stood' := stood_placed site' hung' built'
    have alike : Resembles (mid.entered [⟨b.path, n, parentPath, b⟩] (mid.scene.attach parent n)) n
        (mid'.entered [⟨b.path, n', parentPath, b⟩] (mid'.scene.attach parent n')) n' :=
      ⟨⟨p, shows_entered site built, shows_entered site' built'⟩, undisposed_entered site' built'⟩
    refine ⟨stood', ?_, ?_, .some alike⟩
    · rw [stood.paths, stood'.paths, registry]
    · show (mid'.scene.attach parent n').liveCount = (mid.scene.attach parent n).liveCount
      rw [liveCount_placed site built, liveCount_placed site' built', scene, liveCount_withdrawn site built]

theorem site_noted {s' : Session} (site : Site s b parent) (noted : Noted s s') : Site s' b parent := by
  obtain ⟨placeable, unregistered, legible, container, outside⟩ := site
  have placeable' : Placeable s' b.placed :=
    { linked := noted.scene ▸ placeable.linked
      counted := noted.scene ▸ placeable.counted
      made := noted.scene ▸ placeable.made
      pristine := noted.scene ▸ placeable.pristine
      apart := noted.scene ▸ placeable.apart
      entries := by
        rw [noted.scene, noted.registry]
        exact placeable.entries
      dead := noted.scene ▸ placeable.dead }
  exact ⟨placeable', ⟨unregistered.distinct, noted.registry ▸ unregistered.free⟩, legible, noted.scene ▸ container,
    noted.scene ▸ outside⟩

theorem restored_left (site : Site s b parent) (hung : Hung s.scene.store s.registry.entries gallery) {first : Session}
    (noted : Noted s first) (depicts : Depicts s gallery parentPath b none []) :
    Returns (Place.place parent parentPath b) first fun again second => Stood first b parent parentPath again second ∧
      Restored first none second again := by
  have site' := site_noted site noted
  have hung' : Hung first.scene.store first.registry.entries gallery := by rwa [noted.scene, noted.registry]
  have depicts' := depicts_later noted.recalls b (fun _ _ _ _ _ shown => noted.scene ▸ shown) depicts
  refine returns_mono (places b first gallery parent parentPath site'.placeable site'.unregistered site'.legible hung') ?_
  intro again second ending
  cases ending with
  | left noted' single _ _ =>
    have free := site'.unregistered.free b (placed_self b)
    refine ⟨stood_left hung' noted' single free depicts', ?_, ?_, .none⟩
    · rw [noted'.registry]
    · rw [noted'.scene]
  | placed built =>
    obtain ⟨none, _⟩ := built.honest _ _ depicts'
    cases none

/-- A blueprint can be placed, released and placed again: the release leaves the registry, the account and the parent as
they were, and the second time the same is there as the first time. -/
theorem placed_again (site : Site s b parent) (parentPath : String) :
    Returns (Place.place parent parentPath b) s fun made first => Stood s b parent parentPath made first ∧
      Returns (releasePath b.path) first fun _ freed => Recovered s parent freed ∧
        Returns (Place.place parent parentPath b) freed fun again second =>
          Stood freed b parent parentPath again second ∧ Restored first made second again := by
  obtain ⟨gallery, hung⟩ := hung_exists site.placeable.linked fun e member => (site.placeable.entries e member).1
  refine returns_mono (places b s gallery parent parentPath site.placeable site.unregistered site.legible hung) ?_
  intro made first ending
  cases ending with
  | left noted single bare depicts =>
    have free : first.registry.get? b.path = none := noted.registry ▸ site.unregistered.free b (placed_self b)
    refine ⟨stood_left hung noted single (site.unregistered.free b (placed_self b)) depicts, ?_⟩
    refine returns_mono (returns_release free) ?_
    rintro _ freed same
    rw [same]
    exact ⟨⟨noted.registry, by rw [noted.scene], by rw [noted.scene]⟩, restored_left site hung noted depicts⟩
  | placed built =>
    refine ⟨stood_placed site hung built, returns_mono (released_placed site built) ?_⟩
    rintro _ freed ⟨registry, recalls, scene⟩
    refine ⟨⟨registry, ?_, ?_⟩, restored_placed site hung built registry recalls scene⟩
    · rw [scene]
      exact liveCount_withdrawn site built
    · rw [scene]
      exact (children_withdrawn (site.attachable built) parent).trans (children_of_get (site.kept built))

end

/-! ### Placements of fixed blueprints -/

namespace Sample

/-- A root and two nodes beside it. -/
def room : Session := session [Node.ofPayload "root" (.container []), box, Node.ofPayload "frame" (.container [])]

def blueprint (path name : String) (content : BlueprintContent) (children : List Blueprint) : Blueprint :=
  ⟨path, name, content, .null, .null, .null, true, .null, children, [], [],
    .group ⟨.text name, .null, .null, .null, .bool true⟩ [], none, false⟩

def made : Blueprint := blueprint "g.b" "b" (.call "createBox" (.map []) (some (.node 1))) []

def copied : Blueprint := blueprint "g.r" "r" (.reference "b") []

/-- A group of a node that a helper made and a copy of it. -/
def pair : Blueprint := blueprint "g" "g" .group [made, copied]

theorem legible_blueprint {path name : String} {content : BlueprintContent} {children : List Blueprint}
    (made : content.isDeferred = false) : (blueprint path name content children).Legible :=
  ⟨made, .inl rfl, .inl rfl, .inl rfl, nofun⟩

theorem parent_room (x : NodeId) : room.scene.store.parentOf x = none := by
  rcases x with _ | _ | _ | x <;> rfl

theorem children_room (x : NodeId) : room.scene.store.childrenOf x = [] := by
  rcases x with _ | _ | _ | x <;> rfl

theorem linked_room : Linked room.scene.store where
  agree child parent := by simp [parent_room, children_room]
  distinct parent := by simp [children_room]
  grounded := ⟨fun _ => 0, fun child parent link => by simp [parent_room] at link⟩

theorem pristine_room (x : NodeId) : room.scene.store.PristineAt x := by
  intro node found
  rcases x with _ | _ | _ | x
  · cases found
    exact ⟨rfl, nofun⟩
  · cases found
    refine ⟨rfl, fun shape same => ?_⟩
    cases same
    rfl
  · cases found
    exact ⟨rfl, nofun⟩
  · cases found

theorem site_pair : Site room pair 0 := by
  have placed : pair.placed = [pair, made, copied] := rfl
  have results : results pair.placed = [1] := rfl
  have alone : ∀ x, room.scene.store.Used [1] x → x = 1 := by
    rintro x ⟨id, member, _, below⟩
    rw [← List.mem_singleton.mp member]
    exact below_root below (parent_room x)
  have placeable : Placeable room pair.placed :=
    { linked := linked_room
      counted := ⟨List.nodup_nil, nofun⟩
      made := by
        rw [results]
        intro id member
        rw [List.mem_singleton.mp member]
        decide
      pristine := fun x _ => pristine_room x
      apart := by
        rw [placed]
        refine .cons (fun _ _ _ given => nomatch given) (.cons (fun c listed _ _ _ given => ?_) (.cons nofun .nil))
        rw [List.mem_singleton.mp listed] at given
        cases given
      entries := nofun
      dead := nofun }
  exact
    { placeable := placeable
      unregistered := ⟨by decide, fun _ _ => rfl⟩
      legible := by
        rw [placed]
        simp only [List.forall_mem_cons]
        exact ⟨legible_blueprint rfl, legible_blueprint rfl, legible_blueprint rfl, nofun⟩
      container := rfl
      outside := fun used => by
        rw [results] at used
        cases alone 0 used }

end Sample

/-- A node and a copy of it in a group are placed, released and placed again. -/
theorem placed_again_pair : Site Sample.room Sample.pair 0 ∧
    Returns (Place.place 0 "" Sample.pair) Sample.room fun made first => Stood Sample.room Sample.pair 0 "" made first ∧
      Returns (releasePath "g") first fun _ freed => Recovered Sample.room 0 freed ∧
        Returns (Place.place 0 "" Sample.pair) freed fun again second =>
          Stood freed Sample.pair 0 "" again second ∧ Restored first made second again :=
  ⟨Sample.site_pair, placed_again Sample.site_pair ""⟩

namespace Sample

/-- The node is in the frame and registered, as if it had been placed before. -/
def lodged : Session :=
  { room with
    scene := { room.scene with store := room.scene.store.add 2 1, live := [1] }
    registry := ⟨[⟨"b", 1, "", blueprint "b" "b" (.reference "a") []⟩]⟩ }

/-- The frame as a result. -/
def frame : Blueprint := blueprint "g" "g" (.call "group" (.map []) (some (.node 2))) []

end Sample

/-- What is registered inside a result is dropped with it. -/
theorem drops_within : ¬ ∀ (s : Session) (b : Blueprint) (parent : NodeId) (parentPath : String),
    Linked s.scene.store → s.scene.Counted → (∀ id ∈ results b.placed, id < s.scene.store.size) →
    (∀ e ∈ s.registry.entries, e.node < s.scene.store.size) → s.scene.store.holds Payload.isContainer parent = true →
    Unregistered s b.placed → (∀ c ∈ b.placed, c.content.isDeferred = false) →
    b.placed.Pairwise (fun c d => ∀ x ∈ c.given, ∀ y ∈ d.given, s.scene.store.Apart x y) →
    Returns (Place.place parent parentPath b) s fun _ first =>
      Returns (releasePath b.path) first fun _ freed =>
        freed.registry.paths = s.registry.paths ∧ freed.scene.liveCount = s.scene.liveCount := by
  intro claimed
  -- the frame is taken as it is, and releasing it drops the entry of the node inside it
  have linked : Linked Sample.lodged.scene.store := by
    refine linked_add Sample.linked_room (by decide) rfl fun below => ?_
    cases below_root below (Sample.parent_room 2)
  have counted : Sample.lodged.scene.Counted := by
    refine ⟨List.nodup_singleton 1, fun x member => ?_⟩
    rw [List.mem_singleton.mp member]
    rfl
  have restored := claimed Sample.lodged Sample.frame 0 "" linked counted (by decide) (by decide) rfl
    ⟨by decide, fun c member => by rw [List.mem_singleton.mp member]; rfl⟩ (by decide) (.cons nofun .nil)
  obtain ⟨_, first, placed, restored⟩ := returns_iff.mp restored
  obtain ⟨_, freed, released, paths, _⟩ := returns_iff.mp restored
  have none : (Sample.after (releasePath Sample.frame.path)
      (Sample.after (Place.place 0 "" Sample.frame) Sample.lodged)).registry.paths = [] := by decide +kernel
  rw [Sample.after, Sample.after, placed, released, paths] at none
  cases none

end ProceduralScene
