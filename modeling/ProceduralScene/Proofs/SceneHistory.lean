import Mathlib.Data.Set.Card
import ProceduralScene.Proofs.Release

/-!
What any sequence of changes does to a scene. Parents and child lists agree at every moment, as long as nothing is
taken out of a container that another one holds, and the account of geometries follows from the history: a geometry is
live when its subtree was attached and it was not disposed since.
-/

set_option autoImplicit false

namespace ProceduralScene

open Store

namespace Scene

/-- One change of a scene: nodes are made, copied, moved and disposed. -/
inductive Change where
  | create (node : Node)
  | clone (id : NodeId)
  | add (container child : NodeId)
  | remove (container child : NodeId)
  | attach (container child : NodeId)
  | detach (child : NodeId)
  | dispose (id : NodeId)

def changed (scene : Scene) : Change → Scene
  | .create node => (scene.create node).2
  | .clone id => (scene.clone id).2
  | .add container child => scene.onStore (·.add container child)
  | .remove container child => scene.onStore (·.remove container child)
  | .attach container child => scene.attach container child
  | .detach child => scene.detach child
  | .dispose id => scene.dispose id

namespace Change

/-- A new node comes without links, no node is put into its own subtree, and what is taken out of a container is a
child of it or stands nowhere. -/
def Fits (store : Store) : Change → Prop
  | .create node => node.parent = none ∧ node.payload.children = []
  | .clone id => id < store.size
  | .add container child | .attach container child =>
    child < store.size ∧ store.holds Payload.isContainer container = true ∧ ¬ Below store child container
  | .remove container child =>
    child < store.size ∧ store.holds Payload.isContainer container = true ∧
      (store.parentOf child = some container ∨ store.parentOf child = none)
  | .detach _ | .dispose _ => True

/-- The node is in the subtree that the change attaches. -/
def Attaches (store : Store) (g : NodeId) : Change → Prop
  | .attach _ child => Below store child g
  | _ => False

/-- The node is in the subtree that the change disposes. -/
def Disposes (store : Store) (g : NodeId) : Change → Prop
  | .dispose id => Below store id g
  | _ => False

end Change

/-! ### Links -/

section

variable {store : Store} {container child : NodeId}

theorem remove_of_child (link : store.parentOf child = some container) : store.remove container child = store.detach child := by
  rw [detach_of_child link, Store.remove]

theorem parent_remove (made : child < store.size) (x : NodeId) :
    (store.remove container child).parentOf x = if x = child then none else store.parentOf x := by
  rw [Store.remove, parent_modify_parent _ _ _ _ (by simpa using made), parent_modify_children]

theorem children_remove (isContainer : store.holds Payload.isContainer container = true) (x : NodeId) :
    (store.remove container child).childrenOf x =
      if x = container then (store.childrenOf x).erase child else store.childrenOf x := by
  rw [Store.remove, children_modify_parent, children_modify_children _ _ _ _ isContainer]

theorem bare_remove (x : NodeId) : (store.remove container child).bare? x = store.bare? x := by
  rw [Store.remove, bare_modify _ setParent_bare, bare_modify _ (changeChildren_bare _)]

/-- Removing a node that stands nowhere changes no link. -/
theorem linked_remove_root (linked : Linked store) (made : child < store.size)
    (isContainer : store.holds Payload.isContainer container = true) (root : store.parentOf child = none) :
    Linked (store.remove container child) := by
  have absent : child ∉ store.childrenOf container := by
    intro listed
    rw [(linked.agree child container).mp listed] at root
    cases root
  refine linked_of_same linked (fun x => ?_) fun x => ?_
  · rw [parent_remove made]
    split
    · rename_i same
      rw [same, root]
    · rfl
  · rw [children_remove isContainer]
    split
    · rename_i same
      rw [same, List.erase_of_not_mem absent]
    · rfl

/-- Taking a node out of a container keeps the links if and only if the node is a child of that container or stands
nowhere. When another container holds it, that one goes on listing a node without a parent. -/
theorem linked_remove_iff (linked : Linked store) (made : child < store.size)
    (isContainer : store.holds Payload.isContainer container = true) :
    Linked (store.remove container child) ↔ store.parentOf child = some container ∨ store.parentOf child = none := by
  constructor
  · intro after
    cases link : store.parentOf child with
    | none => exact .inr rfl
    | some holder =>
      by_cases same : holder = container
      · exact .inl (same ▸ rfl)
      · have listed : child ∈ (store.remove container child).childrenOf holder := by
          rw [children_remove isContainer, if_neg same]
          exact (linked.agree child holder).mpr link
        have parent := (after.agree child holder).mp listed
        rw [parent_remove made, if_pos rfl] at parent
        cases parent
  · rintro (link | root)
    · rw [remove_of_child link]
      exact linked_detach linked child
    · exact linked_remove_root linked made isContainer root

/-- Put back where it was all the time, such a node is listed twice. -/
theorem children_add_stray (linked : Linked store) (made : child < store.size)
    (isContainer : store.holds Payload.isContainer container = true) {holder : NodeId}
    (link : store.parentOf child = some holder) (other : holder ≠ container) :
    ((store.remove container child).add holder child).childrenOf holder = store.childrenOf holder ++ [child] := by
  have stray : (store.remove container child).parentOf child = none := by rw [parent_remove made, if_pos rfl]
  have holds : ((store.remove container child).modify child (setParent (some holder))).holds Payload.isContainer holder =
      true := by
    refine (holds_of_bare ?_ bare_isContainer).trans (container_of_child linked link)
    rw [bare_modify _ setParent_bare, bare_remove]
  rw [Store.add, detach_of_root stray, children_modify_children _ _ _ _ holds, if_pos rfl, children_modify_parent,
    children_remove isContainer, if_neg other]

end

section

variable {scene : Scene} {change : Change}

theorem linked_changed (linked : Linked scene.store) (fits : change.Fits scene.store) : Linked (scene.changed change).store := by
  cases change with
  | create node => exact linked_create linked fits.1 fits.2
  | clone id => exact (clone_copied linked fits).confined.linked linked
  | add container child => exact linked_add linked fits.1 fits.2.1 fits.2.2
  | remove container child =>
    exact (linked_remove_iff linked fits.1 fits.2.1).mpr fits.2.2
  | attach container child =>
    rw [changed, attach_store]
    exact linked_add linked fits.1 fits.2.1 fits.2.2
  | detach child => exact linked_detach linked child
  | dispose id =>
    have links := disposeAll_links (scene.store.walk id) scene
    exact linked_of_same linked (fun x => (links x).1) fun x => (links x).2

/-! ### Geometries -/

/-- Where a node is put does not change what is below it. -/
theorem below_add_self {store : Store} (linked : Linked store) {container child : NodeId} (made : child < store.size)
    (x : NodeId) : Below (store.add container child) child x ↔ Below store child x := by
  constructor
  · intro below
    induction below with
    | top => exact .top
    | @child x parent link above ih =>
      by_cases same : x = child
      · exact same ▸ .top
      · exact .child (by rwa [parent_add made, if_neg same] at link) ih
  · intro below
    induction below with
    | top => exact .top
    | @child x parent link above ih =>
      have other : x ≠ child := fun same => not_below_own_child linked link (same ▸ above)
      exact .child ((parent_add made x).trans ((if_neg other).trans link)) ih

theorem enlivenAll_disposed (ids : List NodeId) : ∀ scene : Scene,
    (ids.foldl enliven scene).disposedCount = scene.disposedCount := by
  induction ids with
  | nil => exact fun scene => rfl
  | cons id rest ih =>
    intro scene
    rw [List.foldl_cons, ih, enliven]
    split <;> rfl

theorem size_changed (linked : Linked scene.store) (fits : change.Fits scene.store) :
    scene.store.size ≤ (scene.changed change).store.size := by
  cases change with
  | create node => exact (size_create scene.store node).symm ▸ Nat.le_succ scene.store.size
  | clone id => exact (clone_copied linked fits).confined.size
  | add container child => exact (size_add container child).ge
  | remove container child => simp [changed, onStore, Store.remove]
  | attach container child => exact (attach_store container child scene ▸ size_add container child).ge
  | detach child => exact (size_detach child).ge
  | dispose id => exact (disposeAll_size (scene.store.walk id) scene).ge

/-- A geometry that exists is disposed by nothing but a disposal of its subtree, and never comes back. -/
theorem geometry_changed (linked : Linked scene.store) (fits : change.Fits scene.store) {x : NodeId}
    (made : x < scene.store.size) : (scene.changed change).store.hasLiveGeometry x = true ↔
      scene.store.hasLiveGeometry x = true ∧ ¬ change.Disposes scene.store x := by
  -- all changes but disposals leave the payload of an old node alone
  have same : (scene.changed change).store.bare? x = scene.store.bare? x → ¬ change.Disposes scene.store x →
      ((scene.changed change).store.hasLiveGeometry x = true ↔
        scene.store.hasLiveGeometry x = true ∧ ¬ change.Disposes scene.store x) := by
    intro bare spared
    rw [live_of_bare bare, and_iff_left spared]
  cases change with
  | create node => exact same (bare_of_get (get_create_elsewhere scene.store node (Nat.ne_of_lt made))) id
  | clone id => exact same (bare_of_get ((clone_copied linked fits).confined.old x (Nat.not_le_of_lt made))) fun no => no
  | add container child => exact same (bare_add container child x) id
  | remove container child => exact same (bare_remove x) id
  | attach container child => exact same (attach_store container child scene ▸ bare_add container child x) id
  | detach child => exact same (bare_detach child x) id
  | dispose id =>
    have inside : x ∈ scene.store.walk id ↔ Below scene.store id x := mem_walk linked
    simp only [changed, dispose, Change.Disposes, hasLiveGeometry, disposeAll_get]
    by_cases below : Below scene.store id x
    · simp [inside, below, Option.any_map, live_dispose]
    · simp [inside, below]

/-- What one change does to the live geometries. -/
theorem live_changed (linked : Linked scene.store) (counted : Counted scene) (fits : change.Fits scene.store) :
    Counted (scene.changed change) ∧ ∀ g, g ∈ (scene.changed change).live ↔
      g ∈ scene.live ∧ ¬ change.Disposes scene.store g ∨
        change.Attaches scene.store g ∧ scene.store.hasLiveGeometry g = true := by
  -- a change that neither attaches nor disposes leaves the list as it is
  have same : (scene.changed change).live = scene.live → (∀ g, ¬ change.Disposes scene.store g) →
      (∀ g, ¬ change.Attaches scene.store g) → Counted (scene.changed change) ∧ ∀ g, g ∈ (scene.changed change).live ↔
      g ∈ scene.live ∧ ¬ change.Disposes scene.store g ∨
        change.Attaches scene.store g ∧ scene.store.hasLiveGeometry g = true := by
    intro live spared unmoved
    refine ⟨⟨live ▸ counted.distinct, fun g member => ?_⟩, fun g => ?_⟩
    · rw [live] at member
      have shown := counted.sound g member
      exact (geometry_changed linked fits (live_lt shown)).mpr ⟨shown, spared g⟩
    · simp [live, spared g, unmoved g]
  cases change with
  | create node => exact same rfl (fun _ => id) fun _ => id
  | clone id => exact same rfl (fun _ no => no) fun _ no => no
  | add container child => exact same rfl (fun _ => id) fun _ => id
  | remove container child => exact same rfl (fun _ => id) fun _ => id
  | detach child => exact same rfl (fun _ => id) fun _ => id
  | attach container child =>
    have placed : Linked (scene.store.add container child) := linked_add linked fits.1 fits.2.1 fits.2.2
    obtain ⟨counted', members⟩ := attach_live counted placed
    refine ⟨counted', fun g => ?_⟩
    rw [changed, members, below_add_self linked fits.1]
    simp [Change.Disposes, Change.Attaches]
  | dispose id =>
    obtain ⟨counted', members⟩ := disposeAll_live (scene.store.walk id) counted
    refine ⟨counted', fun g => ?_⟩
    rw [changed, dispose, members, mem_walk linked]
    simp [Change.Disposes, Change.Attaches]

/-- What one change disposes, each geometry once. -/
theorem disposedCount_changed (linked : Linked scene.store) (counted : Counted scene) :
    (scene.changed change).disposedCount = scene.disposedCount +
      {g | change.Disposes scene.store g ∧ scene.store.hasLiveGeometry g = true}.ncard := by
  cases change with
  | dispose id =>
    have distinct := walk_nodup linked id
    have disposed : {g | Below scene.store id g ∧ scene.store.hasLiveGeometry g = true} =
        ((scene.store.walk id).filter scene.store.hasLiveGeometry).toFinset := by
      ext g
      simp [mem_walk linked]
    rw [changed, dispose, (disposeAll_account _ distinct counted.distinct).1, List.countP_eq_length_filter]
    simp only [Change.Disposes]
    rw [disposed, Set.ncard_coe_finset, List.toFinset_card_of_nodup (distinct.filter scene.store.hasLiveGeometry)]
  | attach container child =>
    rw [changed, attach, enlivenAll_disposed]
    simp [Change.Disposes, onStore]
  | _ => simp [changed, Change.Disposes, onStore, detach, clone, create]

end

/-! ### Histories -/

/-- A change and the scene that it met. -/
structure Moment where
  scene : Scene
  change : Change

namespace Moment

def Attaches (moment : Moment) (g : NodeId) : Prop := moment.change.Attaches moment.scene.store g

def Disposes (moment : Moment) (g : NodeId) : Prop := moment.change.Disposes moment.scene.store g

def Shows (moment : Moment) (g : NodeId) : Prop := moment.scene.store.hasLiveGeometry g = true

end Moment

/-- The moments, latest first, that lead from one scene to another. -/
inductive History (start : Scene) : List Moment → Scene → Prop where
  | start : History start [] start
  | step {past : List Moment} {scene : Scene} {change : Change} (history : History start past scene)
      (fits : change.Fits scene.store) : History start (⟨scene, change⟩ :: past) (scene.changed change)

/-- The geometry was attached with its subtree, undisposed, and not disposed afterwards. -/
def LiveSince (past : List Moment) (g : NodeId) : Prop :=
  ∃ later moment earlier, past = later ++ moment :: earlier ∧ moment.Attaches g ∧ moment.Shows g ∧
    ∀ after ∈ later, ¬ after.Disposes g

/-- The geometry was disposed at some moment. -/
def Gone (past : List Moment) (g : NodeId) : Prop := ∃ moment ∈ past, moment.Disposes g ∧ moment.Shows g

/-- A forest in which nothing was attached or disposed yet. -/
structure Unused (scene : Scene) : Prop where
  linked : Linked scene.store
  live : scene.live = []
  disposedCount : scene.disposedCount = 0

theorem Unused.counted {scene : Scene} (unused : Unused scene) : Counted scene :=
  ⟨unused.live ▸ List.nodup_nil, by simp [unused.live]⟩

section

variable {start scene : Scene} {past : List Moment}

theorem liveSince_cons (moment : Moment) (past : List Moment) (g : NodeId) : LiveSince (moment :: past) g ↔
    LiveSince past g ∧ ¬ moment.Disposes g ∨ moment.Attaches g ∧ moment.Shows g := by
  constructor
  · rintro ⟨later, first, earlier, split, attaches, shows, spared⟩
    cases later with
    | nil =>
      cases split
      exact .inr ⟨attaches, shows⟩
    | cons latest later =>
      cases split
      exact .inl ⟨⟨later, first, earlier, rfl, attaches, shows, fun after member => spared after (.tail _ member)⟩,
        spared moment (.head _)⟩
  · rintro (⟨⟨later, first, earlier, split, attaches, shows, spared⟩, kept⟩ | ⟨attaches, shows⟩)
    · exact ⟨moment :: later, first, earlier, by rw [split, List.cons_append], attaches, shows,
        List.forall_mem_cons.mpr ⟨kept, spared⟩⟩
    · exact ⟨[], moment, past, rfl, attaches, shows, fun _ none => nomatch none⟩

theorem gone_cons (moment : Moment) (past : List Moment) :
    {g | Gone (moment :: past) g} = {g | Gone past g} ∪ {g | moment.Disposes g ∧ moment.Shows g} := by
  ext g
  simp [Gone, or_comm]

theorem linked_history (linked : Linked start.store) (history : History start past scene) : Linked scene.store := by
  induction history with
  | start => exact linked
  | step _ fits ih => exact linked_changed ih fits

/-- At every moment a container lists exactly the nodes whose parent it is, and each of them once. -/
theorem links_agree (linked : Linked start.store) (history : History start past scene) :
    (∀ n container, n ∈ scene.store.childrenOf container ↔ scene.store.parentOf n = some container) ∧
      ∀ container, (scene.store.childrenOf container).Nodup :=
  ⟨(linked_history linked history).agree, (linked_history linked history).distinct⟩

theorem counted_history (linked : Linked start.store) (counted : Counted start) (history : History start past scene) :
    Counted scene := by
  induction history with
  | start => exact counted
  | step before fits ih => exact (live_changed (linked_history linked before) ih fits).1

theorem live_history (begins : Unused start) (history : History start past scene) (g : NodeId) :
    g ∈ scene.live ↔ LiveSince past g := by
  induction history with
  | start => simp [LiveSince, begins.live]
  | step before fits ih =>
    have linked := linked_history begins.linked before
    rw [(live_changed linked (counted_history begins.linked begins.counted before) fits).2, ih, liveSince_cons]
    rfl

/-- What is live in the end was so in the beginning or was attached in between. -/
theorem live_attached (linked : Linked start.store) (counted : Counted start) (history : History start past scene)
    {g : NodeId} (live : g ∈ scene.live) : g ∈ start.live ∨ ∃ moment ∈ past, moment.Attaches g := by
  induction history with
  | start => exact .inl live
  | step before fits ih =>
    have counted' := counted_history linked counted before
    rcases ((live_changed (linked_history linked before) counted' fits).2 g).mp live with ⟨already, _⟩ | ⟨attached, _⟩
    · exact (ih already).imp_right fun ⟨moment, member, attaches⟩ => ⟨moment, .tail _ member, attaches⟩
    · exact .inr ⟨_, .head _, attached⟩

/-- A disposed geometry still exists and is never undisposed. -/
theorem gone_history (linked : Linked start.store) (history : History start past scene) {g : NodeId}
    (gone : Gone past g) : g < scene.store.size ∧ scene.store.hasLiveGeometry g = false := by
  induction history with
  | start => simp [Gone] at gone
  | @step past scene change before fits ih =>
    have linked' := linked_history linked before
    have size := size_changed linked' fits
    have settled : g < scene.store.size ∧
        ¬ (scene.store.hasLiveGeometry g = true ∧ ¬ change.Disposes scene.store g) := by
      obtain ⟨moment, member, disposes, shows⟩ := gone
      rcases List.mem_cons.mp member with rfl | earlier
      · exact ⟨live_lt shows, fun kept => kept.2 disposes⟩
      · obtain ⟨made, dead⟩ := ih ⟨moment, earlier, disposes, shows⟩
        exact ⟨made, fun kept => by simp [dead] at kept⟩
    refine ⟨settled.1.trans_le size, Bool.eq_false_iff.mpr fun alive => settled.2 ?_⟩
    exact (geometry_changed linked' fits settled.1).mp alive

theorem gone_finite (linked : Linked start.store) (history : History start past scene) : {g | Gone past g}.Finite :=
  (Set.finite_lt_nat scene.store.size).subset fun _ gone => (gone_history linked history gone).1

theorem disposed_history (begins : Unused start) (history : History start past scene) :
    scene.disposedCount = {g | Gone past g}.ncard := by
  induction history with
  | start => simp [Gone, begins.disposedCount]
  | @step past scene change before fits ih =>
    have linked := linked_history begins.linked before
    have now : {g | change.Disposes scene.store g ∧ scene.store.hasLiveGeometry g = true}.Finite :=
      (Set.finite_lt_nat scene.store.size).subset fun _ disposed => live_lt disposed.2
    -- a geometry that is disposed now was not disposed before
    have apart : Disjoint {g | Gone past g} {g | change.Disposes scene.store g ∧ scene.store.hasLiveGeometry g = true} := by
      refine Set.disjoint_left.mpr fun g gone disposed => ?_
      have dead := (gone_history begins.linked before gone).2
      exact Bool.noConfusion (dead.symm.trans disposed.2)
    rw [disposedCount_changed linked (counted_history begins.linked begins.counted before), ih, gone_cons,
      ← Set.ncard_union_eq apart (gone_finite begins.linked before) now]
    rfl

/-- A history up to one of its moments, and from there on. -/
theorem history_split {later earlier : List Moment} {moment : Moment}
    (history : History start (later ++ moment :: earlier) scene) :
    History start earlier moment.scene ∧ moment.change.Fits moment.scene.store ∧
      History (moment.scene.changed moment.change) later scene := by
  induction later generalizing scene with
  | nil =>
    cases history with
    | step before fits => exact ⟨before, fits, .start⟩
  | cons latest later ih =>
    cases history with
    | step before fits =>
      obtain ⟨first, fits', rest⟩ := ih before
      exact ⟨first, fits', rest.step fits⟩

/-- The nodes of a copy are not live when it is made. -/
theorem clone_unlive (linked : Linked scene.store) (counted : Counted scene) {id : NodeId} (made : id < scene.store.size)
    {g : NodeId} (inside : Below (scene.clone id).2.store (scene.clone id).1 g) : g ∉ (scene.clone id).2.live := by
  have copied := clone_copied linked made
  have enclosed := enclosed_confined linked (enclosed_new linked) copied.confined
  have new : scene.store.New g := (enclosed_below enclosed inside).mp copied.id.ge
  intro live
  exact Nat.not_lt_of_le new (live_lt (counted.sound g live))

/-- The account of geometries is exact at every moment of every history. Live are the geometries whose subtree was
attached, undisposed, and which were not disposed since; the count is of the geometries that were disposed, each once;
no live geometry is disposed; and nothing in a copy is live unless it was attached after the copy was made. -/
theorem geometries_accounted (begins : Unused start) (history : History start past scene) :
    (scene.live.Nodup ∧ ∀ g, g ∈ scene.live ↔ LiveSince past g) ∧
      scene.disposedCount = {g | Gone past g}.ncard ∧
      (∀ g ∈ scene.live, scene.store.hasLiveGeometry g = true) ∧
      ∀ later before id earlier, past = later ++ ⟨before, .clone id⟩ :: earlier →
        ∀ g, Below (before.clone id).2.store (before.clone id).1 g → g ∈ scene.live →
          ∃ moment ∈ later, moment.Attaches g := by
  have counted := counted_history begins.linked begins.counted history
  refine ⟨⟨counted.distinct, live_history begins history⟩, disposed_history begins history, counted.sound, ?_⟩
  rintro later before id earlier rfl g inside live
  obtain ⟨first, fits, rest⟩ := history_split history
  have linked := linked_history begins.linked first
  have counted' := counted_history begins.linked begins.counted first
  have copied := (live_changed linked counted' fits).1
  rcases live_attached (linked_changed linked fits) copied rest live with already | attached
  · exact absurd already (clone_unlive linked counted' fits inside)
  · exact attached

end

namespace Sample

def box : Node := Node.ofPayload "b" (.drawable (some ⟨"box", [], false⟩) none)

/-- A box is attached, copied and disposed, and then its copy is attached. -/
def changes : List Change :=
  [.create (Node.ofPayload "g" (.container [])), .create box, .attach 0 1, .clone 1, .dispose 1, .attach 0 2]

/-- The scene after some changes, with the moments that led to it. -/
def after (changes : List Change) : List Moment × Scene :=
  changes.foldl (fun (past, scene) change => (⟨scene, change⟩ :: past, scene.changed change)) ([], Scene.empty)

theorem unused_empty : Unused Scene.empty where
  linked := ⟨fun _ _ => by simp [Scene.empty, Store.empty, childrenOf, parentOf, get?],
    fun _ => by simp [Scene.empty, Store.empty, childrenOf, get?],
    fun _ => 0, fun _ _ link => by simp [Scene.empty, Store.empty, parentOf, get?] at link⟩
  live := rfl
  disposedCount := rfl

theorem history_after : History Scene.empty (after changes).1 (after changes).2 := by
  have made : History Scene.empty (after (changes.take 2)).1 (after (changes.take 2)).2 :=
    .step (.step .start ⟨rfl, rfl⟩) ⟨rfl, rfl⟩
  have linked := linked_history unused_empty.linked made
  have attached : History Scene.empty (after (changes.take 3)).1 (after (changes.take 3)).2 :=
    .step made ⟨by decide, by decide +kernel, fun below => absurd ((mem_walk linked).mpr below) (by decide +kernel)⟩
  have copied : History Scene.empty (after (changes.take 5)).1 (after (changes.take 5)).2 :=
    .step (.step attached (by decide +kernel : 1 < (after (changes.take 3)).2.store.size)) trivial
  have linked' := linked_history unused_empty.linked copied
  exact .step copied
    ⟨by decide +kernel, by decide +kernel, fun below => absurd ((mem_walk linked').mpr below) (by decide +kernel)⟩

end Sample

/-- The disposed box counts once and its copy is live. -/
theorem geometries_accounted_copy :
    Unused Scene.empty ∧ History Scene.empty (Sample.after Sample.changes).1 (Sample.after Sample.changes).2 ∧
      (Sample.after Sample.changes).2.live = [2] ∧ LiveSince (Sample.after Sample.changes).1 2 ∧
      {g | Gone (Sample.after Sample.changes).1 g}.ncard = 1 := by
  obtain ⟨⟨_, live⟩, count, _⟩ := geometries_accounted Sample.unused_empty Sample.history_after
  have alive : (Sample.after Sample.changes).2.live = [2] := by decide +kernel
  refine ⟨Sample.unused_empty, Sample.history_after, alive, (live 2).mp (by simp [alive]), ?_⟩
  rw [← count]
  decide +kernel

end Scene

end ProceduralScene
