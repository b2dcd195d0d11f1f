import ProceduralScene.Proofs.Sharing
import ProceduralScene.Proofs.Walked

/-!
The nodes in evaluated parameters. What nested helpers make is new; an old node comes in only where a parameter names
a stored result, so a group that is handed none of these moves new nodes only.
-/

set_option autoImplicit false

namespace ProceduralScene

open Store Factory

namespace SessionAction

section

variable {names : List String} {free : NodeId → Prop} {s : Session} {ctx : Context} {path : String}

/-- What is known about the value of a parameter: where it may hold old nodes. -/
structure Evaluated (names : List String) (free : NodeId → Prop) (store : Store) (param value : Value) : Prop where
  nodes : param.mentions names = false → value.Among free store
  children : param.handsOver names = false → ChildrenAmong free store value

theorem children_of_among {store : Store} {value : Value} (among : value.Among free store) :
    ChildrenAmong free store value := by
  rintro entries rfl id member
  unfold Factory.param at member
  cases found : Value.entry? "children" entries with
  | none =>
    rw [found] at member
    cases member
  | some child =>
    rw [found] at member
    exact among id ((Value.mem_nodesOfEntries entries).mpr ⟨_, Value.lookup_mem found, member⟩)

theorem evaluated_of_among {store : Store} {param value : Value} (among : value.Among free store) :
    Evaluated names free store param value := ⟨fun _ => among, fun _ => children_of_among among⟩

theorem evaluated_of_plain {store : Store} {param value : Value} (plain : value.isPlain = true) :
    Evaluated names free store param value := evaluated_of_among (among_of_plain plain)

theorem among_list {store : Store} {items : List Value} :
    (Value.list items).Among free store ↔ ∀ x ∈ items, x.Among free store := by
  simp only [Value.Among, Value.nodes, Value.mem_nodesOfItems]
  exact ⟨fun all x member id inside => all id ⟨x, member, inside⟩, fun each id ⟨x, member, inside⟩ => each x member id inside⟩

theorem among_map {store : Store} {entries : List (Key × Value)} :
    (Value.map entries).Among free store ↔ ∀ entry ∈ entries, entry.2.Among free store := by
  simp only [Value.Among, Value.nodes, Value.mem_nodesOfEntries]
  exact ⟨fun all x member id inside => all id ⟨x, member, inside⟩, fun each id ⟨x, member, inside⟩ => each x member id inside⟩

theorem items_among {store : Store} {value : Value} {items : List Value} (listed : value.items = .ok items)
    (among : value.Among free store) : ∀ x ∈ items, x.Among free store := by
  unfold Value.items at listed
  split at listed
  · cases listed
    exact among_list.mp among
  · cases listed
    intro x member
    obtain ⟨c, _, same⟩ := List.mem_map.mp member
    exact same ▸ among_of_plain rfl
  · cases listed
    intro x member
    obtain ⟨entry, _, same⟩ := List.mem_map.mp member
    rw [← same]
    cases entry.1 <;> exact among_of_plain rfl
  · cases listed

/-- The text of a parameter gives an old node only when it names a stored result. -/
theorem walked_evaluateText (opened : Open names free s) (plain : ctx.Plain) (text : String) :
    Within (Walked names free) (evaluateText text ctx path) s fun value after =>
      Evaluated names free after.scene.store (.text text) value := by
  have steady := steady_walked names free
  unfold evaluateText
  refine within_get ?_
  split
  · dsimp only
    split
    · rename_i font _ value found
      exact within_pure steady (evaluated_of_plain (Bindings.plain_get opened.ready.fonts found))
    · exact within_seq steady (within_weaken (walked_record _ _ _) fun _ _ _ _ => trivial) fun _ _ _ =>
        within_pure steady (evaluated_of_plain rfl)
  · split
    · rename_i value found
      have named : names.contains text = true := by
        simpa using opened.ready.stored _ (Value.lookup_mem found)
      refine within_pure steady ⟨fun off => ?_, fun off => ?_⟩
      · exact absurd (named.symm.trans off) (by simp)
      · exact absurd (named.symm.trans off) (by simp)
    · split
      · exact within_weaken (walked_evaluate opened rfl plain (some path)) fun value _ _ good => evaluated_of_plain good.1
      · exact within_pure steady (evaluated_of_plain rfl)

theorem walked_expandPath (descriptor : Value) (path : String) :
    Within (Walked names free) (expandPath descriptor path) s fun value _ => value.isPlain = true := by
  have steady := steady_walked names free
  unfold expandPath
  split
  · exact within_pure steady (plain_points _)
  · refine within_reads steady (reads_plainText _) fun kind => ?_
    exact within_seq steady (within_weaken (walked_record _ _ _) fun _ _ _ _ => trivial) fun _ _ _ =>
      within_pure steady rfl

/-! ### Maps and lists, over the evaluation of one item -/

section

variable {evaluateOne : Value → SessionAction Value}
  (evaluates : ∀ (value : Value) (s : Session), Open names free s → value.isPlain = true → value.isSparing names = true →
    Within (Walked names free) (evaluateOne value) s fun result after =>
      Evaluated names free after.scene.store value result)

include evaluates

theorem walked_evaluateEntries (entries : List (Key × Value)) : ∀ s : Session, Open names free s →
    (∀ entry ∈ entries, entry.2.isPlain = true) → Value.entriesSparing names entries = true →
    Within (Walked names free) (evaluateEntries evaluateOne entries) s fun results after =>
      (Value.entriesMention names entries = false → ∀ entry ∈ results, entry.2.Among free after.scene.store) ∧
      (((Value.entry? "children" entries).map (Value.mentions names)).getD false = false →
        ((Value.entry? "children" results).getD .null).Among free after.scene.store) := by
  induction entries with
  | nil => exact fun s _ _ _ => within_pure (steady_walked names free) ⟨by simp, fun _ => among_of_plain rfl⟩
  | cons entry rest ih =>
    intro s opened plain sparing
    obtain ⟨key, x⟩ := entry
    rw [Value.entriesSparing, Bool.and_eq_true] at sparing
    rw [evaluateEntries]
    split
    · rename_i isKind
      rw [beq_iff_eq] at isKind
      refine within_weaken (ih s opened (fun e member => plain e (by simp [member])) sparing.2) ?_
      rintro results after _ ⟨all, children⟩
      refine ⟨fun off => all ?_, fun off => children ?_⟩
      · simpa [Value.entriesMention, isKind] using off
      · have other : (Key.text "children" == Key.text "kind") = false := by decide
        simpa [Value.entry?, isKind, List.lookup_cons, other] using off
    · rename_i notKind
      rw [beq_iff_eq] at notKind
      refine within_bind (steady_walked names free) (evaluates x s opened (plain (key, x) (by simp)) sparing.1) ?_
      intro value after walked good
      refine within_bind (steady_walked names free)
        (ih after (open_walked opened walked) (fun e member => plain e (by simp [member])) sparing.2) ?_
      rintro results last further ⟨all, children⟩
      refine within_pure (steady_walked names free) ⟨fun off => ?_, fun off => ?_⟩
      · have both : x.mentions names = false ∧ Value.entriesMention names rest = false := by
          simpa [Value.entriesMention, notKind] using off
        intro e member
        rcases List.mem_cons.mp member with same | inside
        · exact same ▸ among_walked further (good.nodes both.1)
        · exact all both.2 e inside
      · by_cases here : key = .text "children"
        · subst here
          have first : x.mentions names = false := by simpa [Value.entry?] using off
          simpa [Value.entry?] using among_walked further (good.nodes first)
        · have other : (Key.text "children" == key) = false := by simpa using Ne.symm here
          have rest' := children (by simpa [Value.entry?, List.lookup_cons, other] using off)
          simpa [Value.entry?, List.lookup_cons, other] using rest'

theorem walked_evaluateItems (items : List Value) : ∀ s : Session, Open names free s →
    (∀ x ∈ items, x.isPlain = true) → Value.itemsSparing names items = true →
    Within (Walked names free) (evaluateItems evaluateOne items) s fun results after =>
      Value.itemsMention names items = false → ∀ x ∈ results, x.Among free after.scene.store := by
  have steady := steady_walked names free
  induction items with
  | nil => exact fun s _ _ _ => within_pure steady fun _ x member => nomatch member
  | cons item rest ih =>
    intro s opened plain sparing
    rw [Value.itemsSparing, Bool.and_eq_true] at sparing
    rw [evaluateItems]
    refine within_reads steady (reads_lift _) fun isPath => ?_
    refine within_bind steady (evaluates item s opened (plain item (by simp)) sparing.1) fun value after walked good => ?_
    have opened' := open_walked opened walked
    have tail : ∀ (found : List Value) (s : Session), Open names free s →
        (item.mentions names = false → ∀ x ∈ found, x.Among free s.scene.store) →
        Within (Walked names free) (do return found ++ (← evaluateItems evaluateOne rest)) s fun results after =>
          Value.itemsMention names (item :: rest) = false → ∀ x ∈ results, x.Among free after.scene.store := by
      intro found s opened here
      refine within_bind steady (ih s opened (fun x member => plain x (by simp [member])) sparing.2) ?_
      intro others last further all
      refine within_pure steady fun off x member => ?_
      rw [Value.itemsMention, Bool.or_eq_false_iff] at off
      rcases List.mem_append.mp member with first | later
      · exact among_walked further (here off.1 x first)
      · exact all off.2 x later
    dsimp only
    split
    · refine within_bind_to steady (fun found after' => value.items = .ok found ∧ after' = after) walked_lift ?_
      rintro found _ _ ⟨listed, rfl⟩
      exact tail found _ opened' fun off => items_among listed (good.nodes off)
    · exact within_pure_bind (tail [value] after opened' fun off x member => List.mem_singleton.mp member ▸ good.nodes off)

theorem walked_nestedHelper {entries : List (Key × Value)} (opened : Open names free s)
    (plain : (Value.map entries).isPlain = true) (sparing : (Value.map entries).isSparing names = true)
    (helper : isHelperDescriptor entries = true) :
    Within (Walked names free) (nestedHelper evaluateOne entries path) s fun value after =>
      Value.Among free after.scene.store value := by
  have steady := steady_walked names free
  have paramsPlain : (nestedParams entries).isPlain = true := by
    unfold nestedParams
    split
    · exact Value.plain_entry_getD plain rfl
    · rfl
  have paramsSparing : (nestedParams entries).isSparing names = true := by
    unfold nestedParams
    split
    · cases found : Value.entry? "params" entries with
      | none => rfl
      | some value => exact Value.sparing_entry (Value.sparing_entries sparing) found
    · rfl
  unfold nestedHelper
  refine within_bind steady (walked_factoryOrRecord opened (nestedName entries) "nested " path) ?_
  rintro found after walked ⟨_, good⟩
  have opened' := open_walked opened walked
  split
  · exact within_pure steady (among_of_plain rfl)
  · rename_i name factory
    obtain ⟨named, sound⟩ := good (name, factory) rfl
    refine within_bind steady (evaluates (nestedParams entries) after opened' paramsPlain paramsSparing) ?_
    intro params last further evaluated
    refine walked_runFactory (open_walked opened' further) sound params "nested " path fun group => ?_
    exact evaluated.children (Value.sparing_group sparing helper (by rw [named, group]))

end

/-- The value of a parameter at any depth. -/
theorem walked_evaluateParamWithin (plain : ctx.Plain) (depth : Nat) : ∀ (value : Value) (s : Session),
    Open names free s → value.isPlain = true → value.isSparing names = true →
    Within (Walked names free) (evaluateParamWithin ctx path depth value) s fun result after =>
      Evaluated names free after.scene.store value result := by
  have steady := steady_walked names free
  induction depth with
  | zero => exact fun value s _ good _ => within_pure steady (evaluated_of_plain good)
  | succ depth ih =>
    intro value s opened good sparing
    rw [evaluateParamWithin.eq_def]
    dsimp only
    split
    · rename_i entries
      split
      · rename_i helper
        exact within_weaken (walked_nestedHelper ih opened good sparing helper) fun _ _ _ among => evaluated_of_among among
      · rename_i notHelper
        split
        · rename_i target found
          refine within_seq steady (walked_render opened target plain (some path)) fun label after _ => ?_
          refine within_reads steady (reads_plainText _) fun text => ?_
          exact within_pure steady (evaluated_of_among fun id member => by cases member)
        · rename_i notReference
          have inPlace : standsApart entries = false := by
            simp only [standsApart, notReference, Option.isSome_none, Bool.or_false]
            simpa using notHelper
          refine within_bind steady
            (walked_evaluateEntries ih entries s opened (Value.plain_map.mp good) (Value.sparing_entries sparing)) ?_
          rintro results after walked ⟨all, children⟩
          have evaluated : ∀ more : List (Key × Value), (∀ entry ∈ more, entry.2.isPlain = true) →
              (Value.entry? "children" more) = none →
              Evaluated names free after.scene.store (.map entries) (.map (results ++ more)) := by
            intro more plainMore other
            refine ⟨fun off => among_map.mpr fun entry member => ?_, fun off => ?_⟩
            · rcases List.mem_append.mp member with first | later
              · exact all (by simpa [Value.mentions, inPlace] using off) entry first
              · exact among_of_plain (plainMore entry later)
            · rintro found same
              cases same
              have handed := children (by simpa [Value.handsOver, inPlace] using off)
              unfold Factory.param
              rw [Value.entry?, List.lookup_append, ← Value.entry?, ← Value.entry?, other, Option.or_none]
              exact handed
          split
          · have bare := evaluated [] (by simp) rfl
            rw [List.append_nil] at bare
            exact within_pure steady bare
          · rename_i kind read
            have plainKind := Value.plain_entry good read
            refine within_reads steady (reads_lift _) fun isPath => ?_
            split
            · exact within_weaken (walked_expandPath _ path) fun _ _ _ points => evaluated_of_plain points
            · exact within_pure steady (evaluated [(.text "kind", kind)] (by simpa using plainKind) rfl)
    · rename_i items
      refine within_bind steady (walked_evaluateItems ih items s opened (Value.plain_list.mp good)
        (by simpa [Value.isSparing] using sparing)) fun results after walked all => ?_
      refine within_pure steady ⟨fun off => among_list.mpr (all (by simpa [Value.mentions] using off)), fun _ => ?_⟩
      rintro entries same
      cases same
    · exact walked_evaluateText opened plain _
    · exact within_pure steady (evaluated_of_plain good)

theorem walked_evaluateParam (plain : ctx.Plain) {value : Value} (opened : Open names free s)
    (good : value.isPlain = true) (sparing : value.isSparing names = true) :
    Within (Walked names free) (evaluateParam value ctx path) s fun result after =>
      Evaluated names free after.scene.store value result :=
  walked_evaluateParamWithin plain _ value s opened good sparing

/-! ### Dimensions, transforms and visibility -/

mutual
theorem walked_evaluateDimension (plain : ctx.Plain) : ∀ (value : Value) (s : Session), Open names free s →
    value.isPlain = true →
    Within (Walked names free) (evaluateDimension ctx path value) s fun result _ => result.isPlain = true
  | .map entries, s, opened, good => by
    have steady := steady_walked names free
    rw [evaluateDimension]
    refine within_bind steady (walked_dimensionEntries plain entries s opened (Value.plain_map.mp good)) ?_
    intro results after walked each
    refine within_reads steady (reads_lift _) fun isPath => ?_
    split
    · exact walked_expandPath _ path
    · exact within_pure steady (Value.plain_map.mpr each)
  | .list items, s, opened, good => by
    have steady := steady_walked names free
    rw [evaluateDimension]
    refine within_bind steady (walked_dimensionItems plain items s opened (Value.plain_list.mp good)) ?_
    exact fun results after walked each => within_pure steady (Value.plain_list.mpr each)
  | .text text, s, opened, good => by
    have steady := steady_walked names free
    rw [evaluateDimension]
    split
    · exact within_weaken (walked_evaluate opened rfl plain (some path)) fun _ _ _ both => both.1
    · exact within_pure steady rfl
  | .null, s, opened, good | .bool _, s, opened, good | .int _, s, opened, good | .float _, s, opened, good
  | .complex _ _, s, opened, good => by
    rw [evaluateDimension] <;> first
      | exact within_pure (steady_walked names free) good
      | (intros; contradiction)
  | .node _, _, _, good | .marker _, _, _, good => nomatch good

theorem walked_dimensionItems (plain : ctx.Plain) : ∀ (items : List Value) (s : Session), Open names free s →
    (∀ x ∈ items, x.isPlain = true) →
    Within (Walked names free) (evaluateDimensionItems ctx path items) s fun results _ => ∀ x ∈ results, x.isPlain = true
  | [], s, _, _ => by
    rw [evaluateDimensionItems]
    exact within_pure (steady_walked names free) fun x member => by cases member
  | item :: rest, s, opened, good => by
    have steady := steady_walked names free
    have tail : ∀ (found : List Value) (s : Session), Open names free s → (∀ x ∈ found, x.isPlain = true) →
        Within (Walked names free) (do return found ++ (← evaluateDimensionItems ctx path rest)) s
          fun results _ => ∀ x ∈ results, x.isPlain = true := by
      intro found s opened here
      refine within_bind steady (walked_dimensionItems plain rest s opened fun x member => good x (by simp [member])) ?_
      intro others last _ all
      exact within_pure steady fun x member => (List.mem_append.mp member).elim (here x) (all x)
    rw [evaluateDimensionItems]
    refine within_bind steady (walked_evaluateDimension plain item s opened (good item (by simp))) ?_
    intro value after walked plainValue
    have opened' := open_walked opened walked
    refine within_reads steady (reads_lift _) fun isPath => ?_
    split
    · refine within_bind_to steady (fun found after' => value.items = .ok found ∧ after' = after) walked_lift ?_
      rintro found _ _ ⟨listed, rfl⟩
      exact tail found _ opened' (Value.items_plain plainValue listed)
    · exact within_pure_bind (tail [value] after opened' fun x member => List.mem_singleton.mp member ▸ plainValue)

theorem walked_dimensionEntries (plain : ctx.Plain) : ∀ (entries : List (Key × Value)) (s : Session), Open names free s →
    (∀ entry ∈ entries, entry.2.isPlain = true) →
    Within (Walked names free) (evaluateDimensionEntries ctx path entries) s
      fun results _ => ∀ entry ∈ results, entry.2.isPlain = true
  | [], s, _, _ => by
    rw [evaluateDimensionEntries]
    exact within_pure (steady_walked names free) fun x member => by cases member
  | (key, x) :: rest, s, opened, good => by
    have steady := steady_walked names free
    have tail : ∀ (value : Value) (s : Session), Open names free s → value.isPlain = true →
        Within (Walked names free) (do return (key, value) :: (← evaluateDimensionEntries ctx path rest)) s
          fun results _ => ∀ entry ∈ results, entry.2.isPlain = true := by
      intro value s opened here
      refine within_bind steady (walked_dimensionEntries plain rest s opened fun e member => good e (by simp [member])) ?_
      intro others last _ all
      refine within_pure steady fun entry member => ?_
      rcases List.mem_cons.mp member with same | later
      · exact same ▸ here
      · exact all entry later
    rw [evaluateDimensionEntries]
    split
    · exact within_pure_bind (tail x s opened (good (key, x) (by simp)))
    · refine within_bind steady (walked_evaluateDimension plain x s opened (good (key, x) (by simp))) ?_
      exact fun value after walked plainValue => tail value after (open_walked opened walked) plainValue
end

theorem reads_componentOf (value : Value) : Reads (componentOf value) := by
  unfold componentOf
  split
  · exact reads_pure _
  · split
    · exact reads_pure _
    · exact reads_throw _

theorem walked_vectorOf (plain : ctx.Plain) (opened : Open names free s) (value : Value) :
    Within (Walked names free) (vectorOf ctx path value) s fun _ _ => True := by
  have steady := steady_walked names free
  unfold vectorOf
  split
  · exact within_pure steady trivial
  · exact within_pure steady trivial
  · exact within_pure steady trivial
  · rename_i items
    have each : ∀ item ∈ items, ∀ before, Open names free before →
        Within (Walked names free) (do componentOf (← evaluate item ctx (some path))) before fun _ _ => True := by
      intro item _ before opened
      refine within_seq steady (walked_evaluateAny opened item plain (some path)) fun found after _ => ?_
      exact within_weaken (walked_reads (reads_componentOf found)) fun _ _ _ _ => trivial
    have all := within_mapM steady (Open names free) (fun _ => True) (fun _ _ walked open' => open_walked open' walked)
      items each s opened
    exact within_seq steady (within_weaken all fun _ _ _ _ => trivial) fun _ _ _ => within_pure steady trivial
  · exact within_pure steady trivial

theorem walked_evaluateVector (plain : ctx.Plain) (opened : Open names free s) (value : Value) :
    Within (Walked names free) (evaluateVector value ctx path) s fun _ _ => True := by
  have steady := steady_walked names free
  unfold evaluateVector
  split
  · exact within_seq steady (walked_evaluateAny opened _ plain (some path)) fun found after walked =>
      walked_vectorOf plain (open_walked opened walked) found
  · exact within_pure_bind (walked_vectorOf plain opened value)

theorem walked_evaluateVisible (plain : ctx.Plain) (opened : Open names free s) (value : Value) :
    Within (Walked names free) (evaluateVisible value ctx path) s fun _ _ => True := by
  have steady := steady_walked names free
  unfold evaluateVisible
  split
  · exact within_seq steady (walked_evaluateAny opened _ plain (some path)) fun _ _ _ => within_pure steady trivial
  · exact within_pure_bind (within_pure steady trivial)

end

end SessionAction

end ProceduralScene
