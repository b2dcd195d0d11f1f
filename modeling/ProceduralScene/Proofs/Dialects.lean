import ProceduralScene.Proofs.Written

/-!
Whether an action is written with a verb or with a kind does not matter: the same action is read, or the same items are
left out, at every depth. A copy with a verb cannot be hidden; there the two ways differ.
-/

set_option autoImplicit false

namespace ProceduralScene.Normalize

open Value Spelling

/-! ### Alike normalizations -/

/-- Both give the same, or fail alike, whatever each of them records. -/
def Alike {α : Type} (first second : Normalizing α) : Prop :=
  ∀ log other, (first.run.run log).1 = (second.run.run other).1

theorem alike_pure {α : Type} (value : α) : Alike (pure value) (pure value) := fun _ _ => rfl

theorem alike_bind {α β : Type} {first second : Normalizing α} {next following : α → Normalizing β} (alike : Alike first second)
    (follow : ∀ value, Alike (next value) (following value)) : Alike (first >>= next) (second >>= following) := by
  intro log other
  have same := alike log other
  simp only [ExceptT.run_bind, StateT.run_bind]
  generalize first.run.run log = left at same
  generalize second.run.run other = right at same
  obtain ⟨result, log⟩ := left
  obtain ⟨_, other⟩ := right
  dsimp only at same
  subst same
  cases result with
  | ok value => exact follow value log other
  | error failure => rfl

theorem alike_leaveOut (text other : String) : Alike (leaveOut text) (leaveOut other) := fun _ _ => rfl

theorem alike_mapM {α γ : Type} {first second : α → Normalizing γ} {items : List α}
    (alike : ∀ item ∈ items, Alike (first item) (second item)) : Alike (items.mapM first) (items.mapM second) := by
  induction items with
  | nil => exact alike_pure []
  | cons item items ih =>
    rw [List.mapM_cons, List.mapM_cons]
    refine alike_bind (alike item List.mem_cons_self) fun value => ?_
    refine alike_bind (ih fun other member => alike other (List.mem_cons_of_mem item member)) fun values => alike_pure _

theorem alike_nested {α : Type} {first second : Normalizer} {items : List α} {written spoken : α → Value}
    (alike : ∀ item ∈ items, ∀ place other, Alike (first (written item) place) (second (spoken item) other)) (place other : String) :
    Alike (nested first (.list (items.map written)) place) (nested second (.list (items.map spoken)) other) := by
  rw [nested_listed, nested_listed, listed, listed, List.zipIdx_map, List.zipIdx_map, List.mapM_map, List.mapM_map]
  refine alike_bind (alike_mapM fun item member => ?_) fun found => alike_pure _
  exact alike _ (List.fst_mem_of_mem_zipIdx member) _ _

/-- A misfit is left out without failing where the raw action names its kind by a text. -/
theorem alike_keep (store : Store) {raw own : Entries} {place other kind ownKind : String} {reading : Reading Action}
    (named : either (given "type" raw) (given "do" raw) = .text kind) (ownNamed : either (given "type" own) (given "do" own) = .text ownKind) :
    Alike (keep store raw place reading) (keep store own other reading) := by
  cases reading with
  | ok action => exact alike_pure _
  | error paths =>
    unfold keep
    rw [named, ownNamed]
    exact alike_leaveOut _ _

/-! ### Pairs of entries -/

theorem dispatch_verb (store : Store) (normalize : Normalizer) {entries : Entries} (place : String)
    (silent : entry? "thought" entries = none) (verb : (Value.entry? "do" entries).isSome = true) :
    dispatch store normalize entries place = fromVerb store normalize entries place := by
  simp [dispatch, given, silent, filter_absent silent, verb, truthy]

theorem dispatch_kind (store : Store) (normalize : Normalizer) {entries : Entries} (place : String)
    (silent : entry? "thought" entries = none) (verbless : entry? "do" entries = none) (kind : (given "type" entries).isNull = false) :
    dispatch store normalize entries place = fromKind store normalize entries place := by
  have quiet : (given "thought" entries).truthy = false := by rw [given, silent]; rfl
  simp [dispatch, quiet, filter_absent silent, verbless, kind]

/-- The entries of an action in both ways: its verb or its kind, and the same values at the names of its fields. -/
structure Paired (names : List String) (verb kind : String) (raw own : Entries) : Prop where
  same : Same names raw own
  verb : entry? "do" raw = some (.text verb)
  kind : entry? "type" own = some (.text kind)
  typeless : entry? "type" raw = none
  verbless : entry? "do" own = none
  silent : entry? "thought" raw = none
  silent' : entry? "thought" own = none

theorem paired_only {names : List String} {verb kind : String} {more others : Entries} (fields : Entries)
    (apart : ∀ name ∈ names, name ∉ ["do", "type", "thought"] ∧ entry? name more = none ∧ entry? name others = none)
    (marks : ∀ name ∈ ["do", "type", "thought"], entry? name more = none ∧ entry? name others = none) :
    Paired names verb kind (((.text "do", .text verb) :: more) ++ only names fields)
      (((.text "type", .text kind) :: others) ++ only names fields) := by
  have foreign : ∀ name ∈ ["do", "type", "thought"], name ∉ names := fun name mark member => (apart name member).1 mark
  have free : ∀ name ∈ ["do", "type", "thought"], entry? name (more ++ only names fields) = none ∧
      entry? name (others ++ only names fields) = none := by
    intro name mark
    rw [entry_fixed (foreign name mark), entry_fixed (foreign name mark)]
    exact marks name mark
  constructor
  · refine same_only fields fun name member => ?_
    obtain ⟨other, none, none'⟩ := apart name member
    simp only [List.mem_cons, not_or] at other
    simp [entry_cons, none, none', other]
  all_goals simp [entry_cons, free]

namespace Paired

variable {names : List String} {verb kind : String} {raw own : Entries} (paired : Paired names verb kind raw own)

include paired

theorem dressed (within : ∀ name ∈ "transform" :: transformKeys, name ∈ names) : Same names (withTransform raw) (withTransform own) :=
  same_withTransform paired.same within

theorem givenVerb : given "do" raw = .text verb := by
  rw [given, paired.verb]
  rfl

theorem givenKind : given "type" own = .text kind := by
  rw [given, paired.kind]
  rfl

theorem matched (name : String) (member : name ∈ names) : given name raw = given name own :=
  congrArg (·.getD .null) (paired.same name member)

theorem dispatch (store : Store) {first second : Normalizer} {place other : String}
    (alike : Alike (fromVerb store first raw place) (fromKind store second own other)) :
    Alike (dispatch store first raw place) (dispatch store second own other) := by
  rw [dispatch_verb store first place paired.silent (by rw [paired.verb]; rfl),
    dispatch_kind store second other paired.silent' paired.verbless (by rw [paired.givenKind]; rfl)]
  exact alike

theorem keep (nonempty : kind ≠ "") (store : Store) (place other : String) (reading : Reading Action) :
    Alike (keep store raw place reading) (keep store own other reading) := by
  have named : either (given "type" raw) (given "do" raw) = .text verb := by
    rw [paired.givenVerb, given, paired.typeless]
    rfl
  have ownNamed : either (given "type" own) (given "do" own) = .text kind := by
    rw [either, paired.givenKind, if_pos (by simpa [truthy] using nonempty)]
  exact alike_keep store named ownNamed

theorem frame (within : ∀ name ∈ "id" :: "visible" :: "transform" :: transformKeys, name ∈ names) :
    Action.readFrame (withTransform raw) = Action.readFrame (withTransform own) := by
  have dressed := paired.dressed fun name member => within name (List.mem_cons_of_mem _ (List.mem_cons_of_mem _ member))
  exact Action.frame_of_same (same_part _ dressed fun name member => within name (by
    simp only [List.mem_cons] at member ⊢
    exact member.imp_right (.imp_right .inr)))

theorem types : Action.readType kind (withTransform raw) = Action.readType kind (withTransform own) := by
  rw [readType_dressed (.inl paired.typeless), readType_dressed (.inr paired.kind)]

end Paired

/-! ### Each kind of action -/

namespace Written

section

variable (store : Store) {first second : Normalizer} {raw own : Entries} (place other : String)

theorem alike_loop (paired : Paired loopNames "loop" "loop" raw own) (body : List Written)
    (verbs : given "body" raw = .list (body.map verb)) (kinds : entry? "body" own = some (.list (body.map kind)))
    (alike : ∀ action ∈ body, ∀ place other, Alike (first action.verb place) (second action.kind other)) :
    Alike (dispatch store first raw place) (dispatch store second own other) := by
  refine paired.dispatch store ?_
  simp only [fromVerb, fromKind, kindOf, paired.givenVerb, paired.givenKind, verbs, kinds]
  refine alike_bind (alike_nested alike _ _) fun actions => ?_
  have dressed := paired.dressed (by decide)
  rw [Action.readLoop_same (paired.frame (by decide)) paired.types (same_part _ dressed (by decide))]
  exact paired.keep (by decide) store _ _ _

theorem alike_conditional (paired : Paired conditionalNames "if" "if" raw own) (accepted refused : List Written)
    (verbs : given "then" raw = .list (accepted.map verb)) (otherVerbs : given "else" raw = .list (refused.map verb))
    (kinds : given "then" own = .list (accepted.map kind)) (otherKinds : given "else" own = .list (refused.map kind))
    (alike : ∀ action ∈ accepted ++ refused, ∀ place other, Alike (first action.verb place) (second action.kind other)) :
    Alike (dispatch store first raw place) (dispatch store second own other) := by
  refine paired.dispatch store ?_
  rw [List.forall_mem_append] at alike
  simp only [fromVerb, fromKind, kindOf, paired.givenVerb, paired.givenKind, verbs, otherVerbs, kinds, otherKinds]
  refine alike_bind (alike_nested alike.1 _ _) fun first => ?_
  refine alike_bind (alike_nested alike.2 _ _) fun second => ?_
  have dressed := paired.dressed (by decide)
  have again := same_put ((entry_dressed (by decide) own).trans paired.kind)
  rw [Action.readConditional_same (paired.frame (by decide)) paired.types (same_part _ dressed (by decide)),
    Action.readConditional_same (Action.frame_of_same (again _)) (Reading.field_same (again _) _ _) (again _)]
  exact paired.keep (by decide) store _ _ _

theorem alike_repetition (paired : Paired repetitionNames "repeat" "repeat" raw own) (children : List Written)
    (verbs : entry? "body" raw = some (.list (children.map verb))) (kinds : given "children" own = .list (children.map kind))
    (alike : ∀ action ∈ children, ∀ place other, Alike (first action.verb place) (second action.kind other)) :
    Alike (dispatch store first raw place) (dispatch store second own other) := by
  refine paired.dispatch store ?_
  simp only [fromVerb, fromKind, kindOf, paired.givenVerb, paired.givenKind, verbs, kinds]
  refine alike_bind (alike_nested alike _ _) fun actions => ?_
  have dressed := paired.dressed (by decide)
  rw [Action.readRepetition_same (paired.frame (by decide)) paired.types (same_part _ dressed (by decide))]
  exact paired.keep (by decide) store _ _ _

theorem fromVerb_clone {target : String} (nonempty : target ≠ "") (verb : given "do" raw = .text "clone")
    (params : given "params" raw = .map [(.text "id", .text target)]) : fromVerb store first raw place =
      keep store raw place (Action.readReference (chosen
        [("id", given "id" raw), ("target", .text target), ("material", given "material" raw)] raw)) := by
  have real : (Value.text target).truthy = true := by simpa [truthy] using nonempty
  have source : either ((Value.map [(.text "id", .text target)]).fieldOrNull "id") (given "target" raw) = .text target :=
    if_pos real
  simp only [fromVerb, verb, params, source, real]
  simp [isMap]

theorem fromVerb_helper {name : String} (verb : given "do" raw = .text name) (named : name ≠ "") (ordinary : name ∉ reservedVerbs) :
    fromVerb store first raw place = keep store raw place (Action.readHelper (chosen
      [("id", either (given "id" raw) (given "as" raw)), ("helper", .text name), ("params", orEmpty (given "params" raw)),
        ("material", given "material" raw), ("as", given "as" raw), ("visible", (Value.entry? "visible" raw).getD (.bool true))] raw)) := by
  unfold fromVerb
  rw [verb]
  split <;> simp_all [reservedVerbs]

theorem fromKind_reference (kind : given "type" raw = .text "reference") :
    fromKind store first raw place = keep store raw place (Action.readReference (withTransform raw)) := by
  simp [fromKind, kindOf, kind]

theorem fromKind_helper (kind : given "type" raw = .text "helper") :
    fromKind store first raw place = keep store raw place (Action.readHelper (withTransform raw)) := by
  simp [fromKind, kindOf, kind]

/-- A frame among chosen fields, against one among all fields. -/
theorem frame_chosen (fields : Bindings) (same : Same ("transform" :: transformKeys) raw own)
    (parts : ∀ name ∈ transformKeys, fields.lookup name = none) (id : (fields.lookup "id").getD .null = given "id" own)
    (visible : (fields.lookup "visible").getD (.bool true) = (Value.entry? "visible" own).getD (.bool true)) :
    Action.readFrame (chosen fields raw) = Action.readFrame (withTransform own) := by
  refine Action.readFrame_same (fun name member => ?_) ?_
  · rcases List.mem_cons.mp member with rfl | part
    · rw [given_chosen (by decide), given_dressed_own (by decide), id]
    · rw [given_dressed part, given, entry_chosen, parts name part, transformPart_same same, Option.none_or]
  · rw [entry_chosen_own (by decide), entry_dressed (by decide), visible]

theorem alike_clone (paired : Paired cloneNames "clone" "reference" raw own) {target : String} (nonempty : target ≠ "")
    (verbs : given "params" raw = .map [(.text "id", .text target)]) (kinds : entry? "target" own = some (.text target))
    (shown : (Value.entry? "visible" own).getD (.bool true) = .bool true) :
    Alike (dispatch store first raw place) (dispatch store second own other) := by
  refine paired.dispatch store ?_
  rw [fromVerb_clone store place nonempty paired.givenVerb verbs, fromKind_reference store other paired.givenKind]
  have frame := frame_chosen [("id", given "id" raw), ("target", .text target), ("material", given "material" raw)]
    (same_part _ paired.same (by decide)) (by simp [transformKeys, List.lookup_cons]) (paired.matched "id" (by decide)) shown.symm
  rw [Action.readReference_same frame]
  · exact paired.keep (by decide) store _ _ _
  · intro name member
    rw [List.mem_singleton.mp member, entry_chosen_own (by decide), entry_dressed (by decide), kinds]
    rfl
  · rw [given_chosen (by decide), given_dressed_own (by decide)]
    exact paired.matched "material" (by decide)

theorem params_either {fields : Entries} (usual : ∀ value, entry? "params" fields = some value → value.isMap = true ∨ value.truthy = true) :
    Reading.under "params" (Reading.bindings (orEmpty (given "params" fields))) = Reading.field ["params"] (.ok []) Reading.bindings fields := by
  rw [Reading.field, List.find?_cons, given]
  cases found : entry? "params" fields with
  | none => rfl
  | some value =>
    have kept : orEmpty value = value := by
      rw [orEmpty]
      split
      · rfl
      · rename_i falsy
        obtain map | truthy := usual value found
        · cases value <;> simp_all [isMap, truthy]
        · exact absurd truthy falsy
    simp [found, kept]

theorem store_given (fields : Entries) (storeless : entry? "store" fields = none) :
    Reading.under "as" (Reading.optional Reading.text (given "as" fields)) =
      Reading.field ["as", "store"] (.ok none) (Reading.optional Reading.text) fields := by
  rw [Reading.field, List.find?_cons, List.find?_cons, List.find?_nil, given]
  cases found : entry? "as" fields <;> simp [storeless, found, Reading.optional, Reading.under]

theorem alike_helper {name : String} (paired : Paired ("params" :: sharedNames) name "helper" raw own)
    (named : name ≠ "") (ordinary : name ∉ reservedVerbs)
    (usual : ∀ value, entry? "params" own = some value → value.isMap = true ∨ value.truthy = true)
    (helper : entry? "helper" own = some (.text name)) (id : entry? "id" own = some (either (given "id" raw) (given "as" raw)))
    (storeless : entry? "store" own = none) :
    Alike (dispatch store first raw place) (dispatch store second own other) := by
  refine paired.dispatch store ?_
  rw [fromVerb_helper store place paired.givenVerb named ordinary, fromKind_helper store other paired.givenKind]
  generalize fields : [("id", either (given "id" raw) (given "as" raw)), ("helper", .text name), ("params", orEmpty (given "params" raw)),
        ("material", given "material" raw), ("as", given "as" raw), ("visible", (Value.entry? "visible" raw).getD (.bool true))] = chosenFields
  have frame : Action.readFrame (chosen chosenFields raw) = Action.readFrame (withTransform own) := by
    refine frame_chosen chosenFields (same_part _ paired.same (by decide)) ?_ ?_ ?_
    · simp [← fields, transformKeys, List.lookup_cons]
    · rw [given, id, ← fields]
      rfl
    · rw [← fields, ← paired.same "visible" (by decide)]
      rfl
  rw [Action.readHelper_same frame]
  · exact paired.keep (by decide) store _ _ _
  · intro name member
    rw [List.mem_singleton.mp member, entry_chosen_own (by decide), entry_dressed (by decide), helper, ← fields]
    rfl
  · have params : Reading.field ["params"] (.ok []) Reading.bindings (withTransform own) = Reading.field ["params"] (.ok []) Reading.bindings own :=
      Reading.field_same (fun name member => by rw [List.mem_singleton.mp member, entry_dressed (by decide)]) _ _
    rw [params, ← params_either usual, Reading.field, List.find?_cons, entry_chosen_own (by decide), ← fields, paired.matched "params" (by decide)]
    rfl
  · have stored : Reading.field ["as", "store"] (.ok none) (Reading.optional Reading.text) (withTransform own) =
        Reading.field ["as", "store"] (.ok none) (Reading.optional Reading.text) own :=
      Reading.field_same (fun name member => entry_dressed (by revert name; decide) own) _ _
    rw [stored, ← store_given own storeless, Reading.field, List.find?_cons, entry_chosen_own (by decide), ← fields, paired.matched "as" (by decide)]
    rfl
  · rw [given_chosen (by decide), given_dressed_own (by decide), ← paired.matched "material" (by decide), ← fields]
    rfl

/-- One step of both normalizations, where they agree on the actions below. -/
theorem dispatch_alike {action : Written} (regular : action.Regular) (verbal : action.verb = .map raw) (kindly : action.kind = .map own)
    (alike : ∀ {action : Written}, action.Regular → ∀ place other, Alike (first action.verb place) (second action.kind other)) :
    Alike (dispatch store first raw place) (dispatch store second own other) := by
  cases action with
  | loop fields body =>
    cases verbal
    cases kindly
    refine alike_loop store place other
      (paired_only fields (by simp [loopNames, sharedNames, transformKeys, entry?]) (by simp [Value.entry?])) body ?_ ?_ ?_
    · rw [given, entry_fixed (by decide), verbs_map]
      rfl
    · rw [entry_fixed (by decide), kinds_map]
      rfl
    · exact fun action member => alike (regularAll_iff.mp regular action member)
  | conditional fields accepted refused =>
    cases verbal
    cases kindly
    refine alike_conditional store place other
      (paired_only fields (by simp [conditionalNames, sharedNames, transformKeys, entry?]) (by simp [Value.entry?])) accepted refused ?_ ?_ ?_ ?_ ?_
    · rw [given, entry_fixed (by decide), verbs_map]
      rfl
    · rw [given, entry_fixed (by decide), verbs_map refused]
      rfl
    · rw [given, entry_fixed (by decide), kinds_map]
      rfl
    · rw [given, entry_fixed (by decide), kinds_map refused]
      rfl
    · intro action member
      rcases List.mem_append.mp member with first | second
      · exact alike (regularAll_iff.mp regular.1 action first)
      · exact alike (regularAll_iff.mp regular.2 action second)
  | repetition fields children =>
    cases verbal
    cases kindly
    refine alike_repetition store place other
      (paired_only fields (by simp [repetitionNames, sharedNames, transformKeys, entry?]) (by simp [Value.entry?])) children ?_ ?_ ?_
    · rw [entry_fixed (by decide), verbs_map]
      rfl
    · rw [given, entry_fixed (by decide), kinds_map]
      rfl
    · exact fun action member => alike (regularAll_iff.mp regular action member)
  | clone fields target =>
    cases verbal
    cases kindly
    refine alike_clone store place other
      (paired_only fields (by simp [cloneNames, sharedNames, transformKeys, entry?]) (by simp [Value.entry?])) regular.1 ?_ ?_ ?_
    · rw [given, entry_fixed (by decide)]
      rfl
    · rw [entry_fixed (by decide)]
      rfl
    · rw [entry_append, entry_only, if_pos (by decide)]
      exact regular.2
  | helper fields name =>
    cases verbal
    cases kindly
    have paired : Paired ("params" :: sharedNames) name "helper" ((.text "do", .text name) :: only ("id" :: "params" :: sharedNames) fields)
        ([(.text "type", .text "helper"), (.text "helper", .text name), (.text "id", either (given "id" fields) (given "as" fields))] ++
          only ("params" :: sharedNames) fields) := by
      constructor
      · intro name member
        have other : name ≠ "do" ∧ name ≠ "type" ∧ name ≠ "helper" ∧ name ≠ "id" := by
          revert name
          simp [sharedNames, transformKeys]
        simp [entry_cons, entry_only, other, member]
      all_goals simp [entry_cons, entry_only, sharedNames, transformKeys]
    refine alike_helper store place other paired regular.named regular.ordinary ?_ ?_ ?_ ?_
    · intro value found
      rw [entry_append, entry_only, if_pos List.mem_cons_self] at found
      exact regular.params value found
    · rw [entry_fixed (by decide)]
      rfl
    · have verbs : ∀ field ∈ ["id", "as"], given field ((.text "do", .text name) :: only ("id" :: "params" :: sharedNames) fields) =
          given field fields := by
        intro field member
        have admitted : field ≠ "do" ∧ field ∈ "id" :: "params" :: sharedNames := by
          revert field
          decide
        rw [given, given, entry_cons, if_neg (by simp [admitted.1]), entry_only, if_pos admitted.2]
      rw [entry_fixed (by decide), verbs "id" (by decide), verbs "as" (by decide)]
      rfl
    · rw [entry_fixed (by decide)]
      rfl

end

theorem within_alike (store : Store) (depth : Nat) {action : Written} (regular : action.Regular) (place other : String) :
    Alike (itemWithin store depth action.verb place) (itemWithin store depth action.kind other) := by
  induction depth generalizing action place other with
  | zero => exact alike_pure none
  | succ depth ih =>
    obtain ⟨raw, verbal⟩ : ∃ raw, action.verb = .map raw := by cases action <;> exact ⟨_, rfl⟩
    obtain ⟨own, kindly⟩ : ∃ own, action.kind = .map own := by cases action <;> exact ⟨_, rfl⟩
    have verbs := verb_current action
    have kinds := kind_current action
    rw [verbal, modern] at verbs
    rw [kindly, modern] at kinds
    rw [verbal, kindly, itemWithin_map, itemWithin_map]
    exact dispatch_alike store place other (regular_current regular) verbs.symm kinds.symm ih

/-- Written with verbs or with kinds, at every depth, the same action is read or the same items are left out. -/
theorem item_alike (store : Store) {action : Written} (regular : action.Regular) (place other : String) :
    Alike (item store action.verb place) (item store action.kind other) := by
  have alike := within_alike store (max action.verb.depth action.kind.depth + 1) regular place other
  rwa [itemWithin_item store (Nat.lt_succ_of_le (Nat.le_max_left _ _)),
    itemWithin_item store (Nat.lt_succ_of_le (Nat.le_max_right _ _))] at alike

/-- Whole lists of actions, written with verbs or with kinds. -/
theorem actions_alike (store : Store) {written : List Written} (regular : RegularAll written) (place other : String) :
    Alike (actions store (.list (verbs written)) place) (actions store (.list (kinds written)) other) := by
  rw [actions, actions, verbs_map, kinds_map]
  refine alike_nested (fun action member place other => ?_) place other
  rw [itemWithin_item store, itemWithin_item store]
  · exact item_alike store (regularAll_iff.mp regular action member) place other
  · exact Nat.lt_succ_of_le (depth_listed (List.mem_map_of_mem member))
  · exact Nat.lt_succ_of_le (depth_listed (List.mem_map_of_mem member))

end Written

/-! ### Where the two ways differ -/

theorem kept_reading (store : Store) {raw : Entries} {place : String} {reading : Reading Action} {log : DiagnosticLog} {action : Action}
    (kept : ((keep store raw place reading).run.run log).1 = .ok (some action)) : reading = .ok action := by
  cases reading with
  | ok read =>
    cases kept
    rfl
  | error paths =>
    unfold keep at kept
    split at kept
    · cases ‹Except.error paths = .ok _›
    · split at kept <;> cases kept

theorem readReference_frame {entries : Entries} {action : Action} (read : Action.readReference entries = .ok action) :
    action.frame = Action.readFrame entries := by
  rw [Action.readReference] at read
  cases target : Reading.required "target" Reading.text entries with
  | ok target =>
    rw [target] at read
    cases read
    rfl
  | error paths =>
    rw [target] at read
    cases read

/-- A copy made with a verb is shown, whatever its fields say. -/
theorem clone_shown (store : Store) (normalize : Normalizer) {raw : Entries} (verb : given "do" raw = .text "clone") {place : String}
    {log : DiagnosticLog} {action : Action} (made : ((fromVerb store normalize raw place).run.run log).1 = .ok (some action)) :
    action.frame.visible = .bool true := by
  simp only [fromVerb, verb] at made
  split at made
  · cases made
  · split at made
    · cases made
    · rw [readReference_frame (kept_reading store made)]
      change Action.free ["visible"] _ _ = _
      rw [Action.free_one, entry_chosen_own (by decide)]
      rfl

end ProceduralScene.Normalize
