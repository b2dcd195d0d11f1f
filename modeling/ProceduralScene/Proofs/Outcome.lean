import ProceduralScene.Build.Session

/-!
Where an action ends. An action may fail and keeps what it did before, so a contract speaks of the state after a
failure as well as of the value and the state after a success.
-/

set_option autoImplicit false

namespace ProceduralScene

section

variable {σ α β : Type}

/-- From `before` the action ends with a value and a state as in `ok`, or fails in a state as in `failed`. -/
def Ends (action : ExceptT Failure (StateM σ) α) (before : σ) (ok : α → σ → Prop) (failed : σ → Prop) : Prop :=
  match action.run.run before with
  | (.ok value, after) => ok value after
  | (.error _, after) => failed after

/-- The action relates its first state to its last one in any case, and `post` holds when it succeeds. -/
def Within (R : σ → σ → Prop) (action : ExceptT Failure (StateM σ) α) (before : σ) (post : α → σ → Prop) : Prop :=
  Ends action before (fun value after => R before after ∧ post value after) (R before)

/-- A relation between states that steps can be composed along. -/
structure Steady (R : σ → σ → Prop) : Prop where
  refl : ∀ s, R s s
  trans : ∀ {a b c}, R a b → R b c → R a c

theorem ends_ok {action : ExceptT Failure (StateM σ) α} {before after : σ} {value : α} {ok : α → σ → Prop}
    {failed : σ → Prop} (ends : Ends action before ok failed)
    (run : action.run.run before = (.ok value, after)) : ok value after := by
  unfold Ends at ends
  rw [run] at ends
  exact ends

theorem ends_mono {action : ExceptT Failure (StateM σ) α} {before : σ} {ok ok' : α → σ → Prop}
    {failed failed' : σ → Prop} (ends : Ends action before ok failed)
    (onOk : ∀ value after, ok value after → ok' value after) (onFailed : ∀ after, failed after → failed' after) :
    Ends action before ok' failed' := by
  unfold Ends at *
  rcases run : action.run.run before with ⟨_ | value, after⟩
  · rw [run] at ends
    exact onFailed after ends
  · rw [run] at ends
    exact onOk value after ends

theorem ends_pure {value : α} {before : σ} {ok : α → σ → Prop} {failed : σ → Prop} (holds : ok value before) :
    Ends (pure value) before ok failed := holds

theorem ends_throw {failure : Failure} {before : σ} {ok : α → σ → Prop} {failed : σ → Prop}
    (holds : failed before) : Ends (throw failure) before ok failed := holds

theorem ends_bind {action : ExceptT Failure (StateM σ) α} {next : α → ExceptT Failure (StateM σ) β} {before : σ}
    {ok : β → σ → Prop} {failed : σ → Prop}
    (first : Ends action before (fun value after => Ends (next value) after ok failed) failed) :
    Ends (action >>= next) before ok failed := by
  unfold Ends at first ⊢
  simp only [ExceptT.run_bind, StateT.run_bind]
  rcases run : action.run.run before with ⟨_ | value, after⟩
  · rw [run] at first
    exact first
  · rw [run] at first
    exact first

theorem ends_get {before : σ} {ok : σ → σ → Prop} {failed : σ → Prop} (holds : ok before before) :
    Ends (get : ExceptT Failure (StateM σ) σ) before ok failed := holds

theorem ends_set {before after : σ} {ok : PUnit → σ → Prop} {failed : σ → Prop} (holds : ok ⟨⟩ after) :
    Ends (set after : ExceptT Failure (StateM σ) PUnit) before ok failed := holds

theorem ends_modify {before : σ} {change : σ → σ} {ok : PUnit → σ → Prop} {failed : σ → Prop}
    (holds : ok ⟨⟩ (change before)) :
    Ends (modify change : ExceptT Failure (StateM σ) PUnit) before ok failed := holds

theorem ends_modifyGet {before : σ} {change : σ → α × σ} {ok : α → σ → Prop} {failed : σ → Prop}
    (holds : ok (change before).1 (change before).2) :
    Ends (modifyGet change : ExceptT Failure (StateM σ) α) before ok failed := holds

theorem ends_map {action : ExceptT Failure (StateM σ) α} {f : α → β} {before : σ}
    {ok : β → σ → Prop} {failed : σ → Prop}
    (first : Ends action before (fun value after => ok (f value) after) failed) :
    Ends (f <$> action) before ok failed := by
  unfold Ends at first ⊢
  simp only [ExceptT.run_map, StateT.run_map]
  rcases run : action.run.run before with ⟨_ | value, after⟩
  · rw [run] at first
    exact first
  · rw [run] at first
    exact first

theorem ends_tryCatch {action : ExceptT Failure (StateM σ) α} {handle : Failure → ExceptT Failure (StateM σ) α}
    {before : σ} {ok : α → σ → Prop} {failed : σ → Prop}
    (body : Ends action before ok fun after => ∀ failure, Ends (handle failure) after ok failed) :
    Ends (tryCatch action handle) before ok failed := by
  unfold Ends at body ⊢
  have unfolded : (tryCatch action handle : ExceptT Failure (StateM σ) α).run.run before =
      match action.run.run before with
      | (.ok value, after) => (.ok value, after)
      | (.error failure, after) => (handle failure).run.run after := by
    show (ExceptT.tryCatch action handle).run.run before = _
    simp only [ExceptT.tryCatch, ExceptT.run_mk, StateT.run_bind]
    rcases run : action.run.run before with ⟨_ | value, after⟩
    · simp only [ExceptT.run] at run ⊢
      rw [run]
      rfl
    · simp only [ExceptT.run] at run ⊢
      rw [run]
      rfl
  rw [unfolded]
  rcases run : action.run.run before with ⟨failure | value, after⟩
  · rw [run] at body
    exact body failure
  · rw [run] at body
    exact body

theorem ends_any (action : ExceptT Failure (StateM σ) α) (before : σ) :
    Ends action before (fun _ _ => True) fun _ => True := by
  unfold Ends
  split <;> trivial

-- a goal about an action is taken apart by the lemmas above, never by running the action
attribute [irreducible] Ends

end

section

variable {σ α β : Type} {R : σ → σ → Prop}

theorem within_ok {action : ExceptT Failure (StateM σ) α} {before after : σ} {value : α} {post : α → σ → Prop}
    (within : Within R action before post) (run : action.run.run before = (.ok value, after)) :
    R before after ∧ post value after := by
  have ends : Ends action before (fun value after => R before after ∧ post value after) (R before) := within
  have both := ends_ok ends run
  exact both

theorem within_mono {R' : σ → σ → Prop} {action : ExceptT Failure (StateM σ) α} {before : σ}
    {post post' : α → σ → Prop} (within : Within R action before post) (weaker : ∀ after, R before after → R' before after)
    (implies : ∀ value after, R before after → post value after → post' value after) :
    Within R' action before post' :=
  ends_mono within (fun value after both => ⟨weaker after both.1, implies value after both.1 both.2⟩) weaker

/-- The same step with a weaker conclusion about its value. -/
theorem within_weaken {action : ExceptT Failure (StateM σ) α} {before : σ}
    {post post' : α → σ → Prop} (within : Within R action before post)
    (implies : ∀ value after, R before after → post value after → post' value after) :
    Within R action before post' := within_mono within (fun _ related => related) implies

theorem within_pure (steady : Steady R) {value : α} {before : σ} {post : α → σ → Prop} (holds : post value before) :
    Within R (pure value) before post := ends_pure ⟨steady.refl before, holds⟩

theorem within_throw (steady : Steady R) {failure : Failure} {before : σ} {post : α → σ → Prop} :
    Within R (throw failure) before post := ends_throw (steady.refl before)

theorem within_throw_bind (steady : Steady R) {failure : Failure} {next : α → ExceptT Failure (StateM σ) β} {before : σ}
    {post : β → σ → Prop} : Within R (throw failure >>= next) before post :=
  ends_bind (ends_throw (steady.refl before))

theorem within_bind (steady : Steady R) {action : ExceptT Failure (StateM σ) α}
    {next : α → ExceptT Failure (StateM σ) β} {before : σ} {middle : α → σ → Prop} {post : β → σ → Prop}
    (first : Within R action before middle)
    (rest : ∀ value after, R before after → middle value after → Within R (next value) after post) :
    Within R (action >>= next) before post := by
  refine ends_bind (ends_mono first ?_ fun after related => related)
  rintro value after ⟨related, holds⟩
  exact ends_mono (rest value after related holds)
    (fun _ _ both => ⟨steady.trans related both.1, both.2⟩) (fun _ further => steady.trans related further)

/-- A step after which the states are said to be as in `middle`. -/
theorem within_bind_to (steady : Steady R) {action : ExceptT Failure (StateM σ) α}
    {next : α → ExceptT Failure (StateM σ) β} {before : σ} (middle : α → σ → Prop) {post : β → σ → Prop}
    (first : Within R action before middle)
    (rest : ∀ value after, R before after → middle value after → Within R (next value) after post) :
    Within R (action >>= next) before post := within_bind steady first rest

theorem within_pure_bind {value : α} {next : α → ExceptT Failure (StateM σ) β} {before : σ} {post : β → σ → Prop}
    (rest : Within R (next value) before post) : Within R (pure value >>= next) before post :=
  ends_bind (ends_pure rest)

/-- A step whose value does not matter for what follows. -/
theorem within_seq (steady : Steady R) {action : ExceptT Failure (StateM σ) α}
    {next : α → ExceptT Failure (StateM σ) β} {before : σ} {post : β → σ → Prop}
    (first : Within R action before fun _ _ => True)
    (rest : ∀ value after, R before after → Within R (next value) after post) :
    Within R (action >>= next) before post :=
  within_bind steady first fun value after related _ => rest value after related

theorem within_map {action : ExceptT Failure (StateM σ) α} {f : α → β} {before : σ} {post : β → σ → Prop}
    (first : Within R action before fun value after => post (f value) after) : Within R (f <$> action) before post :=
  ends_map first

theorem within_get {next : σ → ExceptT Failure (StateM σ) β} {before : σ} {post : β → σ → Prop}
    (rest : Within R (next before) before post) : Within R (get >>= next) before post := ends_bind (ends_get rest)

theorem within_modify {change : σ → σ} {before : σ} {post : PUnit → σ → Prop} (related : R before (change before))
    (holds : post ⟨⟩ (change before)) : Within R (modify change : ExceptT Failure (StateM σ) PUnit) before post :=
  ends_modify ⟨related, holds⟩

theorem within_match_except (steady : Steady R) {result : Except Failure α} {before : σ} {post : α → σ → Prop} :
    (∀ value, result = .ok value → post value before) →
    Within R (match result with
      | .ok value => pure value
      | .error failure => throw failure : ExceptT Failure (StateM σ) α) before post := by
  intro holds
  cases result with
  | error failure => exact within_throw steady
  | ok value => exact within_pure steady (holds value rfl)

/-- An action that leaves the state alone. -/
def Reads (action : ExceptT Failure (StateM σ) α) : Prop := ∀ s, Within (· = ·) action s fun _ _ => True

theorem steady_eq : Steady fun a b : σ => a = b := ⟨fun _ => rfl, fun first second => first.trans second⟩

theorem reads_pure (value : α) : Reads (pure value : ExceptT Failure (StateM σ) α) :=
  fun _ => within_pure steady_eq trivial

theorem reads_throw (failure : Failure) : Reads (throw failure : ExceptT Failure (StateM σ) α) :=
  fun _ => within_throw steady_eq

theorem reads_get : Reads (get : ExceptT Failure (StateM σ) σ) := fun _ => ends_get ⟨rfl, trivial⟩

theorem reads_bind {action : ExceptT Failure (StateM σ) α} {next : α → ExceptT Failure (StateM σ) β}
    (first : Reads action) (rest : ∀ value, Reads (next value)) : Reads (action >>= next) :=
  fun s => within_seq steady_eq (first s) fun value after _ => rest value after

theorem reads_except (result : Except Failure α) : Reads (match result with
      | .ok value => pure value
      | .error failure => throw failure : ExceptT Failure (StateM σ) α) :=
  fun _ => within_match_except steady_eq fun _ _ => trivial

/-- Before what follows, an action that only reads the state can be passed over. -/
theorem within_reads (steady : Steady R) {action : ExceptT Failure (StateM σ) α}
    {next : α → ExceptT Failure (StateM σ) β} {before : σ} {post : β → σ → Prop} (reads : Reads action)
    (rest : ∀ value, Within R (next value) before post) : Within R (action >>= next) before post := by
  refine ends_bind (ends_mono (reads before) ?_ ?_)
  · rintro value _ ⟨rfl, _⟩
    exact rest value
  · rintro _ rfl
    exact steady.refl before

theorem within_ite {c : Prop} [Decidable c] {yes no : ExceptT Failure (StateM σ) α} {before : σ} {post : α → σ → Prop}
    (whenTrue : c → Within R yes before post) (whenFalse : ¬c → Within R no before post) :
    Within R (if c then yes else no) before post := by
  split
  · exact whenTrue ‹_›
  · exact whenFalse ‹_›

/-- A step over each item of a list, from states of which an invariant holds. -/
theorem within_mapM (steady : Steady R) {step : α → ExceptT Failure (StateM σ) β} (inv : σ → Prop) (good : β → Prop)
    (kept : ∀ a b, R a b → inv a → inv b) (items : List α)
    (each : ∀ item ∈ items, ∀ before, inv before → Within R (step item) before fun value _ => good value) :
    ∀ before, inv before → Within R (items.mapM step) before fun values _ => ∀ value ∈ values, good value := by
  induction items with
  | nil => exact fun before _ => within_pure steady (by simp)
  | cons item rest ih =>
    intro before holds
    rw [List.mapM_cons]
    refine within_bind steady (each item (by simp) before holds) fun value after related first => ?_
    refine within_bind steady
      (ih (fun item member => each item (by simp [member])) after (kept _ _ related holds)) fun values last _ others => ?_
    exact within_pure steady (by simpa using ⟨first, others⟩)

theorem reads_mapM {step : α → ExceptT Failure (StateM σ) β} (items : List α)
    (each : ∀ item ∈ items, Reads (step item)) : Reads (items.mapM step) := fun s =>
  within_weaken (within_mapM steady_eq (fun _ => True) (fun _ => True) (fun _ _ _ _ => trivial) items
    (fun item member before _ => each item member before) s trivial) fun _ _ _ _ => trivial

/-- A fold over a list whose every step keeps an invariant of the accumulator. -/
theorem within_foldlM (steady : Steady R) {step : β → α → ExceptT Failure (StateM σ) β} (good : β → σ → Prop)
    (items : List α)
    (each : ∀ item ∈ items, ∀ acc before, good acc before → Within R (step acc item) before good) :
    ∀ acc before, good acc before → Within R (items.foldlM step acc) before good := by
  induction items with
  | nil => exact fun acc before holds => within_pure steady holds
  | cons item rest ih =>
    intro acc before holds
    rw [List.foldlM_cons]
    refine within_bind steady (each item (by simp) acc before holds) fun value after _ kept => ?_
    exact ih (fun item member => each item (by simp [member])) value after kept

end

section

variable {σ α β : Type}

/-- Where the action ends when it does not fail. -/
def Yields (action : ExceptT Failure (StateM σ) α) (before : σ) (post : α → σ → Prop) : Prop :=
  Ends action before post fun _ => True

theorem yields_ok {action : ExceptT Failure (StateM σ) α} {before after : σ} {value : α} {post : α → σ → Prop}
    (yields : Yields action before post) (run : action.run.run before = (.ok value, after)) : post value after :=
  ends_ok yields run

theorem yields_of_run {action : ExceptT Failure (StateM σ) α} {before : σ} {post : α → σ → Prop}
    (holds : ∀ value after, action.run.run before = (.ok value, after) → post value after) :
    Yields action before post := by
  unfold Yields Ends
  rcases run : action.run.run before with ⟨_ | value, after⟩
  · trivial
  · exact holds value after run

theorem yields_any (action : ExceptT Failure (StateM σ) α) (before : σ) : Yields action before fun _ _ => True :=
  ends_any action before

theorem yields_mono {action : ExceptT Failure (StateM σ) α} {before : σ} {post post' : α → σ → Prop}
    (yields : Yields action before post) (implies : ∀ value after, post value after → post' value after) :
    Yields action before post' := ends_mono yields implies fun _ _ => trivial

theorem yields_of_within {R : σ → σ → Prop} {action : ExceptT Failure (StateM σ) α} {before : σ} {post : α → σ → Prop}
    (within : Within R action before post) : Yields action before fun value after => R before after ∧ post value after :=
  ends_mono within (fun _ _ both => both) fun _ _ => trivial

theorem yields_and {action : ExceptT Failure (StateM σ) α} {before : σ} {post post' : α → σ → Prop}
    (first : Yields action before post) (second : Yields action before post') :
    Yields action before fun value after => post value after ∧ post' value after := by
  unfold Yields Ends at *
  rcases run : action.run.run before with ⟨_ | value, after⟩
  · trivial
  · rw [run] at first second
    exact ⟨first, second⟩

theorem yields_pure {value : α} {before : σ} {post : α → σ → Prop} (holds : post value before) :
    Yields (pure value) before post := ends_pure holds

theorem yields_throw {failure : Failure} {before : σ} {post : α → σ → Prop} : Yields (throw failure) before post :=
  ends_throw trivial

theorem yields_bind {action : ExceptT Failure (StateM σ) α} {next : α → ExceptT Failure (StateM σ) β} {before : σ}
    {middle : α → σ → Prop} {post : β → σ → Prop} (first : Yields action before middle)
    (rest : ∀ value after, middle value after → Yields (next value) after post) : Yields (action >>= next) before post :=
  ends_bind (ends_mono first rest fun _ _ => trivial)

/-- A step whose value and state do not matter for what follows. -/
theorem yields_seq {action : ExceptT Failure (StateM σ) α} {next : α → ExceptT Failure (StateM σ) β} {before : σ}
    {post : β → σ → Prop} (rest : ∀ value after, Yields (next value) after post) : Yields (action >>= next) before post :=
  yields_bind (yields_any action before) fun value after _ => rest value after

theorem yields_pure_bind {value : α} {next : α → ExceptT Failure (StateM σ) β} {before : σ} {post : β → σ → Prop}
    (rest : Yields (next value) before post) : Yields (pure value >>= next) before post := ends_bind (ends_pure rest)

theorem yields_get {next : σ → ExceptT Failure (StateM σ) β} {before : σ} {post : β → σ → Prop}
    (rest : Yields (next before) before post) : Yields (get >>= next) before post := ends_bind (ends_get rest)

theorem yields_modify {change : σ → σ} {before : σ} {post : PUnit → σ → Prop} (holds : post ⟨⟩ (change before)) :
    Yields (modify change : ExceptT Failure (StateM σ) PUnit) before post := ends_modify holds

theorem yields_modify_bind {change : σ → σ} {next : PUnit → ExceptT Failure (StateM σ) β} {before : σ}
    {post : β → σ → Prop} (rest : Yields (next ⟨⟩) (change before) post) :
    Yields ((modify change : ExceptT Failure (StateM σ) PUnit) >>= next) before post := ends_bind (ends_modify rest)

/-- An action that only reads the state can be passed over. -/
theorem yields_reads {action : ExceptT Failure (StateM σ) α} {next : α → ExceptT Failure (StateM σ) β} {before : σ}
    {post : β → σ → Prop} (reads : Reads action) (rest : ∀ value, Yields (next value) before post) :
    Yields (action >>= next) before post := by
  refine yields_bind (yields_of_within (reads before)) ?_
  rintro value _ ⟨rfl, _⟩
  exact rest value

end

section

variable {σ α β : Type}

/-- The action succeeds, and it ends as in `post`. -/
def Returns (action : ExceptT Failure (StateM σ) α) (before : σ) (post : α → σ → Prop) : Prop :=
  Ends action before post fun _ => False

theorem returns_iff {action : ExceptT Failure (StateM σ) α} {before : σ} {post : α → σ → Prop} :
    Returns action before post ↔ ∃ value after, action.run.run before = (.ok value, after) ∧ post value after := by
  unfold Returns Ends
  rcases action.run.run before with ⟨_ | value, after⟩
  · exact ⟨False.elim, fun ⟨_, _, same, _⟩ => by cases same⟩
  · exact ⟨fun holds => ⟨value, after, rfl, holds⟩, fun ⟨_, _, same, holds⟩ => by cases same; exact holds⟩

theorem returns_of_run {action : ExceptT Failure (StateM σ) α} {before after : σ} {value : α} {post : α → σ → Prop}
    (run : action.run.run before = (.ok value, after)) (holds : post value after) : Returns action before post :=
  returns_iff.mpr ⟨value, after, run, holds⟩

theorem returns_mono {action : ExceptT Failure (StateM σ) α} {before : σ} {post post' : α → σ → Prop}
    (returns : Returns action before post) (implies : ∀ value after, post value after → post' value after) :
    Returns action before post' := ends_mono returns implies fun _ => id

theorem returns_and {action : ExceptT Failure (StateM σ) α} {before : σ} {post post' : α → σ → Prop}
    (first : Returns action before post) (second : Returns action before post') :
    Returns action before fun value after => post value after ∧ post' value after := by
  obtain ⟨value, after, run, holds⟩ := returns_iff.mp first
  exact returns_of_run run ⟨holds, ends_ok second run⟩

theorem returns_pure {value : α} {before : σ} {post : α → σ → Prop} (holds : post value before) :
    Returns (pure value) before post := ends_pure holds

theorem returns_bind {action : ExceptT Failure (StateM σ) α} {next : α → ExceptT Failure (StateM σ) β} {before : σ}
    {middle : α → σ → Prop} {post : β → σ → Prop} (first : Returns action before middle)
    (rest : ∀ value after, middle value after → Returns (next value) after post) : Returns (action >>= next) before post :=
  ends_bind (ends_mono first rest fun _ => id)

theorem returns_pure_bind {value : α} {next : α → ExceptT Failure (StateM σ) β} {before : σ} {post : β → σ → Prop}
    (rest : Returns (next value) before post) : Returns (pure value >>= next) before post := ends_bind (ends_pure rest)

theorem returns_get {next : σ → ExceptT Failure (StateM σ) β} {before : σ} {post : β → σ → Prop}
    (rest : Returns (next before) before post) : Returns (get >>= next) before post := ends_bind (ends_get rest)

theorem returns_modify {change : σ → σ} {before : σ} {post : PUnit → σ → Prop} (holds : post ⟨⟩ (change before)) :
    Returns (modify change : ExceptT Failure (StateM σ) PUnit) before post := ends_modify holds

theorem returns_modify_bind {change : σ → σ} {next : PUnit → ExceptT Failure (StateM σ) β} {before : σ}
    {post : β → σ → Prop} (rest : Returns (next ⟨⟩) (change before) post) :
    Returns ((modify change : ExceptT Failure (StateM σ) PUnit) >>= next) before post := ends_bind (ends_modify rest)

theorem returns_modifyGet {change : σ → α × σ} {before : σ} {post : α → σ → Prop}
    (holds : post (change before).1 (change before).2) :
    Returns (modifyGet change : ExceptT Failure (StateM σ) α) before post := ends_modifyGet holds

end

namespace SessionAction

variable {α : Type}

theorem ends_onScene {action : SceneAction α} {s : Session} {ok : α → Session → Prop} {failed : Session → Prop}
    (body : Ends action s.scene (fun value scene => ok value { s with scene := scene })
      (fun scene => failed { s with scene := scene })) :
    Ends (onScene action) s ok failed := by
  refine ends_bind (ends_get ?_)
  unfold Ends at body
  rcases run : action.run.run s.scene with ⟨failure | value, scene⟩
  · rw [run] at body
    exact ends_bind (ends_set (ends_throw body))
  · rw [run] at body
    exact ends_bind (ends_set (ends_pure body))

theorem ends_onEvaluator {action : Evaluation α} {s : Session} {ok : α → Session → Prop} {failed : Session → Prop}
    (body : Ends action s.evaluator (fun value evaluator => ok value { s with evaluator := evaluator })
      (fun evaluator => failed { s with evaluator := evaluator })) :
    Ends (onEvaluator action) s ok failed := by
  refine ends_bind (ends_get ?_)
  unfold Ends at body
  rcases run : action.run.run s.evaluator with ⟨failure | value, evaluator⟩
  · rw [run] at body
    exact ends_bind (ends_set (ends_throw body))
  · rw [run] at body
    exact ends_bind (ends_set (ends_pure body))

theorem returns_onScene {action : SceneAction α} {s : Session} {post : α → Session → Prop}
    (body : Returns action s.scene fun value scene => post value { s with scene := scene }) :
    Returns (onScene action) s post := ends_onScene body

theorem returns_onEvaluator {action : Evaluation α} {s : Session} {post : α → Session → Prop}
    (body : Returns action s.evaluator fun value evaluator => post value { s with evaluator := evaluator }) :
    Returns (onEvaluator action) s post := ends_onEvaluator body

theorem ends_attempt {action : SessionAction α} {s : Session} {ok : Except Failure α → Session → Prop}
    {failed : Session → Prop}
    (body : Ends action s (fun value after => ok (.ok value) after) fun after => ∀ failure, ok (.error failure) after) :
    Ends (attempt action) s ok failed := by
  refine ends_tryCatch (ends_bind (ends_mono body (fun value after holds => ends_pure holds) ?_))
  exact fun after holds failure => ends_pure (holds failure)

/-- An attempt ends where the action ends, failed or not. -/
theorem within_attempt {R : Session → Session → Prop} {action : SessionAction α} {s : Session}
    {post : α → Session → Prop} (body : Within R action s post) :
    Within R (attempt action) s fun result after => ∀ value, result = .ok value → post value after := by
  refine ends_attempt (ends_mono body ?_ ?_)
  · rintro value after ⟨related, holds⟩
    exact ⟨related, fun found same => by cases same; exact holds⟩
  · exact fun after related failure => ⟨related, fun value same => by cases same⟩

end SessionAction

end ProceduralScene
