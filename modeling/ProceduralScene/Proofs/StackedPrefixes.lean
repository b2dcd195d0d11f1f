import ProceduralScene.Proofs.SpellingTurns

/-!
Prefixes that stand in one another. A pass leaves an older spelling of its own behind where one stood in another, and
keeps those of the other passes where they are.
-/

set_option autoImplicit false

namespace ProceduralScene.Spelling

open Expression

/-! ### Lexemes that a turn leaves alone -/

section

variable {turn : Turn}

/-- The turn leaves what stands between a prefix, a name and the parenthesis of a call. -/
def LeavesPunctuation (turn : Turn) : Prop :=
  ∀ c : Char, c = '.' ∨ c = '(' ∨ Text.isSpace c = true → Leaves turn (.mark c)

theorem opens_pass (leaves : LeavesPunctuation turn) {rest inner : List Lexeme} (opens : Opens rest inner) :
    ∀ {result : List Lexeme}, Pass turn rest result → ∃ more, Opens result more := by
  induction opens with
  | here =>
    intro result pass
    obtain ⟨more, rfl, _⟩ := pass_from ((leaves _ (.inr (.inl rfl))).takes _) pass
    exact ⟨more, .here⟩
  | blank space _ ih =>
    intro result pass
    obtain ⟨behind, rfl, passed⟩ := pass_from ((leaves _ (.inr (.inr space))).takes _) pass
    obtain ⟨inner, opens⟩ := ih passed
    exact ⟨inner, .blank space opens⟩

theorem opens_of_pass (leaves : LeavesPunctuation turn) {result inner : List Lexeme} (opens : Opens result inner) :
    ∀ {rest : List Lexeme}, Pass turn rest result → ∃ more, Opens rest more := by
  induction opens with
  | here =>
    intro rest pass
    obtain ⟨more, rfl, _⟩ := pass_to (leaves _ (.inr (.inl rfl))).puts pass
    exact ⟨more, .here⟩
  | blank space _ ih =>
    intro rest pass
    obtain ⟨behind, rfl, _, passed⟩ := pass_to (leaves _ (.inr (.inr space))).puts pass
    obtain ⟨inner, opens⟩ := ih passed
    exact ⟨inner, .blank space opens⟩

end

theorem ne_of_punctuation {c d : Char} (punctuation : c = '.' ∨ c = '(' ∨ Text.isSpace c = true)
    (other : d = '$' ∨ d = '=' ∨ d = '!') : c ≠ d := by
  rcases punctuation with rfl | rfl | space
  · rcases other with rfl | rfl | rfl <;> decide
  · rcases other with rfl | rfl | rfl <;> decide
  · rcases other with rfl | rfl | rfl <;> exact ne_of_isSpace space (by decide)

theorem context_punctuation : LeavesPunctuation ContextTurn := by
  refine fun c punctuation => ⟨?_, ?_⟩
  · rintro rest ⟨_, _, ⟨⟩⟩
  · rintro parts new behind ⟨_⟩
    exact ⟨_, _, rfl, by simpa using (ne_of_punctuation punctuation (.inl rfl)).symm⟩

theorem constant_punctuation : LeavesPunctuation ConstantTurn := by
  refine fun c _ => ⟨?_, ?_⟩
  · rintro rest ⟨_, _, ⟨⟩⟩
  · rintro parts new behind ⟨_⟩
    exact ⟨_, _, rfl, by simp⟩

theorem call_punctuation : LeavesPunctuation CallTurn := by
  refine fun c _ => ⟨?_, ?_⟩
  · rintro rest ⟨_, _, ⟨⟩⟩
  · rintro parts new behind ⟨_⟩
    exact ⟨_, _, rfl, by simp⟩

theorem literal_leaves {c d : Char} {old new : List Char} {part : Lexeme} (notOld : .mark c ≠ part) (notNew : .mark d ≠ part) :
    Leaves (LiteralTurn (c :: old) (d :: new)) part where
  takes := by
    rintro rest ⟨_, _, turned⟩
    generalize whole : part :: rest = parts at turned
    cases turned
    injection whole with same
    exact notOld same.symm
  puts := by
    rintro parts added behind ⟨_⟩
    exact ⟨_, _, rfl, notNew⟩

theorem literal_punctuation {c d : Char} {old new : List Char} (oldMark : c = '$' ∨ c = '=' ∨ c = '!')
    (newMark : d = '$' ∨ d = '=' ∨ d = '!') : LeavesPunctuation (LiteralTurn (c :: old) (d :: new)) := by
  intro e punctuation
  exact literal_leaves (by simpa using (ne_of_punctuation punctuation oldMark).symm)
    (by simpa using (ne_of_punctuation punctuation newMark).symm)

/-! ### Context variables -/

/-- A name stands first. -/
def BeginsName (parts : List Lexeme) : Prop := ∃ name rest, parts = .word name :: rest ∧ startsName name = true

theorem turns_context {part : Lexeme} {parts : List Lexeme} : Turns ContextTurn (part :: parts) ↔
    part = .word contextName ∧ ∃ more, parts = .mark '.' :: more ∧ BeginsName more := by
  constructor
  · rintro ⟨_, _, ⟨starts⟩⟩
    exact ⟨rfl, _, rfl, _, _, rfl, starts⟩
  · rintro ⟨rfl, _, rfl, name, rest, rfl, starts⟩
    exact ⟨_, _, .variable starts⟩

/-- A name is turned into no other start, and none is made. -/
def LeavesNames (turn : Turn) : Prop :=
  ∀ {parts new behind : List Lexeme}, turn parts new behind → ∀ result, BeginsName (new ++ result) ↔ BeginsName parts

theorem beginsName_pass {turn : Turn} (leaves : LeavesNames turn) {parts result : List Lexeme} (pass : Pass turn parts result) :
    BeginsName result ↔ BeginsName parts := by
  cases pass with
  | nil => exact Iff.rfl
  | kept => simp [BeginsName]
  | turned turned _ => exact leaves turned _

theorem context_pass {turn : Turn} (punctuation : LeavesPunctuation turn) (names : LeavesNames turn)
    (made : ∀ {parts new behind : List Lexeme}, turn parts new behind → ∀ result,
      Somewhere (Turns ContextTurn) (new ++ result) ↔ Somewhere (Turns ContextTurn) result)
    (taken : ∀ {parts new behind : List Lexeme}, turn parts new behind →
      (Somewhere (Turns ContextTurn) parts ↔ Somewhere (Turns ContextTurn) behind))
    {parts result : List Lexeme} (pass : Pass turn parts result) :
    Somewhere (Turns ContextTurn) result ↔ Somewhere (Turns ContextTurn) parts := by
  refine somewhere_pass pass Iff.rfl (fun {part rest result} _ pass => ?_) fun turned _ ih => ?_
  · have point := punctuation '.' (.inl rfl)
    simp only [turns_context]
    refine and_congr_right fun _ => ⟨?_, ?_⟩
    · rintro ⟨more, rfl, begins⟩
      obtain ⟨rest, rfl, _, passed⟩ := pass_to point.puts pass
      exact ⟨rest, rfl, (beginsName_pass names passed).mp begins⟩
    · rintro ⟨more, rfl, begins⟩
      obtain ⟨result, rfl, passed⟩ := pass_from (point.takes _) pass
      exact ⟨result, rfl, (beginsName_pass names passed).mpr begins⟩
  · rw [made turned, ih, taken turned]

/-! ### Sites that begin with a word -/

/-- The site never begins with a blank or a parenthesis. -/
def Foreign (site : List Lexeme → Prop) : Prop :=
  ∀ (c : Char) (rest : List Lexeme), c = '(' ∨ Text.isSpace c = true → ¬ site (.mark c :: rest)

theorem somewhere_opens {site : List Lexeme → Prop} (foreign : Foreign site) {rest inner : List Lexeme} (opens : Opens rest inner) :
    Somewhere site rest ↔ Somewhere site inner := by
  induction opens with
  | here => exact somewhere_rest (foreign _ _ (.inl rfl))
  | blank space _ ih => rw [somewhere_rest (foreign _ _ (.inr space)), ih]

theorem somewhere_marks {site : List Lexeme → Prop} (words : ∀ (c : Char) (rest : List Lexeme), ¬ site (.mark c :: rest))
    (marks : List Char) (rest : List Lexeme) : Somewhere site (marks.map .mark ++ rest) ↔ Somewhere site rest := by
  induction marks with
  | nil => exact Iff.rfl
  | cons c marks ih => rw [List.map_cons, List.cons_append, somewhere_rest (words c _), ih]

theorem opens_point {rest inner more : List Lexeme} (opens : Opens rest inner) : rest ≠ .mark '.' :: more := by
  cases opens with
  | here => simp
  | blank space _ => simpa using fun same : _ = '.' => absurd same (ne_of_isSpace space (by decide))

theorem context_mark (c : Char) (rest : List Lexeme) : ¬ Turns ContextTurn (.mark c :: rest) := by
  simp [turns_context]

theorem constant_ne {old new : List Char} (known : (old, new) ∈ constants) :
    ∀ prefixName ∈ [contextName, mathName], old ≠ prefixName ∧ new ≠ prefixName := by
  have all : ∀ names ∈ constants, ∀ prefixName ∈ [contextName, mathName], names.1 ≠ prefixName ∧ names.2 ≠ prefixName := by
    decide
  exact all _ known

theorem startsName_constant {old new : List Char} (known : (old, new) ∈ constants) : startsName new = true := by
  have all : ∀ names ∈ constants, startsName names.2 = true := by decide
  exact all _ known

theorem constant_once {old new other : List Char} (known : (old, new) ∈ constants) : (new, other) ∉ constants := by
  have all : ∀ names ∈ constants, ∀ others ∈ constants, names.2 ≠ others.1 := by decide
  exact fun again => all _ known _ again rfl

theorem constant_leaves_context {parts result : List Lexeme} (pass : Pass ConstantTurn parts result) :
    Somewhere (Turns ContextTurn) result ↔ Somewhere (Turns ContextTurn) parts := by
  refine context_pass constant_punctuation ?_ ?_ ?_ pass
  · rintro parts new behind ⟨known⟩ result
    refine iff_of_true ⟨_, _, rfl, startsName_constant known⟩ ⟨_, _, rfl, by decide⟩
  · rintro parts new behind ⟨known⟩ result
    refine somewhere_rest ?_
    simp [turns_context, (constant_ne known contextName (by simp)).2]
  · rintro parts new behind ⟨known⟩
    rw [prefixed, prefixed, somewhere_rest, somewhere_rest (context_mark _ _), somewhere_rest]
    · simp [turns_context, (constant_ne known contextName (by simp)).1]
    · simp [turns_context, mathName, contextName]

theorem call_leaves_context {parts result : List Lexeme} (pass : Pass CallTurn parts result) :
    Somewhere (Turns ContextTurn) result ↔ Somewhere (Turns ContextTurn) parts := by
  refine context_pass call_punctuation ?_ ?_ ?_ pass
  · rintro parts new behind ⟨_⟩ result
    refine iff_of_true ⟨_, _, rfl, ?_⟩ ⟨_, _, rfl, by decide⟩
    rename_i name _ _
    simp [startsName, Identifier.text, name.starts]
  · rintro parts new behind ⟨_⟩ result
    rw [List.cons_append, List.cons_append, somewhere_rest, somewhere_rest (context_mark _ _)]
    · rfl
    · simp [turns_context]
  · rintro parts new behind ⟨opens⟩
    rw [prefixed, prefixed, somewhere_rest, somewhere_rest (context_mark _ _), somewhere_rest,
      somewhere_opens (fun c rest _ => context_mark c rest) opens]
    · rw [turns_context]
      rintro ⟨_, more, point, _⟩
      exact opens_point opens point
    · simp [turns_context, mathName, contextName]

theorem literal_leaves_context {c d : Char} {old new : List Char} (oldMark : c = '$' ∨ c = '=' ∨ c = '!')
    (newMark : d = '$' ∨ d = '=' ∨ d = '!') {parts result : List Lexeme} (pass : Pass (LiteralTurn (c :: old) (d :: new)) parts result) :
    Somewhere (Turns ContextTurn) result ↔ Somewhere (Turns ContextTurn) parts := by
  refine context_pass (literal_punctuation oldMark newMark) ?_ ?_ ?_ pass
  · rintro parts added behind ⟨_⟩ result
    simp [BeginsName]
  · rintro parts added behind ⟨_⟩ result
    exact somewhere_marks context_mark _ _
  · rintro parts added behind ⟨_⟩
    exact somewhere_marks context_mark _ _

/-! ### Rows of prefixes -/

/-- A name behind a row of prefixes `ctx.` of even length; the row goes on neither to the left nor to the right. -/
def EvenRow (parts : List Lexeme) : Prop :=
  ∃ before n rest, parts = before ++ prefixed contextName (2 * n + 2) rest ∧
    (∀ more, before ≠ more ++ prefixed contextName 1 []) ∧ BeginsName rest ∧ ¬ Turns ContextTurn rest

theorem turns_prefixed {n : Nat} {rest : List Lexeme} (begins : BeginsName rest) :
    Turns ContextTurn (prefixed contextName (n + 1) rest) := by
  rw [prefixed, turns_context]
  cases n with
  | zero => exact ⟨rfl, _, rfl, begins⟩
  | succ n => exact ⟨rfl, _, rfl, _, _, rfl, by decide⟩

theorem no_row_before {before : List Lexeme} (short : before.length < 2) (more : List Lexeme) :
    before ≠ more ++ prefixed contextName 1 [] := by
  rintro rfl
  simp only [prefixed, List.length_append, List.length_cons, List.length_nil] at short
  omega

theorem evenRow_cons {part : Lexeme} {rest : List Lexeme} (misses : ¬ Turns ContextTurn (part :: rest)) :
    EvenRow (part :: rest) ↔ EvenRow rest := by
  constructor
  · rintro ⟨before, n, after, same, first, begins, last⟩
    match before with
    | [] => exact absurd (same ▸ turns_prefixed begins) misses
    | _ :: before =>
      injection same with same rest
      subst same
      exact ⟨before, n, after, rest, fun more ends => first (part :: more) (by rw [ends]; rfl), begins, last⟩
  · rintro ⟨before, n, after, rfl, first, begins, last⟩
    refine ⟨part :: before, n, after, rfl, fun more ends => ?_, begins, last⟩
    match more with
    | [] =>
      -- the lexeme would put one more prefix before the row
      injection ends with same rest
      subst same rest
      exact misses (turns_prefixed (n := 2 * n + 2) begins)
    | _ :: more =>
      injection ends with _ rest
      exact first more rest

/-- A variable whose name is itself a prefix, left before a name that is not taken with the next prefix. -/
def Exposes (name : List Char) (rest : List Lexeme) : Prop :=
  name = contextName ∧ ∃ more, rest = .mark '.' :: more ∧ BeginsName more ∧ ¬ Turns ContextTurn more

theorem evenRow_variable {name : List Char} {rest : List Lexeme} (starts : startsName name = true) :
    EvenRow (prefixed contextName 1 (.word name :: rest)) ↔ Exposes name rest ∨ EvenRow rest := by
  constructor
  · rintro ⟨before, n, after, same, first, begins, last⟩
    match before with
    | [] =>
      injection same with _ same
      injection same with _ same
      injection same with named same
      injection named with named
      cases n with
      | zero => exact .inl ⟨named, after, same, begins, last⟩
      | succ n => exact .inr ⟨[.mark '.'], n, after, same, fun more => no_row_before (by simp) more, begins, last⟩
    | [_] =>
      injection same with _ same
      injection same with other
      cases other
    | [_, _] =>
      injection same with word same
      injection same with point
      exact absurd (by rw [← word, ← point]; rfl) (first [])
    | _ :: _ :: _ :: before =>
      injection same with word same
      injection same with point same
      injection same with last' same
      subst word point last'
      refine .inr ⟨before, n, after, same, fun more ends => first (_ :: _ :: _ :: more) (by rw [ends]; rfl), begins, last⟩
  · rintro (⟨rfl, more, rfl, begins, last⟩ | ⟨before, n, after, rfl, first, begins, last⟩)
    · exact ⟨[], 0, more, rfl, fun more => no_row_before (by simp) more, begins, last⟩
    · by_cases joined : name = contextName ∧ before = [.mark '.']
      · obtain ⟨rfl, rfl⟩ := joined
        exact ⟨[], n + 1, after, rfl, fun more => no_row_before (by simp) more, begins, last⟩
      · refine ⟨prefixed contextName 1 (.word name :: before), n, after, rfl, fun more ends => ?_, begins, last⟩
        match more with
        | [] => cases ends
        | [_] => cases ends
        | [_, _] =>
          cases ends
          exact joined ⟨rfl, rfl⟩
        | _ :: _ :: _ :: more =>
          injection ends with _ ends
          injection ends with _ ends
          injection ends with _ ends
          exact first more ends

theorem context_begins {parts result : List Lexeme} (pass : Pass ContextTurn parts result) :
    BeginsName result ↔ BeginsName parts ∧ ¬ Turns ContextTurn parts := by
  constructor
  · rintro ⟨name, more, rfl, starts⟩
    obtain ⟨rest, rfl, misses, _⟩ := pass_to (fun turned => by cases turned; exact ⟨_, _, rfl, by simp⟩) pass
    exact ⟨⟨name, rest, rfl, starts⟩, misses⟩
  · rintro ⟨⟨name, rest, rfl, starts⟩, misses⟩
    obtain ⟨more, rfl, _⟩ := pass_from misses pass
    exact ⟨name, more, rfl, starts⟩

theorem exposes_iff {name : List Char} {behind result : List Lexeme} (pass : Pass ContextTurn behind result) :
    Turns ContextTurn (.word name :: result) ↔ Exposes name behind := by
  have point := context_punctuation '.' (.inl rfl)
  rw [turns_context, Lexeme.word.injEq]
  refine and_congr_right fun _ => ⟨?_, ?_⟩
  · rintro ⟨more, rfl, begins⟩
    obtain ⟨rest, rfl, _, passed⟩ := pass_to point.puts pass
    obtain ⟨begins, misses⟩ := (context_begins passed).mp begins
    exact ⟨rest, rfl, begins, misses⟩
  · rintro ⟨rest, rfl, begins, misses⟩
    obtain ⟨more, rfl, passed⟩ := pass_from (point.takes _) pass
    exact ⟨more, rfl, (context_begins passed).mpr ⟨begins, misses⟩⟩

/-- After the pass over context variables one is left exactly where a row was even. -/
theorem context_left {parts result : List Lexeme} (pass : Pass ContextTurn parts result) :
    Somewhere (Turns ContextTurn) result ↔ EvenRow parts := by
  induction pass with
  | nil =>
    rw [somewhere_nil]
    refine iff_of_false ?_ ?_
    · rintro ⟨_, _, ⟨⟩⟩
    · rintro ⟨before, n, rest, same, _⟩
      cases before <;> cases same
  | @kept part rest result misses pass ih =>
    rw [evenRow_cons misses, ← ih]
    refine somewhere_rest fun turns => misses ?_
    obtain ⟨rfl, _⟩ := turns_context.mp turns
    obtain ⟨_, more, rfl, begins, _⟩ := (exposes_iff pass).mp turns
    exact turns_context.mpr ⟨rfl, more, rfl, begins⟩
  | turned turned pass ih =>
    obtain ⟨starts⟩ := turned
    rw [evenRow_variable starts, ← ih, ← exposes_iff pass]
    exact (somewhere_rest (context_mark _ _)).trans somewhere_cons

/-! ### Calls -/

/-- A call of the name, qualified `n` times over. -/
def Called (n : Nat) (name : Identifier) (parts : List Lexeme) : Prop :=
  ∃ rest inner, parts = prefixed mathName n (.word name.text :: rest) ∧ Opens rest inner

/-- How many prefixes the pass over constants takes from a name. -/
def constantPrefixes (name : Identifier) : Nat := if constants.any (·.1 == name.text) then 1 else 0

/-- A call with as many prefixes as are said for its name. -/
def CallOf (height : Identifier → Nat) (parts : List Lexeme) : Prop := ∃ name, Called (height name) name parts

theorem turns_call {parts : List Lexeme} : Turns CallTurn parts ↔ CallOf (fun _ => 1) parts := by
  constructor
  · rintro ⟨_, _, ⟨opens⟩⟩
    exact ⟨_, _, _, rfl, opens⟩
  · rintro ⟨name, rest, inner, rfl, opens⟩
    exact ⟨_, _, .call opens⟩

theorem called_zero {name : Identifier} {part : Lexeme} {parts : List Lexeme} :
    Called 0 name (part :: parts) ↔ part = .word name.text ∧ ∃ inner, Opens parts inner := by
  constructor
  · rintro ⟨rest, inner, same, opens⟩
    cases same
    exact ⟨rfl, inner, opens⟩
  · rintro ⟨rfl, inner, opens⟩
    exact ⟨parts, inner, rfl, opens⟩

theorem called_succ {n : Nat} {name : Identifier} {part : Lexeme} {parts : List Lexeme} :
    Called (n + 1) name (part :: parts) ↔ part = .word mathName ∧ ∃ more, parts = .mark '.' :: more ∧ Called n name more := by
  constructor
  · rintro ⟨rest, inner, same, opens⟩
    cases same
    exact ⟨rfl, _, rfl, rest, inner, rfl, opens⟩
  · rintro ⟨rfl, _, rfl, rest, inner, rfl, opens⟩
    exact ⟨rest, inner, rfl, opens⟩

theorem called_nil {n : Nat} {name : Identifier} : ¬ Called n name [] := by
  rintro ⟨rest, inner, same, _⟩
  cases n <;> cases same

theorem called_mark {n : Nat} {name : Identifier} (c : Char) (rest : List Lexeme) : ¬ Called n name (.mark c :: rest) := by
  cases n with
  | zero => simp [called_zero]
  | succ n => simp [called_succ]

theorem callOf_succ (height : Identifier → Nat) {part : Lexeme} {parts : List Lexeme} :
    CallOf (fun name => height name + 1) (part :: parts) ↔
      part = .word mathName ∧ ∃ more, parts = .mark '.' :: more ∧ CallOf height more := by
  constructor
  · rintro ⟨name, called⟩
    obtain ⟨rfl, more, rfl, inner⟩ := called_succ.mp called
    exact ⟨rfl, more, rfl, name, inner⟩
  · rintro ⟨rfl, more, rfl, name, called⟩
    exact ⟨name, called_succ.mpr ⟨rfl, more, rfl, called⟩⟩

theorem callOf_word {height : Identifier → Nat} {run : List Char} (other : run ≠ mathName) (rest : List Lexeme) :
    ¬ CallOf (fun name => height name + 1) (.word run :: rest) := by
  simp [callOf_succ, other]

theorem callOf_opens (height : Identifier → Nat) {run : List Char} {rest inner : List Lexeme} (opens : Opens rest inner) :
    ¬ CallOf (fun name => height name + 1) (.word run :: rest) := by
  rw [callOf_succ]
  rintro ⟨_, more, point, _⟩
  exact opens_point opens point

theorem callOf_mark {height : Identifier → Nat} (c : Char) (rest : List Lexeme) : ¬ CallOf height (.mark c :: rest) :=
  fun ⟨_, called⟩ => called_mark c rest called

section

variable {turn : Turn} (punctuation : LeavesPunctuation turn)

include punctuation

theorem opens_iff {parts result : List Lexeme} (pass : Pass turn parts result) :
    (∃ inner, Opens result inner) ↔ ∃ inner, Opens parts inner :=
  ⟨fun ⟨_, opens⟩ => opens_of_pass punctuation opens pass, fun ⟨_, opens⟩ => opens_pass punctuation opens pass⟩

theorem called_cons {n : Nat} {name : Identifier} (inner : ∀ m < n, ∀ {parts result : List Lexeme},
      Pass turn parts result → (Called m name result ↔ Called m name parts))
    {part : Lexeme} {parts result : List Lexeme} (pass : Pass turn parts result) :
    Called n name (part :: result) ↔ Called n name (part :: parts) := by
  cases n with
  | zero => rw [called_zero, called_zero, opens_iff punctuation pass]
  | succ n =>
    have point := punctuation '.' (.inl rfl)
    rw [called_succ, called_succ]
    refine and_congr_right fun _ => ⟨?_, ?_⟩
    · rintro ⟨more, rfl, called⟩
      obtain ⟨rest, rfl, _, passed⟩ := pass_to point.puts pass
      exact ⟨rest, rfl, (inner n (Nat.lt_succ_self n) passed).mp called⟩
    · rintro ⟨rest, rfl, called⟩
      obtain ⟨more, rfl, passed⟩ := pass_from (point.takes _) pass
      exact ⟨more, rfl, (inner n (Nat.lt_succ_self n) passed).mpr called⟩

variable (apart : ∀ {parts new behind : List Lexeme}, turn parts new behind → ∀ (n : Nat) (name : Identifier)
  (result : List Lexeme), ¬ Called n name parts ∧ ¬ Called n name (new ++ result))

include apart

theorem called_pass (n : Nat) {name : Identifier} {parts result : List Lexeme} (pass : Pass turn parts result) :
    Called n name result ↔ Called n name parts := by
  induction n using Nat.strongRecOn generalizing parts result with
  | ind n ih =>
    cases pass with
    | nil => exact Iff.rfl
    | kept _ pass => exact called_cons punctuation (fun m less => ih m less) pass
    | @turned _ _ _ result turned _ => exact iff_of_false (apart turned n name result).2 (apart turned n name result).1

theorem callOf_cons {height : Identifier → Nat} (part : Lexeme) {parts result : List Lexeme} (pass : Pass turn parts result) :
    CallOf height (part :: result) ↔ CallOf height (part :: parts) :=
  exists_congr fun _ => called_cons punctuation (fun m _ => called_pass punctuation apart m) pass

end

theorem context_apart {parts new behind : List Lexeme} (turned : ContextTurn parts new behind) (n : Nat) (name : Identifier)
    (result : List Lexeme) : ¬ Called n name parts ∧ ¬ Called n name (new ++ result) := by
  obtain ⟨_⟩ := turned
  refine ⟨?_, called_mark _ _⟩
  rw [prefixed, prefixed]
  cases n with
  | zero =>
    rw [called_zero]
    rintro ⟨_, inner, opens⟩
    exact opens_point opens rfl
  | succ n => simp [called_succ, contextName, mathName]

theorem context_leaves_calls {height : Identifier → Nat} {parts result : List Lexeme} (pass : Pass ContextTurn parts result) :
    Somewhere (CallOf height) result ↔ Somewhere (CallOf height) parts := by
  refine somewhere_pass pass Iff.rfl (fun _ passed => callOf_cons context_punctuation context_apart _ passed) ?_
  intro parts new behind result turned passed ih
  have notHere : ¬ CallOf height parts := fun ⟨name, called⟩ => (context_apart turned _ name []).1 called
  obtain ⟨_⟩ := turned
  rw [prefixed, prefixed] at *
  rw [somewhere_rest notHere, somewhere_rest (callOf_mark _ _), List.cons_append, somewhere_rest (callOf_mark _ _),
    List.singleton_append, somewhere_cons, somewhere_cons, ih, callOf_cons context_punctuation context_apart _ passed]

theorem literal_leaves_calls {height : Identifier → Nat} {c d : Char} {old new : List Char} (oldMark : c = '$' ∨ c = '=' ∨ c = '!')
    (newMark : d = '$' ∨ d = '=' ∨ d = '!') {parts result : List Lexeme} (pass : Pass (LiteralTurn (c :: old) (d :: new)) parts result) :
    Somewhere (CallOf height) result ↔ Somewhere (CallOf height) parts := by
  have apart : ∀ {parts added behind : List Lexeme}, LiteralTurn (c :: old) (d :: new) parts added behind →
      ∀ (n : Nat) (name : Identifier) (result : List Lexeme), ¬ Called n name parts ∧ ¬ Called n name (added ++ result) := by
    rintro parts added behind ⟨_⟩ n name result
    exact ⟨called_mark _ _, called_mark _ _⟩
  refine somewhere_pass pass Iff.rfl
    (fun _ passed => callOf_cons (literal_punctuation oldMark newMark) apart _ passed) ?_
  rintro parts added behind result ⟨_⟩ _ ih
  rw [somewhere_marks callOf_mark, somewhere_marks callOf_mark, ih]

/-! ### Calls behind the pass over constants -/

theorem constantPrefixes_one {name : Identifier} {new : List Char} (known : (name.text, new) ∈ constants) :
    constantPrefixes name = 1 :=
  if_pos (List.any_eq_true.mpr ⟨(name.text, new), known, by simp⟩)

theorem constantPrefixes_zero {name : Identifier} (unknown : ∀ new, (name.text, new) ∉ constants) : constantPrefixes name = 0 := by
  refine if_neg fun found => ?_
  obtain ⟨⟨old, new⟩, known, same⟩ := List.any_eq_true.mp found
  exact unknown new (beq_iff_eq.mp same ▸ known)

theorem constant_identifier {old new : List Char} (known : (old, new) ∈ constants) :
    ∃ before after : Identifier, before.text = old ∧ after.text = new := by
  simp only [constants, List.mem_cons, List.not_mem_nil, or_false, Prod.mk.injEq] at known
  rcases known with ⟨rfl, rfl⟩ | ⟨rfl, rfl⟩
  · exact ⟨⟨'P', ['I'], by decide, List.all_eq_true.mp (by decide)⟩, ⟨'p', ['i'], by decide, List.all_eq_true.mp (by decide)⟩, rfl, rfl⟩
  · exact ⟨⟨'E', [], by decide, List.all_eq_true.mp (by decide)⟩, ⟨'e', [], by decide, List.all_eq_true.mp (by decide)⟩, rfl, rfl⟩

theorem turns_constant {parts : List Lexeme} : Turns ConstantTurn parts ↔
    ∃ old new rest, (old, new) ∈ constants ∧ parts = prefixed mathName 1 (.word old :: rest) := by
  constructor
  · rintro ⟨_, _, ⟨known⟩⟩
    exact ⟨_, _, _, known, rfl⟩
  · rintro ⟨_, _, _, known, rfl⟩
    exact ⟨_, _, .constant known⟩

theorem constant_word {name : List Char} {parts more : List Lexeme} (pass : Pass ConstantTurn parts (.word name :: more)) :
    (∃ rest, parts = .word name :: rest ∧ ¬ Turns ConstantTurn parts ∧ Pass ConstantTurn rest more) ∨
      ∃ old rest, (old, name) ∈ constants ∧ parts = prefixed mathName 1 (.word old :: rest) ∧ Pass ConstantTurn rest more := by
  generalize whole : Lexeme.word name :: more = result at pass
  cases pass with
  | nil => cases whole
  | kept misses passed =>
    cases whole
    exact .inl ⟨_, rfl, misses, passed⟩
  | turned turned passed =>
    obtain ⟨known⟩ := turned
    injection whole with same rest
    injection same with same
    subst same rest
    exact .inr ⟨_, _, known, rfl, passed⟩

theorem constant_to_math {parts more : List Lexeme} (pass : Pass ConstantTurn parts (prefixed mathName 1 more)) :
    ∃ rest, parts = prefixed mathName 1 rest ∧ ¬ Turns ConstantTurn parts ∧ Pass ConstantTurn rest more := by
  obtain ⟨rest, rfl, misses, afterName⟩ | ⟨_, _, known, _⟩ := constant_word pass
  · obtain ⟨rest, rfl, _, afterPoint⟩ := pass_to (constant_punctuation '.' (.inl rfl)).puts afterName
    exact ⟨rest, rfl, misses, afterPoint⟩
  · exact absurd rfl (constant_ne known mathName (by simp)).2

theorem constant_from_math {rest result : List Lexeme} (misses : ¬ Turns ConstantTurn (prefixed mathName 1 rest))
    (pass : Pass ConstantTurn (prefixed mathName 1 rest) result) :
    ∃ more, result = prefixed mathName 1 more ∧ Pass ConstantTurn rest more := by
  obtain ⟨more, rfl, afterName⟩ := pass_from misses pass
  obtain ⟨more, rfl, afterPoint⟩ := pass_from ((constant_punctuation '.' (.inl rfl)).takes _) afterName
  exact ⟨more, rfl, afterPoint⟩

theorem constant_taken {old new : List Char} (known : (old, new) ∈ constants) {rest result : List Lexeme}
    (pass : Pass ConstantTurn (prefixed mathName 1 (.word old :: rest)) result) :
    ∃ new more, (old, new) ∈ constants ∧ result = .word new :: more ∧ Pass ConstantTurn rest more := by
  generalize whole : prefixed mathName 1 (.word old :: rest) = parts at pass
  cases pass with
  | nil => cases whole
  | kept misses _ => exact absurd ⟨_, _, whole ▸ ConstantTurn.constant known⟩ misses
  | turned turned passed =>
    obtain ⟨again⟩ := turned
    cases whole
    exact ⟨_, _, again, rfl, passed⟩

/-- The pass over constants takes a prefix from the calls of constants and leaves the others. -/
theorem constant_calls {parts result : List Lexeme} (pass : Pass ConstantTurn parts result) :
    CallOf (fun _ => 1) result ↔ CallOf (fun name => constantPrefixes name + 1) parts := by
  constructor
  · rintro ⟨name, rest, inner, rfl, opens⟩
    obtain ⟨before, rfl, misses, afterPoint⟩ := constant_to_math pass
    obtain ⟨behind, rfl, _, afterName⟩ | ⟨old, behind, known, rfl, afterName⟩ := constant_word afterPoint
    · obtain ⟨inner, opens⟩ := opens_of_pass constant_punctuation opens afterName
      have unknown : ∀ new, (name.text, new) ∉ constants := fun new known => misses ⟨_, _, .constant known⟩
      exact ⟨name, behind, inner, by simp only [constantPrefixes_zero unknown], opens⟩
    · obtain ⟨inner, opens⟩ := opens_of_pass constant_punctuation opens afterName
      obtain ⟨old, _, rfl, _⟩ := constant_identifier known
      exact ⟨old, behind, inner, by simp only [constantPrefixes_one known]; rfl, opens⟩
  · rintro ⟨name, rest, inner, rfl, opens⟩
    by_cases known : ∃ new, (name.text, new) ∈ constants
    · obtain ⟨new, known⟩ := known
      simp only [constantPrefixes_one known] at pass
      have misses : ¬ Turns ConstantTurn (prefixed mathName 2 (.word name.text :: rest)) := by
        rw [turns_constant]
        rintro ⟨old, _, _, again, same⟩
        cases same
        exact (constant_ne again mathName (by simp)).1 rfl
      obtain ⟨more, rfl, afterPoint⟩ := constant_from_math misses pass
      obtain ⟨new, more, known, rfl, afterName⟩ := constant_taken known afterPoint
      obtain ⟨inner, opens⟩ := opens_pass constant_punctuation opens afterName
      obtain ⟨_, after, _, rfl⟩ := constant_identifier known
      exact ⟨after, more, inner, rfl, opens⟩
    · have unknown : ∀ new, (name.text, new) ∉ constants := fun new found => known ⟨new, found⟩
      simp only [constantPrefixes_zero unknown] at pass
      have misses : ¬ Turns ConstantTurn (prefixed mathName 1 (.word name.text :: rest)) := by
        rw [turns_constant]
        rintro ⟨old, new, _, again, same⟩
        injection same with _ same
        injection same with _ same
        injection same with same
        injection same with same
        exact unknown new (same ▸ again)
      obtain ⟨more, rfl, afterPoint⟩ := constant_from_math misses pass
      have notTurned : ¬ Turns ConstantTurn (.word name.text :: rest) := by
        rw [turns_constant]
        rintro ⟨old, new, _, _, same⟩
        injection same with _ same
        exact opens_point opens same
      obtain ⟨more, rfl, afterName⟩ := pass_from notTurned afterPoint
      obtain ⟨inner, opens⟩ := opens_pass constant_punctuation opens afterName
      exact ⟨name, more, inner, rfl, opens⟩

theorem constant_left_calls {parts result : List Lexeme} (pass : Pass ConstantTurn parts result) :
    Somewhere (CallOf fun _ => 2) result ↔ Somewhere (CallOf fun name => constantPrefixes name + 2) parts := by
  have point := constant_punctuation '.' (.inl rfl)
  refine somewhere_pass pass ?_ (fun {part rest result} _ passed => ?_) ?_
  · exact iff_of_false (fun ⟨_, called⟩ => called_nil called) (fun ⟨_, called⟩ => called_nil called)
  · rw [callOf_succ (fun _ => 1), callOf_succ fun name => constantPrefixes name + 1]
    refine and_congr_right fun _ => ⟨?_, ?_⟩
    · rintro ⟨more, rfl, called⟩
      obtain ⟨behind, rfl, _, afterPoint⟩ := pass_to point.puts passed
      exact ⟨behind, rfl, (constant_calls afterPoint).mp called⟩
    · rintro ⟨behind, rfl, called⟩
      obtain ⟨more, rfl, afterPoint⟩ := pass_from (point.takes _) passed
      exact ⟨more, rfl, (constant_calls afterPoint).mpr called⟩
  · rintro parts new behind result ⟨known⟩ _ ih
    obtain ⟨oldOther, newOther⟩ := constant_ne known mathName (by simp)
    rw [List.singleton_append, somewhere_rest (callOf_word newOther _), ih, prefixed, prefixed, somewhere_rest ?_,
      somewhere_rest (callOf_mark _ _), somewhere_rest (callOf_word oldOther _)]
    rw [callOf_succ fun name => constantPrefixes name + 1]
    rintro ⟨_, more, same, called⟩
    cases same
    exact callOf_word oldOther _ called

/-- The pass over calls takes one prefix from them. -/
theorem call_calls {parts result : List Lexeme} (pass : Pass CallTurn parts result) :
    CallOf (fun _ => 0) result ↔ CallOf (fun _ => 0) parts ∨ CallOf (fun _ => 1) parts := by
  cases pass with
  | nil => exact (or_iff_left fun ⟨_, called⟩ => called_nil called).symm
  | @kept part rest result misses passed =>
    have notTurned : ¬ CallOf (fun _ => 1) (part :: rest) :=
      fun called => misses (turns_call.mpr called)
    rw [or_iff_left notTurned]
    refine exists_congr fun name => ?_
    rw [called_zero, called_zero, opens_iff call_punctuation passed]
  | turned turned _ =>
    have called := turns_call.mp ⟨_, _, turned⟩
    obtain ⟨_⟩ := turned
    exact iff_of_true ⟨_, _, _, rfl, .here⟩ (.inr called)

theorem call_left_calls {parts result : List Lexeme} (pass : Pass CallTurn parts result) :
    Somewhere (CallOf fun _ => 1) result ↔ Somewhere (CallOf fun _ => 2) parts := by
  have point := call_punctuation '.' (.inl rfl)
  refine somewhere_pass pass ?_ (fun {part rest result} misses passed => ?_) ?_
  · exact iff_of_false (fun ⟨_, called⟩ => called_nil called) (fun ⟨_, called⟩ => called_nil called)
  · rw [turns_call, callOf_succ (fun _ => 0)] at misses
    rw [callOf_succ (fun _ => 0), callOf_succ (fun _ => 1)]
    refine and_congr_right fun math => ⟨?_, ?_⟩
    · rintro ⟨more, rfl, called⟩
      obtain ⟨behind, rfl, _, afterPoint⟩ := pass_to point.puts passed
      rcases (call_calls afterPoint).mp called with plain | qualified
      · exact absurd ⟨math, behind, rfl, plain⟩ misses
      · exact ⟨behind, rfl, qualified⟩
    · rintro ⟨behind, rfl, called⟩
      obtain ⟨more, rfl, afterPoint⟩ := pass_from (point.takes _) passed
      exact ⟨more, rfl, (call_calls afterPoint).mpr (.inr called)⟩
  · rintro parts new behind result ⟨opens⟩ _ ih
    rename_i name rest _
    have notHere : ¬ CallOf (fun _ => 2) (.word mathName :: .mark '.' :: .word name.text :: rest) := by
      rw [callOf_succ (fun _ => 1)]
      rintro ⟨_, more, same, called⟩
      cases same
      exact callOf_opens (fun _ => 0) opens called
    rw [List.cons_append, List.singleton_append, somewhere_rest (callOf_opens (fun _ => 0) .here),
      somewhere_rest (callOf_mark _ _), ih, prefixed, prefixed, somewhere_rest notHere, somewhere_rest (callOf_mark _ _),
      somewhere_rest (callOf_opens (fun _ => 1) opens), somewhere_opens (fun c rest _ => callOf_mark c rest) opens]

/-! ### Constants behind the passes -/

theorem constant_mark (c : Char) (rest : List Lexeme) : ¬ Turns ConstantTurn (.mark c :: rest) := by
  rintro ⟨_, _, ⟨⟩⟩

theorem constant_other {run : List Char} (other : run ≠ mathName) (rest : List Lexeme) :
    ¬ Turns ConstantTurn (.word run :: rest) := by
  rw [turns_constant]
  rintro ⟨_, _, _, _, same⟩
  injection same with same
  injection same with same
  exact other same

theorem constant_none {parts result : List Lexeme} (pass : Pass ConstantTurn parts result) :
    ¬ Somewhere (Turns ConstantTurn) result := by
  induction pass with
  | nil =>
    rw [somewhere_nil]
    rintro ⟨_, _, ⟨⟩⟩
  | @kept part rest result misses passed ih =>
    rw [somewhere_cons, or_iff_left ih, turns_constant]
    rintro ⟨old, new, more, known, same⟩
    injection same with here same
    subst here same
    obtain ⟨behind, rfl, _, afterPoint⟩ := pass_to (constant_punctuation '.' (.inl rfl)).puts passed
    obtain ⟨_, rfl, _, _⟩ | ⟨_, _, again, _⟩ := constant_word afterPoint
    · exact misses ⟨_, _, .constant known⟩
    · exact constant_once again known
  | turned turned _ ih =>
    obtain ⟨known⟩ := turned
    rw [List.singleton_append, somewhere_rest (constant_other (constant_ne known mathName (by simp)).2 _)]
    exact ih

theorem call_no_constant {parts result : List Lexeme} (pass : Pass CallTurn parts result)
    (none : ¬ Somewhere (Turns ConstantTurn) parts) : ¬ Somewhere (Turns ConstantTurn) result := by
  induction pass with
  | nil => exact none
  | @kept part rest result misses passed ih =>
    rw [somewhere_cons, not_or] at none
    rw [somewhere_cons, or_iff_left (ih none.2), turns_constant]
    rintro ⟨old, new, more, known, same⟩
    injection same with here same
    subst here same
    obtain ⟨behind, rfl, _, afterPoint⟩ := pass_to (call_punctuation '.' (.inl rfl)).puts passed
    generalize whole : prefixed mathName 0 (.word old :: more) = after at afterPoint
    cases afterPoint with
    | nil => cases whole
    | kept _ _ =>
      cases whole
      exact none.1 ⟨_, _, .constant known⟩
    | turned turned _ =>
      obtain ⟨_⟩ := turned
      cases whole
      exact none.2 (somewhere_cons.mpr (.inr (somewhere_here ⟨_, _, .constant known⟩)))
  | turned turned _ ih =>
    obtain ⟨opens⟩ := turned
    have inner := mt (somewhere_opens (fun c rest _ => constant_mark c rest) opens).mpr fun found =>
      none (somewhere_cons.mpr (.inr (somewhere_cons.mpr (.inr (somewhere_cons.mpr (.inr found))))))
    rw [List.cons_append, List.singleton_append, somewhere_rest, somewhere_rest (constant_mark _ _)]
    · exact ih inner
    · rw [turns_constant]
      rintro ⟨_, _, _, _, same⟩
      injection same with _ same
      injection same with point
      injection point with point
      exact absurd point (by decide)

end ProceduralScene.Spelling
