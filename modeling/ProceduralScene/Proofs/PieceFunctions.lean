import ProceduralScene.Proofs.Oblivious
import ProceduralScene.Proofs.PieceCalls

/-!
Conditionals and calls of functions on pieces. A conditional with three arguments becomes a ternary of them; the call of
a function whose result depends on its arguments alone becomes what stands for the result.
-/

set_option autoImplicit false

namespace ProceduralScene.Expression

open Pieces

/-! ### Conditionals -/

/-- The ternary of three parts, each between parentheses. -/
def ternaryPieces (condition whenTrue whenFalse rest : Pieces) : Pieces :=
  .brackets true (.brackets true condition (.mark '?' (.brackets true whenTrue (.mark ':' (.brackets true whenFalse .nil))))) rest

def conditionalResult (inside : Pieces) : Option (Option (Pieces → Pieces)) :=
  match inside.arguments with
  | [condition, whenTrue, whenFalse] => some (some (ternaryPieces condition whenTrue whenFalse))
  | _ => none

theorem conditionalResult_spec {inside : Pieces} {stands : Option (Pieces → Pieces)}
    (known : conditionalResult inside = some stands) : ∃ condition whenTrue whenFalse,
      inside.arguments = [condition, whenTrue, whenFalse] ∧ stands = some (ternaryPieces condition whenTrue whenFalse) := by
  unfold conditionalResult at known
  split at known
  · rename_i condition whenTrue whenFalse three
    cases known
    exact ⟨condition, whenTrue, whenFalse, three, rfl⟩
  · cases known

/-- One pass that converts conditionals, as a scan. -/
def passConditionals : TextScan := fun quote previous text => pure (scanConditionals quote previous text).2

theorem passConditionals_push {quote previous : Option Char} {head rest text : List Char} {quote' previous' : Option Char}
    (same : scanConditionals quote previous text = pushPass head (scanConditionals quote' previous' rest)) :
    passConditionals quote previous text = pushText head (passConditionals quote' previous' rest) := by
  simp [passConditionals, same, pushPass, pushText]

theorem copies_passConditionals : Copies conditionalName passConditionals pushText where
  nothing := pushText_nil
  append := pushText_append
  other none := passConditionals_push (copies_conditionals.other none)
  blocked nonempty matched blocks := passConditionals_push (copies_conditionals.blocked nonempty matched blocks)

section

variable {condition whenTrue whenFalse : Pieces}

theorem operand_ternary (first : condition.orderly false .plain .none .outside = true)
    (second : whenTrue.orderly false .plain .none .outside = true) (third : whenFalse.orderly false .plain .none .outside = true) :
    Operand (ternaryPieces condition whenTrue whenFalse) := by
  have sign : ∀ c, c = '?' ∨ c = ':' → isMark c = true ∧ c ≠ ',' ∧ c ≠ '$' ∧ Edge.behind (some c) = .plain ∧
      Text.isSpace c = false := by
    rintro c (rfl | rfl) <;> decide
  refine ⟨solid_brackets true _, fun {edge callee found rest} _ _ fits => orderly_brackets.mpr ⟨?_, ?_⟩⟩
  · obtain ⟨mark, comma, dollar, plain, solid⟩ := sign '?' (.inl rfl)
    obtain ⟨mark', comma', dollar', plain', solid'⟩ := sign ':' (.inr rfl)
    refine orderly_brackets.mpr ⟨first, orderly_mark.mpr ⟨mark, fun same => absurd same comma, fun same => absurd same dollar, ?_⟩⟩
    rw [plain, Callee.after_solid _ solid]
    refine orderly_brackets.mpr ⟨second, orderly_mark.mpr ⟨mark', fun same => absurd same comma', fun same => absurd same dollar', ?_⟩⟩
    rw [plain', Callee.after_solid _ solid']
    exact orderly_brackets.mpr ⟨third, complete_next⟩
  · exact orderly_weaken (fun named => named) (.inl rfl) (Callee.weaker_refl _) (.inr rfl) fits

theorem writes_ternary {slots : Bindings} {rest : Pieces} {first second third after : List Char}
    (writes : condition.Writes slots first) (writes' : whenTrue.Writes slots second) (writes'' : whenFalse.Writes slots third)
    (further : rest.Writes slots after) :
    (ternaryPieces condition whenTrue whenFalse rest).Writes slots (ternaryText first second third ++ after) := by
  have whole : Writes slots (ternaryPieces condition whenTrue whenFalse rest) _ :=
    .brackets (.brackets writes (.mark (.brackets writes' (.mark (.brackets writes'' .nil))))) further
  simpa [ternaryText, opening, closing] using whole

end

theorem isName_conditional : IsName conditionalName := ⟨by decide, List.all_eq_true.mp (by decide)⟩

theorem replaces_conditionals : ReplacesCalls conditionalName passConditionals conditionalResult where
  isName := isName_conditional
  free := by decide
  copies := copies_passConditionals
  operand {inside add} known fits := by
    obtain ⟨condition, whenTrue, whenFalse, three, same⟩ := conditionalResult_spec known
    cases same
    have passed := passed_arguments rfl fits
    rw [three] at passed
    exact operand_ternary (passed condition (by simp)).orderly (passed whenTrue (by simp)).orderly (passed whenFalse (by simp)).orderly
  call {inside stands} known fits {work within} numbered writes := by
    obtain ⟨condition, whenTrue, whenFalse, three, rfl⟩ := conditionalResult_spec known
    have texts := splitArgs_writes writes fits
    rw [three] at texts
    generalize split : splitArgs within = args at texts
    cases texts with
    | cons first texts =>
    cases texts with
    | cons second texts =>
    cases texts with
    | cons third texts =>
    cases texts with
    | nil =>
    rename_i first' second' third'
    refine ⟨pure (ternaryText first' second' third'), fun _ => some ')', ?_, ?_⟩
    · refine ⟨_, work, ⟨grows_refl _, numbered, fun grows further => ?_⟩, rfl⟩
      exact writes_ternary (writes_grows grows first) (writes_grows grows second) (writes_grows grows third) further
    · intro head behind previous nonempty matched free
      have open' : ¬ ((none : Option Char).isSome || head.head?.any isQuote || blocksCall previous) = true := by
        simpa using free
      have converts := scanConditionals_converts nonempty matched open' (cutAtClosing_writes writes fits behind) split
      simp [passConditionals, converts, pushText]
  skip {inside} none fits {slots within} writes {head behind previous} nonempty matched free := by
    have texts := (splitArgs_writes writes fits).length_eq
    refine passConditionals_push (scanConditionals_skips nonempty matched (by simpa using free)
      (cutAtClosing_writes writes fits behind) fun three => ?_)
    rw [← texts] at three
    obtain ⟨condition, whenTrue, whenFalse, same⟩ := List.length_eq_three.mp three
    rw [conditionalResult, same] at none
    cases none

/-! ### Functions -/

/-- The action fails, or it gives the value. -/
def Gives {α : Type} (action : Reduction α) (work : Workspace) : Option α → Prop
  | none => ∃ failure after, action.run.run work = (.error failure, after)
  | some result => ∃ after, Grows work.slots after.slots ∧ Numbered after.slots ∧ action.run.run work = (.ok result, after)

theorem gives_bind {α β : Type} {action : Reduction α} {next : α → Reduction β} {work : Workspace} {first : Option α}
    {second : α → Option β} (gives : Gives action work first) (further : ∀ value after, first = some value →
      Numbered after.slots → Grows work.slots after.slots → Gives (next value) after (second value)) :
    Gives (action >>= next) work (first.bind second) := by
  cases first with
  | none =>
    obtain ⟨failure, after, run⟩ := gives
    exact ⟨failure, after, run_bind_error run _⟩
  | some value =>
    obtain ⟨after, grows, numbered, run⟩ := gives
    have rest := further value after rfl numbered grows
    rw [Option.bind_some]
    cases same : second value with
    | none =>
      rw [same] at rest
      obtain ⟨failure, ended, run'⟩ := rest
      exact ⟨failure, ended, (run_bind_ok run _).trans run'⟩
    | some result =>
      rw [same] at rest
      obtain ⟨ended, grows', numbered', run'⟩ := rest
      exact ⟨ended, grows_trans grows grows', numbered', (run_bind_ok run _).trans run'⟩

theorem stands_bind {α : Type} {action : Reduction α} {next : α → Reduction (List Char)} {work : Workspace} {first : Option α}
    {second : α → Option (Pieces → Pieces)} (gives : Gives action work first) (further : ∀ value after, first = some value →
      Numbered after.slots → Stands (next value) after (second value)) :
    Stands (action >>= next) work (first.bind second) := by
  cases first with
  | none =>
    obtain ⟨failure, after, run⟩ := gives
    exact ⟨failure, after, run_bind_error run _⟩
  | some value =>
    obtain ⟨after, grows, numbered, run⟩ := gives
    have rest := further value after rfl numbered
    rw [Option.bind_some]
    cases same : second value with
    | none =>
      rw [same] at rest
      obtain ⟨failure, ended, run'⟩ := rest
      exact ⟨failure, ended, (run_bind_ok run _).trans run'⟩
    | some add =>
      rw [same] at rest
      obtain ⟨text, ended, written, run'⟩ := rest
      exact ⟨text, ended, ⟨grows_trans grows written.1, written.2⟩, (run_bind_ok run _).trans run'⟩

/-- What a call of a function counts as. -/
def Function.result (function : Function) (args : List Value) : Value :=
  match function.call 0 args with
  | .ok found => found
  | .error _ => .int 0

theorem gives_callFunction (setting : Setting) (name : String) {function : Function} (isPure : function.IsPure)
    (args : List Value) {work : Workspace} (numbered : Numbered work.slots) :
    Gives (callFunction setting name function args) work (some (function.result args)) := by
  unfold callFunction Function.result
  simp only [isPure _ 0]
  cases called : function.call 0 args with
  | ok found =>
    refine ⟨_, ?_, ?_, rfl⟩
    · exact grows_refl work.slots
    · exact numbered
  | error failure =>
    refine ⟨_, ?_, ?_, rfl⟩
    · exact grows_refl work.slots
    · exact numbered

/-- The values of texts that write orderly pieces. -/
def Evaluates (evaluate : List Char → Reduction Value) (value : Pieces → Option Value) : Prop :=
  ∀ {pieces : Pieces} {text : List Char} {work : Workspace}, pieces.orderly false .plain .none .empty = true →
    Numbered work.slots → pieces.Writes work.slots text → Gives (evaluate text) work (value pieces)

def argumentResult (value : Pieces → Option Value) : Pieces → Option Value
  | .literal _ content .nil => some (.text (String.ofList content))
  | argument => value argument

/-- What stands for the call of a function. -/
def callResult (value : Pieces → Option Value) (function : Function) (inside : Pieces) : Option (Option (Pieces → Pieces)) :=
  some ((inside.arguments.mapM (argumentResult value)).bind fun args => literalPieces (function.result args))

section

variable {evaluate : List Char → Reduction Value} {value : Pieces → Option Value} (evaluates : Evaluates evaluate value)

include evaluates

theorem gives_argumentValue {argument : Pieces} (passed : Passed false .empty argument) {work : Workspace} {raw : List Char}
    (numbered : Numbered work.slots) (writes : argument.Writes work.slots raw) :
    Gives (argumentValue evaluate raw) work (argumentResult value argument) := by
  unfold argumentValue
  split
  · rename_i quoted
    obtain ⟨quote, content, rfl, same⟩ := isQuoted_writes writes passed quoted
    rw [same]
    exact ⟨work, grows_refl _, numbered, rfl⟩
  · rename_i bare
    have other : argumentResult value argument = value argument := by
      unfold argumentResult
      split
      · exact absurd (isQuoted_literal writes (orderly_literal.mp passed.orderly).1) bare
      · rfl
    rw [other]
    exact evaluates passed.orderly numbered writes

theorem gives_argumentValues {arguments : List Pieces} (passed : ∀ argument ∈ arguments, Passed false .empty argument) :
    ∀ {raws : List (List Char)} {work : Workspace}, Numbered work.slots → List.Forall₂ (Writes work.slots) arguments raws →
      Gives (argumentValues evaluate raws) work (arguments.mapM (argumentResult value)) := by
  induction arguments with
  | nil =>
    intro raws work numbered writes
    cases writes
    exact ⟨work, grows_refl _, numbered, rfl⟩
  | cons argument arguments ih =>
    intro raws work numbered writes
    cases writes with
    | cons first others =>
    rw [argumentValues, List.mapM_cons]
    refine gives_bind (gives_argumentValue evaluates (passed argument List.mem_cons_self) numbered first)
      fun found after _ numbered' grows => ?_
    refine gives_bind (ih (fun other member => passed other (List.mem_cons_of_mem _ member)) numbered' ?_)
      fun founds ended _ numbered'' _ => ⟨ended, grows_refl _, numbered'', rfl⟩
    exact others.imp fun _ _ writes => writes_grows grows writes

theorem replaces_functions (setting : Setting) {name : String} (isName : IsName name.toList) (free : holdsSlot name.toList = false)
    (other : name.toList ≠ conditionalName) {function : Function} (isPure : function.IsPure) :
    ReplacesCalls name.toList (scanCalls setting evaluate name function) (callResult value function) where
  isName := isName
  free := free
  copies := copies_calls setting evaluate name function
  operand {inside add} known _ := by
    rw [callResult, Option.some.injEq] at known
    obtain ⟨args, -, stands⟩ := Option.bind_eq_some_iff.mp known
    exact operand_literal stands
  call {inside stands} known fits {work within} numbered writes := by
    cases known
    rw [Argument.ofCall, Callee.ofWord_other _ other] at fits
    refine ⟨argumentValues evaluate (splitArgs within) >>= fun args => callFunction setting name function args >>= literalOf,
      List.getLast?, ?_, ?_⟩
    · refine stands_bind (gives_argumentValues evaluates (passed_arguments rfl fits) numbered (splitArgs_writes writes fits))
        fun args after _ numbered' => ?_
      exact stands_bind (gives_callFunction setting name isPure args numbered')
        fun found ended same numbered'' => by cases same; exact stands_literalOf _ ended numbered''
    · intro head behind previous nonempty matched clear
      have open' : ¬ ((none : Option Char).isSome || head.head?.any isQuote || blocksCall previous) = true := by
        simpa using clear
      rw [scanCalls_call setting evaluate name function nonempty matched open' (cutAtClosing_writes writes fits behind)]
      simp only [bind_assoc]
  skip none := nomatch none

end

end ProceduralScene.Expression
