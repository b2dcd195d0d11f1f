import ProceduralScene.Proofs.Readers
import ProceduralScene.Proofs.WordCounts

/-!
Evaluation comes to an end. The arguments of calls are evaluated like whole texts, and each of them has a word less that
could be a name than the text it is cut from; so no evaluation nests deeper than its text has such words, and the bounds
that the evaluator works with are never reached. The length of a text bounds nothing here: conditionals make texts longer,
and a conditional or a result may come to stand behind a name as its arguments.
-/

set_option autoImplicit false

namespace ProceduralScene.Expression

/-! ### One level of an evaluation -/

/-- The value of a text whose arguments are evaluated by `nested`. -/
def evaluateWith (setting : Setting) (nested : List Char → Reduction Value) (text : List Char) : Reduction Value := do
  let text := dropAssignment text
  let text ← substituteVariables setting (String.ofList text) none 0 text
  let text := convertConditionals setting.maxPasses text
  let text ← inlineFunctions setting nested setting.functions text
  let text ← liftResult (inlineConstants setting.nodeText setting.constants text)
  let text ← liftResult (inlineBareVariables (longestFirst setting.symbols) text)
  let slots := (← get).slots
  match slots.get? (String.ofList (Text.trim text)) with
  | some value => return value
  | none =>
    let lookup (name : String) := (slots.get? name).or (setting.symbols.get? name)
    liftResult (evaluateReduced ⟨lookup, setting.nodeText⟩ text)

/-- The value of a text whose arguments nest at most `depth` deep; the ones below are left to `bottom`. -/
def evaluateNesting (setting : Setting) (bottom : List Char → Reduction Value) : Nat → List Char → Reduction Value
  | 0 => evaluateWith setting bottom
  | depth + 1 => evaluateWith setting (evaluateNesting setting bottom depth)

/-- The evaluation with the bound on its depth that belongs to its text. -/
def evaluateWhole (setting : Setting) (text : List Char) : Reduction Value :=
  evaluateText setting (nestingBound text) text

theorem evaluateText_nesting (setting : Setting) (depth : Nat) :
    evaluateText setting (depth + 1) = evaluateNesting setting (fun _ => throw .tooLarge) depth := by
  induction depth with
  | zero => rfl
  | succ depth ih =>
    rw [evaluateNesting, ← ih]
    rfl

/-! ### Arguments alone are evaluated -/

theorem bind_yields {σ α β : Type} {action : ExceptT Failure (StateM σ) α} {post : α → Prop}
    (yields : ∀ s, Yields action s fun value _ => post value) {next next' : α → ExceptT Failure (StateM σ) β}
    (agree : ∀ value, post value → next value = next' value) : action >>= next = action >>= next' := by
  funext s
  show (action >>= next).run.run s = (action >>= next').run.run s
  simp only [ExceptT.run_bind, StateT.run_bind]
  rcases run : action.run.run s with ⟨_ | value, after⟩
  · rfl
  · have same : next value = next' value := agree value (yields_ok (yields s) run)
    exact congrArg (fun action : ExceptT Failure (StateM σ) β => action.run.run after) same

section

variable {setting : Setting} {first second : List Char → Reduction Value} {bound : Nat}
  (agree : ∀ arg, wordCount arg < bound → first arg = second arg)

include agree

theorem argumentValues_agree {args : List (List Char)} (less : ∀ arg ∈ args, wordCount arg < bound) :
    argumentValues first args = argumentValues second args := by
  induction args with
  | nil => rfl
  | cons arg args ih =>
    rw [argumentValues, argumentValues, argumentValue, argumentValue, agree arg (less arg List.mem_cons_self),
      ih fun other member => less other (List.mem_cons_of_mem arg member)]

theorem inlineCalls_agree {name : String} (names : NamesWord name.toList) (function : Function) (fuel : Nat) :
    ∀ {quote previous : Option Char} {text : List Char}, wordsFrom previous text ≤ bound →
      inlineCalls setting first name function fuel quote previous text =
        inlineCalls setting second name function fuel quote previous text := by
  induction fuel with
  | zero => exact fun _ => rfl
  | succ fuel ih =>
    intro quote previous text small
    rw [inlineCalls, inlineCalls]
    cases found : findCall? name.toList previous text with
    | none => rfl
    | some site =>
      have here := wordsFrom_site found names
      dsimp only
      split
      · rw [ih ((wordsFrom_le _ _).trans (by omega))]
      · split
        · rfl
        · rename_i inner rest cut
          have parts := wordsFrom_cut cut none
          change wordCount site.rest = wordCount inner + wordCount rest at parts
          have behind : ∀ quote previous, inlineCalls setting first name function fuel quote previous rest =
              inlineCalls setting second name function fuel quote previous rest :=
            fun quote previous => ih ((wordsFrom_le _ _).trans (by omega))
          rw [argumentValues_agree agree fun arg member => (wordCount_arg_lt found names cut member).trans_le small]
          simp only [behind]

theorem inlineFunctions_agree {functions : List (String × Function)}
    (names : ∀ entry ∈ functions, NamesWord entry.1.toList) : ∀ {text : List Char}, wordCount text ≤ bound →
      inlineFunctions setting first functions text = inlineFunctions setting second functions text := by
  induction functions with
  | nil => exact fun _ => rfl
  | cons entry functions ih =>
    intro text small
    have named := names entry List.mem_cons_self
    rw [inlineFunctions, inlineFunctions, inlineCalls_agree agree named entry.2 (text.length + 1) small]
    refine bind_yields (fun work => yields_inlineCalls named entry.2 (text.length + 1) work) fun written less => ?_
    exact ih (fun other member => names other (List.mem_cons_of_mem entry member)) (less.trans small)

end

section

variable {setting : Setting} (names : ∀ entry ∈ setting.functions, NamesWord entry.1.toList)

include names

/-- What evaluates the arguments matters on texts with fewer words alone. -/
theorem evaluateWith_agree {first second : List Char → Reduction Value} {text : List Char}
    (agree : ∀ arg, wordCount arg < wordCount text → first arg = second arg) :
    evaluateWith setting first text = evaluateWith setting second text := by
  unfold evaluateWith
  refine bind_yields (fun work => yields_substituteVariables setting _ (dropAssignment text) work) fun written less => ?_
  have small : wordCount (convertConditionals setting.maxPasses written) ≤ wordCount text :=
    (wordCount_conditionals setting.maxPasses).trans ((less none).trans (wordCount_dropAssignment text))
  dsimp only
  rw [inlineFunctions_agree agree names small]

theorem evaluateNesting_agree (bottom bottom' : List Char → Reduction Value) (depth : Nat) : ∀ (depth' : Nat)
    {text : List Char}, wordCount text ≤ depth → wordCount text ≤ depth' →
      evaluateNesting setting bottom depth text = evaluateNesting setting bottom' depth' text := by
  induction depth with
  | zero =>
    intro depth' text few few'
    have none : ∀ arg, ¬ wordCount arg < wordCount text := fun arg => by omega
    cases depth' with
    | zero => exact evaluateWith_agree names fun arg less => absurd less (none arg)
    | succ depth' => exact evaluateWith_agree names fun arg less => absurd less (none arg)
  | succ depth ih =>
    intro depth' text few few'
    cases depth' with
    | zero => exact evaluateWith_agree names fun arg less => absurd less (by omega)
    | succ depth' => exact evaluateWith_agree names fun arg less => ih depth' (by omega) (by omega)

theorem evaluateNesting_whole (bottom : List Char → Reduction Value) {depth : Nat} {text : List Char}
    (few : wordCount text ≤ depth) : evaluateNesting setting bottom depth text = evaluateWhole setting text := by
  rw [evaluateWhole, nestingBound, evaluateText_nesting]
  exact evaluateNesting_agree names _ _ _ _ few (wordCount_le_length text)

end

/-! ### The recursion -/

section

variable {setting : Setting} (names : ∀ entry ∈ setting.functions, NamesWord entry.1.toList)

include names

/-- A text is evaluated by evaluating its arguments as whole texts. -/
theorem evaluateWhole_eq (text : List Char) : evaluateWhole setting text = evaluateWith setting (evaluateWhole setting) text := by
  let bottom : List Char → Reduction Value := fun _ => throw .tooLarge
  calc evaluateWhole setting text
      = evaluateNesting setting bottom (wordCount text + 1) text := (evaluateNesting_whole names bottom (Nat.le_succ _)).symm
    _ = evaluateWith setting (evaluateNesting setting bottom (wordCount text)) text := rfl
    _ = evaluateWith setting (evaluateWhole setting) text :=
        evaluateWith_agree names fun _ less => evaluateNesting_whole names bottom less.le

/-- The recursion has no other solution. -/
theorem eq_evaluateWhole {evaluate : List Char → Reduction Value}
    (solves : ∀ text, evaluate text = evaluateWith setting evaluate text) (text : List Char) :
    evaluate text = evaluateWhole setting text := by
  have level : ∀ depth, evaluateNesting setting evaluate depth = evaluate := by
    intro depth
    induction depth with
    | zero => exact funext fun text => (solves text).symm
    | succ depth ih =>
      rw [evaluateNesting, ih]
      exact funext fun text => (solves text).symm
  rw [← evaluateNesting_whole names evaluate (Nat.le_refl _), level]

end

/-! ### Bounds that are never reached -/

theorem tokensFrom_bound (whole : String) (bound : Nat) : ∀ (other position : Nat) {text : List Char},
    (∀ c ∈ text, isAllowed c = true) → text.length ≤ bound → text.length ≤ other →
      tokensFrom whole position bound text = tokensFrom whole position other text := by
  induction bound with
  | zero =>
    intro other position text _ short _
    cases text with
    | nil => cases other <;> rfl
    | cons c text => cases short
  | succ bound ih =>
    intro other position text allowed short short'
    cases text with
    | nil => cases other <;> rfl
    | cons c text =>
      cases other with
      | zero => cases short'
      | succ other =>
        rw [tokensFrom, tokensFrom]
        · cases cut : cutToken? (c :: text) with
          | none => rfl
          | some parts =>
            obtain ⟨fewer, inside⟩ := tokensFrom_smaller short allowed cut
            obtain ⟨fewer', -⟩ := tokensFrom_smaller short' allowed cut
            dsimp only
            rw [ih other _ inside fewer fewer']
        · exact List.cons_ne_nil _ _
        · exact List.cons_ne_nil _ _

/-- How the evaluation of a text ends: the arguments that it evaluates on the way count less and less, and no bound that
the evaluator works with decides anything. -/
structure Terminates (setting : Setting) (text : List Char) : Prop where
  /-- Wherever a call stands, each of its arguments counts less than the text that it is cut from. -/
  cut : ∀ entry ∈ setting.functions, ∀ {previous : Option Char} {current : List Char} {site : CallSite}
    {inner rest arg : List Char}, findCall? entry.1.toList previous current = some site →
      cutAtClosing site.rest = some (inner, rest) → arg ∈ splitArgs inner → wordCount arg < wordsFrom previous current
  /-- Only texts that count less than the whole one are evaluated on the way. -/
  arguments : ∀ {first second : List Char → Reduction Value},
    (∀ arg, wordCount arg < wordCount text → first arg = second arg) →
      evaluateWith setting first text = evaluateWith setting second text
  /-- Arguments nest at most as deep as the text has words that could be names: what would stand below is not asked. -/
  depth : ∀ (bottom : List Char → Reduction Value) {depth : Nat}, wordCount text ≤ depth →
    evaluateNesting setting bottom depth text = evaluateWhole setting text
  /-- The text is evaluated by evaluating arguments as whole texts, -/
  recursion : evaluateWhole setting text = evaluateWith setting (evaluateWhole setting) text
  /-- and nothing else evaluates it so. -/
  unique : ∀ {evaluate : List Char → Reduction Value}, (∀ text, evaluate text = evaluateWith setting evaluate text) →
    evaluate text = evaluateWhole setting text
  /-- Neither do the scans for conditionals and calls, the tokens and the reader of the reduced text end early. -/
  conditionals : ∀ {fuel : Nat} {quote previous : Option Char} {text : List Char}, text.length < fuel →
    convertPass fuel quote previous text = scanConditionals quote previous text
  calls : ∀ {evaluate : List Char → Reduction Value} {name : String} {function : Function} {fuel : Nat}
    {quote previous : Option Char} {text : List Char}, text.length < fuel →
    inlineCalls setting evaluate name function fuel quote previous text =
      scanCalls setting evaluate name function quote previous text
  tokens : ∀ {whole : String} {position fuel : Nat} {text : List Char}, (∀ c ∈ text, isAllowed c = true) →
    text.length ≤ fuel → tokensFrom whole position fuel text = tokensFrom whole position text.length text
  reading : ∀ {env : Environment} {fuel : Nat} {tokens : List Token}, readingFuel tokens.length ≤ fuel →
    readTernary env fuel tokens = Read.ternary env tokens

/-- Evaluation terminates on every text, whatever the variables, the constants, the number of passes and the functions are. -/
theorem evaluation_terminates (setting : Setting) (names : ∀ entry ∈ setting.functions, NamesWord entry.1.toList)
    (text : List Char) : Terminates setting text where
  cut entry member _ _ _ _ _ _ found cut inside := wordCount_arg_lt found (names entry member) cut inside
  arguments agree := evaluateWith_agree names agree
  depth bottom _ few := evaluateNesting_whole names bottom few
  recursion := evaluateWhole_eq names text
  unique solves := eq_evaluateWhole names solves text
  conditionals less := convertPass_bound _ _ _ less (Nat.lt_succ_self _)
  calls less := inlineCalls_bound _ _ _ less (Nat.lt_succ_self _)
  tokens allowed short := tokensFrom_bound _ _ _ _ allowed short (Nat.le_refl _)
  reading enough := Read.of_ternary _ (by unfold readingFuel at enough; omega)

namespace Sample

/-- Two functions that count their arguments, and a list, which has no literal. -/
def counting : Setting :=
  ⟨[("f", .pure fun args => .ok (.int args.length)), ("g", .pure fun args => .ok (.int args.length))], [], 5,
    [("l", .list [])], none, fun _ => .error .wrongKind⟩

def written (text : String) : List Char := convertConditionals counting.maxPasses text.toList

end Sample

/-- No call of `f` stands in the text; the conditional makes it longer and becomes the argument of `f`, with a call of `g`
in it, so that two of its three words nest. A name before parentheses comes from a value as well. -/
theorem evaluation_terminates_spliced :
    (∀ entry ∈ Sample.counting.functions, NamesWord entry.1.toList) ∧
    (findCall? ['f'] none "f if(1, g(2), 3)".toList).isNone = true ∧
    (findCall? ['f'] none (Sample.written "f if(1, g(2), 3)")).isSome = true ∧
    "f if(1, g(2), 3)".length < (Sample.written "f if(1, g(2), 3)").length ∧
    wordCount "f if(1, g(2), 3)".toList = 3 ∧
    ((substituteVariables Sample.counting "" none 0 "$l (1)".toList).run.run ⟨[], [], .new .none 100⟩).1.toOption =
      some "__slot0 (1)".toList ∧
    Terminates Sample.counting "f if(1, g(2), 3)".toList := by
  have names : ∀ entry ∈ Sample.counting.functions, NamesWord entry.1.toList := by
    simp only [Sample.counting, List.mem_cons, List.not_mem_nil, or_false, forall_eq_or_imp, forall_eq]
    exact ⟨⟨'f', [], rfl, by decide⟩, ⟨'g', [], rfl, by decide⟩⟩
  exact ⟨names, by decide, by decide, by decide, by decide, by decide, evaluation_terminates Sample.counting names _⟩

end ProceduralScene.Expression
