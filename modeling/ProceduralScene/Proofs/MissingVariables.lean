import ProceduralScene.Proofs.DollarMarks
import ProceduralScene.Proofs.Outcome
import ProceduralScene.Proofs.SpellingTurns

/-!
The records of missing variables. The substitution makes one for every occurrence of a name without a binding, in
order, and behind it no `$` stands outside literals any more; so no argument and no result is substituted again.
-/

set_option autoImplicit false

namespace ProceduralScene

/-- The records of missing variables, newest first. -/
def DiagnosticLog.missing (log : DiagnosticLog) : List Diagnostic := log.stream.filter (·.code == "X02")

theorem DiagnosticLog.missing_other (log : DiagnosticLog) {code : String} (other : code ≠ "X02") (text : String)
    (path : Option String) : (log.record code text path).missing = log.missing := by
  simp [missing, record, add, other]

namespace Expression

/-- No missing variable is recorded. -/
def SameMissing (before after : Workspace) : Prop := after.log.missing = before.log.missing

theorem steady_sameMissing : Steady SameMissing := ⟨fun _ => rfl, fun first second => second.trans first⟩

/-! ### Results -/

theorem unmarked_bare {text : List Char} (bare : ∀ c ∈ text, Json.isBare c = true) : Unmarked text := by
  intro c member
  obtain ⟨-, noDollar, -, -, mark⟩ := isBare_spec (bare c member)
  refine ⟨noDollar, ?_⟩
  cases wordy : Text.isWord c with
  | true => exact (quiet_word wordy).quote
  | false => exact (isMark_spec (mark wordy)).2.quote

theorem unmarked_signed (negative : Bool) {text : String} (bare : ∀ c ∈ text.toList, Json.isBare c = true) :
    Unmarked (signedLiteral negative text) := by
  have brackets : Unmarked ['('] ∧ Unmarked [')'] := by simp [Unmarked, isQuote]
  unfold signedLiteral
  split
  · show Unmarked (['('] ++ (text.toList ++ [')']))
    exact unmarked_append brackets.1 (unmarked_append (unmarked_bare bare) brackets.2)
  · exact unmarked_bare bare

theorem within_liftResult {α : Type} (result : Except Failure α) (work : Workspace) {post : α → Workspace → Prop}
    (holds : ∀ value, result = .ok value → post value work) : Within SameMissing (liftResult result) work post :=
  within_match_except steady_sameMissing holds

theorem within_keepInSlot (value : Value) (work : Workspace) :
    Within SameMissing (keepInSlot value) work fun literal _ => Unmarked literal := by
  unfold keepInSlot
  refine within_get ?_
  refine within_seq steady_sameMissing (ends_set ⟨rfl, trivial⟩) fun _ _ _ => ?_
  exact within_pure steady_sameMissing (unmarked_word (slotName_wordy work.slots.length))

theorem within_literalOf (value : Value) (work : Workspace) :
    Within SameMissing (literalOf value) work fun literal _ => Unmarked literal := by
  unfold literalOf
  split
  · refine within_pure steady_sameMissing ?_
    split <;> simp [Unmarked, isQuote]
  · split
    · exact within_throw steady_sameMissing
    · refine within_bind_to steady_sameMissing (fun text _ => ∀ c ∈ text.toList, Json.isBare c = true)
        (within_liftResult _ _ fun text shown => (bare_showInt shown).2) fun text _ _ bare => ?_
      exact within_pure steady_sameMissing (unmarked_signed _ bare)
  · split
    · exact within_pure steady_sameMissing (unmarked_signed _ (bare_shortestText _).2)
    · exact within_keepInSlot _ _
  · exact within_keepInSlot _ _

theorem within_callFunction (setting : Setting) (name : String) (function : Function) (args : List Value) (work : Workspace) :
    Within SameMissing (callFunction setting name function args) work fun _ _ => True := by
  unfold callFunction
  refine within_get ?_
  refine within_seq steady_sameMissing (ends_set ⟨rfl, trivial⟩) fun _ after _ => ?_
  split
  · exact within_pure steady_sameMissing trivial
  · refine within_seq steady_sameMissing ?_ fun _ _ _ => within_pure steady_sameMissing trivial
    exact within_modify (DiagnosticLog.missing_other _ (by decide) _ _) trivial

/-! ### The stages behind the substitution -/

/-- Where every `$` stands in a literal the evaluation records no missing variable. -/
def Quiets (evaluate : List Char → Reduction Value) : Prop :=
  ∀ {text : List Char}, dollarFree none text = true → ∀ work, Within SameMissing (evaluate text) work fun _ _ => True

section

variable {setting : Setting} {evaluate : List Char → Reduction Value} (quiets : Quiets evaluate)

include quiets

theorem within_argumentValues {args : List (List Char)} (clean : ∀ arg ∈ args, Clean arg) : ∀ work : Workspace,
    Within SameMissing (argumentValues evaluate args) work fun _ _ => True := by
  induction args with
  | nil => exact fun _ => within_pure steady_sameMissing trivial
  | cons arg args ih =>
    intro work
    have first : Within SameMissing (argumentValue evaluate arg) work fun _ _ => True := by
      unfold argumentValue
      split
      · exact within_pure steady_sameMissing trivial
      · exact quiets (clean arg List.mem_cons_self).free work
    refine within_seq steady_sameMissing first fun value after _ => ?_
    refine within_seq steady_sameMissing (ih (fun other member => clean other (List.mem_cons_of_mem arg member)) after)
      fun _ _ _ => ?_
    exact within_pure steady_sameMissing trivial

theorem within_inlineCalls {name : String} (isName : IsName name.toList) (function : Function) (fuel : Nat) :
    ∀ {quote previous : Option Char} {text : List Char} (work : Workspace), dollarFree quote text = true →
      Within SameMissing (inlineCalls setting evaluate name function fuel quote previous text) work
        fun written _ => dollarFree quote written = true := by
  induction fuel with
  | zero => exact fun _ free => within_pure steady_sameMissing free
  | succ fuel ih =>
    intro quote previous text work free
    rw [inlineCalls]
    cases found : findCall? name.toList previous text with
    | none => exact within_pure steady_sameMissing free
    | some site =>
      dsimp only
      split
      · -- a call in a literal is passed over
        obtain ⟨before, behind⟩ := dollarFree_passed free found
        refine within_bind steady_sameMissing (ih work behind) fun rest _ _ further => ?_
        exact within_pure steady_sameMissing ((dollarFree_append _).mpr ⟨before, further⟩)
      · rename_i unblocked
        obtain ⟨before, closed, rest⟩ := dollarFree_site isName free found unblocked
        split
        · exact within_pure steady_sameMissing free
        · -- the arguments are texts of their own, and the literal of the result takes the place of the call
          rename_i inner behind cut
          obtain ⟨clean, further⟩ := clean_cut rest cut
          refine within_seq steady_sameMissing (within_argumentValues quiets (fun arg => clean_splitArgs clean) work)
            fun args after _ => ?_
          refine within_seq steady_sameMissing (within_callFunction setting name function args after) fun result after _ => ?_
          refine within_bind steady_sameMissing (within_literalOf result after) fun literal after _ unmarked => ?_
          have written := clean_unmarked unmarked
          have open_ : quoteAfter quote (site.before ++ literal) = none := by rw [quoteAfter_append, closed, written.closed]
          rw [open_]
          refine within_bind steady_sameMissing (ih after further) fun rest _ _ free => ?_
          exact within_pure steady_sameMissing (dollarFree_written before closed written free)

theorem within_inlineFunctions {functions : List (String × Function)} (named : ∀ entry ∈ functions, IsName entry.1.toList) :
    ∀ {text : List Char} (work : Workspace), dollarFree none text = true →
      Within SameMissing (inlineFunctions setting evaluate functions text) work fun _ _ => True := by
  induction functions with
  | nil => exact fun _ _ => within_pure steady_sameMissing trivial
  | cons entry functions ih =>
    intro text work free
    rw [inlineFunctions]
    refine within_bind steady_sameMissing
      (within_inlineCalls quiets (named entry List.mem_cons_self) entry.2 (text.length + 1) work free) fun written after _ free => ?_
    exact ih (fun other member => named other (List.mem_cons_of_mem entry member)) after free

end

section

variable {setting : Setting} (named : ∀ entry ∈ setting.functions, IsName entry.1.toList)

include named

theorem within_substituted (depth : Nat) (quiets : Quiets (evaluateText setting depth)) {text : List Char}
    (free : dollarFree none text = true) (work : Workspace) : Within SameMissing (do
      let text := convertConditionals setting.maxPasses text
      let text ← inlineFunctions setting (evaluateText setting depth) setting.functions text
      let text ← liftResult (inlineConstants setting.nodeText setting.constants text)
      let text ← liftResult (inlineBareVariables (longestFirst setting.symbols) text)
      let slots := (← get).slots
      match slots.get? (String.ofList (Text.trim text)) with
      | some value => return value
      | none =>
        let lookup (name : String) := (slots.get? name).or (setting.symbols.get? name)
        liftResult (evaluateReduced ⟨lookup, setting.nodeText⟩ text) : Reduction Value) work fun _ _ => True := by
  have converted := dollarFree_conditionals setting.maxPasses free
  refine within_seq steady_sameMissing (within_inlineFunctions quiets named work converted) fun _ after _ => ?_
  refine within_seq steady_sameMissing (within_liftResult _ after fun _ _ => trivial) fun _ after _ => ?_
  refine within_seq steady_sameMissing (within_liftResult _ after fun _ _ => trivial) fun _ after _ => within_get ?_
  dsimp only
  split
  · exact within_pure steady_sameMissing trivial
  · exact within_liftResult _ after fun _ _ => trivial

theorem quiets_evaluateText (depth : Nat) : Quiets (evaluateText setting depth) := by
  induction depth with
  | zero => exact fun _ _ => within_throw steady_sameMissing
  | succ depth ih =>
    intro text free work
    have assigned := dollarFree_dropAssignment free
    rw [evaluateText, substituteVariables_free setting _ _ assigned]
    exact within_pure_bind (within_substituted named depth ih assigned work)

end

/-! ### The substitution -/

/-- Whether a value has a literal: an integer has none when it is beyond the range of floating numbers. -/
def isWritable : Value → Bool
  | .int n => (Number.ofInt n).isSome && (showInt n).toBool
  | _ => true

theorem ends_keepInSlot (value : Value) (work : Workspace) : ProceduralScene.Ends (keepInSlot value) work
    (fun literal after => Unmarked literal ∧ SameMissing work after) fun _ => False := by
  unfold keepInSlot
  refine ends_bind (ends_get ?_)
  refine ends_bind (ends_set ?_)
  exact ends_pure ⟨unmarked_word (slotName_wordy work.slots.length), rfl⟩

theorem ends_writable {value : Value} (writable : isWritable value = true) (work : Workspace) :
    ProceduralScene.Ends (literalOf value) work (fun literal after => Unmarked literal ∧ SameMissing work after)
      fun _ => False := by
  unfold literalOf
  split
  · refine ends_pure ⟨?_, rfl⟩
    split <;> simp [Unmarked, isQuote]
  · rename_i n
    simp only [isWritable, Bool.and_eq_true] at writable
    obtain ⟨finite, shown⟩ := writable
    rw [if_neg (by rw [← Option.not_isSome]; simp [finite])]
    cases text : showInt n with
    | error failure =>
      rw [text] at shown
      cases shown
    | ok text => exact ends_bind (ends_pure (ends_pure ⟨unmarked_signed _ (bare_showInt ‹_›).2, rfl⟩))
  · split
    · exact ends_pure ⟨unmarked_signed _ (bare_shortestText _).2, rfl⟩
    · exact ends_keepInSlot _ work
  · exact ends_keepInSlot _ work

theorem run_literalOf_unwritable {value : Value} (unwritable : isWritable value = false) (work : Workspace) :
    ∃ failure, (literalOf value).run.run work = (.error failure, work) := by
  cases value with
  | int n =>
    rw [literalOf]
    by_cases finite : (Number.ofInt n).isNone = true
    · rw [if_pos finite]
      exact ⟨_, rfl⟩
    · rw [if_neg finite]
      cases text : showInt n with
      | error failure => exact ⟨failure, rfl⟩
      | ok text =>
        rw [← Option.not_isSome, Bool.not_eq_true', Bool.not_eq_false] at finite
        simp [isWritable, finite, text, Except.toBool] at unwritable
  | _ => cases unwritable

theorem ends_unwritable {value : Value} (unwritable : isWritable value = false) (work : Workspace) :
    ProceduralScene.Ends (literalOf value) work (fun _ _ => False) (SameMissing work) := by
  obtain ⟨failure, run⟩ := run_literalOf_unwritable unwritable work
  unfold ProceduralScene.Ends
  rw [run]
  rfl

/-- Every `$` outside literals starts a name. -/
def tokened : Option Char → List Char → Bool
  | _, [] => true
  | quote, c :: text => (quote.isSome || c != '$' || (cutName? text).isSome) && tokened (stepQuote quote c) text

/-- The names that stand behind a `$` outside literals, in order, one for every occurrence. -/
def variableNames : Option Char → List Char → List String
  | _, [] => []
  | quote, c :: text =>
    let further := variableNames (stepQuote quote c) text
    match if c == '$' && quote.isNone then cutName? text else none with
    | none => further
    | some (name, _) => String.ofList name :: further

/-- Those of the names without a binding, up to a value without a literal, which ends the substitution. -/
def missingNames (symbols : Bindings) : List String → List String
  | [] => []
  | name :: names =>
    match symbols.get? name with
    | none => name :: missingNames symbols names
    | some value => if isWritable (parameterValue value) then missingNames symbols names else []

theorem missingNames_writable {symbols : Bindings} {names : List String}
    (writable : ∀ name ∈ names, ∀ value, symbols.get? name = some value → isWritable (parameterValue value) = true) :
    missingNames symbols names = names.filter fun name => (symbols.get? name).isNone := by
  induction names with
  | nil => rfl
  | cons name names ih =>
    have further := ih fun other member => writable other (List.mem_cons_of_mem name member)
    rw [missingNames, List.filter_cons, further]
    cases bound : symbols.get? name with
    | none => rfl
    | some value => simp [writable name List.mem_cons_self value bound]

def missingRecord (shown : String) (path : Option String) (name : String) : Diagnostic :=
  ⟨"warning", "X02", "missing variable $" ++ name ++ " in " ++ Text.quoted shown ++ "; using 0", path⟩

section

variable {setting : Setting} {shown : String}

/-- The records of these names are added, newest first. -/
def Records (setting : Setting) (shown : String) (names : List String) (before after : Workspace) : Prop :=
  after.log.missing = (names.map (missingRecord shown setting.path)).reverse ++ before.log.missing

theorem records_nil {before after : Workspace} : Records setting shown [] before after ↔ SameMissing before after := by
  simp [Records, SameMissing]

theorem records_append {first second : List String} {a b c : Workspace} (records : Records setting shown first a b)
    (records' : Records setting shown second b c) : Records setting shown (first ++ second) a c := by
  rw [Records, records', records]
  simp

theorem records_same {names : List String} {a b c : Workspace} (records : Records setting shown names a b)
    (same : SameMissing b c) : Records setting shown names a c := by
  rw [Records, same, records]

theorem records_one (name : String) (work : Workspace) : Records setting shown [name] work { work with
    log := work.log.record "X02" ("missing variable $" ++ name ++ " in " ++ Text.quoted shown ++ "; using 0") setting.path } := by
  simp [Records, DiagnosticLog.missing, DiagnosticLog.record, DiagnosticLog.add, missingRecord]

/-- An action that adds the records of some names and gives a text in which every `$` stands in a literal. -/
def Substitutes (setting : Setting) (shown : String) (quote : Option Char) (names : List String)
    (action : Reduction (List Char)) : Prop :=
  ∀ work, ProceduralScene.Ends action work (fun written after => dollarFree quote written = true ∧ Records setting shown names work after)
    (Records setting shown names work)

theorem substitutes_cons {quote : Option Char} {c : Char} {names : List String} {action : Reduction (List Char)}
    (plain : quote = none → c ≠ '$') (further : Substitutes setting shown (stepQuote quote c) names action) :
    Substitutes setting shown quote names (do return c :: (← action)) := by
  intro work
  refine ends_bind (ends_mono (further work) (fun written after ends => ?_) fun _ records => records)
  exact ends_pure ⟨dollarFree_cons.mpr ⟨plain, ends.1⟩, ends.2⟩

theorem substitutes_name {name : String} {names : List String} {action : Reduction (List Char)}
    (further : Substitutes setting shown none (missingNames setting.symbols names) action) :
    Substitutes setting shown none (missingNames setting.symbols (name :: names))
      (do return (← substitute setting shown name) ++ (← action)) := by
  intro work
  rw [missingNames]
  -- what remains once a literal without marks is there, with the records made so far
  have behind : ∀ {literal : List Char} {first : List String} {after : Workspace}, Unmarked literal →
      Records setting shown first work after →
      ProceduralScene.Ends (do return literal ++ (← action)) after
        (fun written last => dollarFree none written = true ∧ Records setting shown (first ++ missingNames setting.symbols names) work last)
        (Records setting shown (first ++ missingNames setting.symbols names) work) := by
    intro literal first after unmarked records
    refine ends_bind (ends_mono (further after) (fun written last ends => ?_) fun _ later => records_append records later)
    have clean := clean_unmarked unmarked
    exact ends_pure ⟨(dollarFree_append _).mpr ⟨clean.free, by rw [clean.closed]; exact ends.1⟩, records_append records ends.2⟩
  refine ends_bind ?_
  unfold substitute
  cases bound : setting.symbols.get? name with
  | none =>
    refine ends_bind (ends_modify ?_)
    exact ends_pure (behind (by simp [Unmarked, isQuote]) (records_one name work))
  | some value =>
    dsimp only
    split
    · rename_i writable
      refine ends_mono (ends_writable writable work) (fun literal after ends => ?_) fun _ => False.elim
      exact behind ends.1 (records_nil.mpr ends.2)
    · rename_i unwritable
      refine ends_mono (ends_unwritable (Bool.not_eq_true _ ▸ unwritable) work) (fun _ _ => False.elim) fun after same => ?_
      exact records_nil.mpr same

theorem substitutes_variables (text : List Char) : ∀ {quote : Option Char} {skip : Nat}, tokened quote text = true →
    -- the characters skipped are those of a name
    (skip ≠ 0 → quote = none) → (∀ c ∈ text.take skip, Text.isWord c = true) →
    Substitutes setting shown quote (missingNames setting.symbols (variableNames quote text))
      (substituteVariables setting shown quote skip text) := by
  induction text with
  | nil => exact fun _ _ _ work => ends_pure ⟨rfl, records_nil.mpr rfl⟩
  | cons c text ih =>
    intro quote skip tokens open_ wordy
    rw [tokened, Bool.and_eq_true] at tokens
    rw [variableNames]
    cases skip with
    | succ skip =>
      obtain rfl := open_ (by omega)
      have isWord := wordy c (by simp)
      have noDollar : c ≠ '$' := (unmarked_word (by simpa using isWord) c (List.mem_singleton_self c)).1
      rw [substituteVariables]
      simp only [stepQuote_word isWord, beq_false_of_ne noDollar, Bool.false_and, Bool.false_eq_true, if_false] at tokens ⊢
      exact ih tokens.2 (fun _ => rfl) fun d member => wordy d (by simp [member])
    | zero =>
      have plain := @ih _ 0 tokens.2 (absurd rfl) (by simp)
      rw [substituteVariables]
      by_cases dollar : (c == '$' && quote.isNone) = true
      · obtain ⟨same, none⟩ := Bool.and_eq_true_iff.mp dollar
        obtain rfl := eq_of_beq same
        obtain rfl := Option.isNone_iff_eq_none.mp none
        rw [if_pos dollar, if_pos dollar]
        cases cut : cutName? text with
        | none => simp [cut] at tokens
        | some parts =>
          obtain ⟨identifier, same, split⟩ := cutName_found cut
          refine substitutes_name (ih tokens.2 (fun _ => rfl) ?_)
          rw [split, List.take_left, ← same]
          exact (Spelling.isName_identifier identifier).whole
      · rw [if_neg dollar, if_neg dollar]
        exact substitutes_cons (by rintro rfl rfl; exact dollar rfl) plain

end

theorem records_evaluateText {setting : Setting} (named : ∀ entry ∈ setting.functions, IsName entry.1.toList) (depth : Nat)
    {text : List Char} (tokens : tokened none (dropAssignment text) = true) (work : Workspace) :
    Within (Records setting (String.ofList (dropAssignment text))
      (missingNames setting.symbols (variableNames none (dropAssignment text)))) (evaluateText setting (depth + 1) text) work
      fun _ _ => True := by
  rw [evaluateText]
  have substituted := @substitutes_variables setting (String.ofList (dropAssignment text)) (dropAssignment text) none 0 tokens
    (absurd rfl) (by simp) work
  refine ends_bind (ends_mono substituted (fun written after ends => ?_) fun _ records => records)
  obtain ⟨free, records⟩ := ends
  -- behind the substitution nothing is recorded as missing, also where the evaluation fails
  have quiet := within_substituted named depth (quiets_evaluateText named depth) free after
  refine ends_mono quiet (fun _ last same => ⟨records_same records same.1, trivial⟩) fun last same => records_same records same

end Expression

open Expression

/-- An evaluation makes one record for each missing variable of its own text, and no other stage makes one. -/
theorem Evaluator.evaluateFresh_missing (ev : Evaluator) (named : ∀ entry ∈ ev.functions, IsName entry.1.toList)
    (nodeText : NodeText) (text : String) (symbols : Bindings) (path : Option String)
    (tokens : tokened none (dropAssignment text.toList) = true) :
    (ev.evaluateFresh nodeText text symbols path).2.log.missing =
      ((missingNames symbols (variableNames none (dropAssignment text.toList))).map
        (missingRecord (String.ofList (dropAssignment text.toList)) path)).reverse ++ ev.log.missing := by
  have within := @records_evaluateText (ev.setting nodeText symbols path) named text.toList.length text.toList tokens
    ⟨[], ev.calls, ev.log⟩
  unfold evaluateFresh nestingBound
  unfold Within ProceduralScene.Ends at within
  dsimp only
  generalize (evaluateText (ev.setting nodeText symbols path) (text.toList.length + 1) text.toList).run.run
    ⟨[], ev.calls, ev.log⟩ = found at within ⊢
  rcases found with ⟨failure | value, after⟩
  · have other : ("X01" : String) ≠ "X02" := by decide
    exact (DiagnosticLog.missing_other after.log other _ path).trans within
  · exact within.1

/-- Where every bound variable has a literal, each occurrence of a name without a binding makes one record. -/
theorem Evaluator.evaluateFresh_records (ev : Evaluator) (named : ∀ entry ∈ ev.functions, IsName entry.1.toList)
    (nodeText : NodeText) (text : String) (symbols : Bindings) (path : Option String)
    (tokens : tokened none (dropAssignment text.toList) = true)
    (writable : ∀ name ∈ variableNames none (dropAssignment text.toList), ∀ value, symbols.get? name = some value →
      isWritable (parameterValue value) = true) :
    (ev.evaluateFresh nodeText text symbols path).2.log.missing =
      (((variableNames none (dropAssignment text.toList)).filter fun name => (symbols.get? name).isNone).map
        (missingRecord (String.ofList (dropAssignment text.toList)) path)).reverse ++ ev.log.missing := by
  rw [ev.evaluateFresh_missing named nodeText text symbols path tokens, missingNames_writable writable]

end ProceduralScene
