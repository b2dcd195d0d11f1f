import ProceduralScene.Proofs.DollarMarks
import ProceduralScene.Proofs.Memo
import ProceduralScene.Proofs.PieceValue

/-!
Quoted literals are opaque. Where every character of a text belongs to a literal no stage finds anything, whatever
names the tables have: a call or a word found there is copied. So a literal on its own has its content as value.
-/

set_option autoImplicit false

namespace ProceduralScene.Expression

/-! ### Texts that no stage changes -/

/-- A text that the stages behind the substitution leave as it is. -/
structure Untouched (setting : Setting) (evaluate : List Char → Reduction Value) (text : List Char) : Prop where
  conditionals : convertConditionals setting.maxPasses text = text
  functions : inlineFunctions setting evaluate setting.functions text = pure text
  constants : inlineConstants setting.nodeText setting.constants text = .ok text
  bareVariables : inlineBareVariables (longestFirst setting.symbols) text = .ok text

theorem evaluateText_settled {setting : Setting} {depth : Nat} {text settled : List Char} {work after : Workspace}
    (stays : Untouched setting (evaluateText setting depth) settled)
    (substituted : (substituteVariables setting (String.ofList (dropAssignment text)) none 0 (dropAssignment text)).run.run work =
      (.ok settled, after)) : (evaluateText setting (depth + 1) text).run.run work =
    (match after.slots.get? (String.ofList (Text.trim settled)) with
      | some value => .ok value
      | none => evaluateReduced (setting.environment after.slots) settled, after) := by
  have lifted : liftResult (Except.ok settled) = (pure settled : Reduction (List Char)) := rfl
  rw [evaluateText, run_bind_ok substituted]
  dsimp only
  rw [stays.conditionals, stays.functions, pure_bind, stays.constants, lifted, pure_bind, stays.bareVariables, lifted,
    pure_bind, run_get]
  cases after.slots.get? (String.ofList (Text.trim settled)) with
  | some value => rfl
  | none => exact run_liftResult (evaluateReduced (setting.environment after.slots) settled) after

theorem dropAssignment_solid {c : Char} {rest : List Char} (solid : Text.isSpace c = false) (noSign : c ≠ '=')
    (ends : ∀ d ∈ (c :: rest).getLast?, Text.isSpace d = false) : dropAssignment (c :: rest) = c :: rest := by
  have trimmed : Text.trim (c :: rest) = c :: rest := by
    have whole := dropEnd_solid (List.cons_ne_nil _ _) ends []
    rw [List.append_nil] at whole
    rw [trim_eq, List.dropWhile_cons_of_neg (by simp [solid]), whole]
    exact List.append_nil _
  rw [dropAssignment, trimmed]
  split
  · rename_i same
    exact absurd (List.cons.inj same).1 noSign
  · rename_i same
    exact absurd (List.cons.inj same).1 noSign
  · rfl

/-! ### Literals -/

/-- Every character belongs to a quoted literal. -/
def InLiterals (quote : Option Char) (text : List Char) : Prop := ∀ mark ∈ literalMarks quote text, mark = true

theorem inLiterals_nil (quote : Option Char) : InLiterals quote [] := by simp [InLiterals, literalMarks]

theorem inLiterals_cons {quote : Option Char} {c : Char} {text : List Char} :
    InLiterals quote (c :: text) ↔ (quote = none → isQuote c = true) ∧ InLiterals (stepQuote quote c) text := by
  cases quote <;> simp [InLiterals, literalMarks]

theorem inLiterals_append (first : List Char) {second : List Char} : ∀ {quote : Option Char},
    InLiterals quote (first ++ second) ↔ InLiterals quote first ∧ InLiterals (quoteAfter quote first) second := by
  induction first with
  | nil => simp [InLiterals, literalMarks, quoteAfter]
  | cons c first ih =>
    intro quote
    rw [List.cons_append, inLiterals_cons, inLiterals_cons, ih, and_assoc]
    rfl

theorem inLiterals_open {q : Char} {content : List Char} (free : q ∉ content) : InLiterals (some q) content := by
  induction content with
  | nil => exact inLiterals_nil (some q)
  | cons c content ih =>
    have other : c ≠ q := fun same => free (same ▸ List.mem_cons_self)
    refine inLiterals_cons.mpr ⟨by simp, ?_⟩
    rw [show stepQuote (some q) c = some q by simp [stepQuote, other]]
    exact ih fun member => free (List.mem_cons_of_mem c member)

theorem inLiterals_quotation {q : Char} (quoting : isQuote q = true) {content : List Char} (free : q ∉ content) :
    InLiterals none (q :: (content ++ [q])) := by
  refine inLiterals_cons.mpr ⟨fun _ => quoting, ?_⟩
  rw [show stepQuote none q = some q by simp [stepQuote, quoting], inLiterals_append, quoteAfter_open free]
  exact ⟨inLiterals_open free, inLiterals_cons.mpr ⟨by simp, inLiterals_nil _⟩⟩

theorem dollarFree_literals (text : List Char) : ∀ {quote : Option Char}, InLiterals quote text → dollarFree quote text = true := by
  induction text with
  | nil => exact fun _ => rfl
  | cons c text ih =>
    intro quote inside
    obtain ⟨here, further⟩ := inLiterals_cons.mp inside
    refine dollarFree_cons.mpr ⟨fun closed => ?_, ih further⟩
    rintro rfl
    exact absurd (here closed) (by decide)

/-! ### Calls -/

section

variable {word text : List Char} {quote previous : Option Char} {site : CallSite}

/-- A call in a literal is blocked, and what stands behind its parenthesis is in literals again. -/
theorem site_inLiterals (inside : InLiterals quote text) (found : findCall? word previous text = some site) :
    site.isBlocked quote previous = true ∧ InLiterals (quoteAfter quote (site.before ++ site.head)) site.rest ∧
      text = site.before ++ site.head ++ site.rest := by
  obtain ⟨split, nonempty⟩ := findCall_split text found
  rw [split, ← List.append_assoc, inLiterals_append, inLiterals_append] at inside
  refine ⟨?_, inside.2, by rw [split, List.append_assoc]⟩
  obtain ⟨c, rest, head⟩ := List.exists_cons_of_ne_nil nonempty
  have here := inside.1.2
  rw [head, inLiterals_cons] at here
  unfold CallSite.isBlocked
  cases closed : quoteAfter quote site.before with
  | some q => simp
  | none => simp [head, here.1 closed]

theorem convertPass_literals (fuel : Nat) : ∀ {quote previous : Option Char} {text : List Char},
    InLiterals quote text → convertPass fuel quote previous text = (false, text) := by
  induction fuel with
  | zero => exact fun _ => rfl
  | succ fuel ih =>
    intro quote previous text inside
    rw [convertPass]
    cases found : findCall? conditionalName previous text with
    | none => rfl
    | some site =>
      obtain ⟨blocked, further, split⟩ := site_inLiterals inside found
      dsimp only
      rw [if_pos blocked, ih further, ← split]

theorem convertConditionals_literals (passes : Nat) (inside : InLiterals none text) :
    convertConditionals passes text = text := by
  cases passes with
  | zero => rfl
  | succ passes => simp only [convertConditionals, convertPass_literals _ inside, Bool.false_eq_true, if_false]

variable (setting : Setting) (evaluate : List Char → Reduction Value)

theorem inlineCalls_literals (name : String) (function : Function) (fuel : Nat) :
    ∀ {quote previous : Option Char} {text : List Char}, InLiterals quote text →
      inlineCalls setting evaluate name function fuel quote previous text = pure text := by
  induction fuel with
  | zero => exact fun _ => rfl
  | succ fuel ih =>
    intro quote previous text inside
    rw [inlineCalls]
    cases found : findCall? name.toList previous text with
    | none => rfl
    | some site =>
      obtain ⟨blocked, further, split⟩ := site_inLiterals inside found
      dsimp only
      rw [if_pos blocked, ih further, pure_bind, ← split]

theorem inlineFunctions_literals (inside : InLiterals none text) (functions : List (String × Function)) :
    inlineFunctions setting evaluate functions text = pure text := by
  induction functions with
  | nil => rfl
  | cons entry functions ih => rw [inlineFunctions, inlineCalls_literals _ _ _ _ _ inside, pure_bind, ih]

end

/-! ### Words -/

/-- At the end of a text the quote that is open was opened, and behind a closed one stands no word. -/
structure Reached (quote previous : Option Char) : Prop where
  opened : ∀ q ∈ quote, isQuote q = true
  closed : quote = none → previous.any Text.isWord = false

theorem reached_start : Reached none none := ⟨by simp, fun _ => rfl⟩

theorem reached_step {quote previous : Option Char} (reached : Reached quote previous) {c : Char}
    (inside : quote = none → isQuote c = true) : Reached (stepQuote quote c) (some c) := by
  cases quote with
  | none =>
    have quoting := inside rfl
    rw [show stepQuote none c = some c by simp [stepQuote, quoting]]
    exact ⟨fun q same => by cases same; exact quoting, by simp⟩
  | some q =>
    have quoting := reached.opened q rfl
    by_cases same : c = q
    · subst same
      rw [show stepQuote (some c) c = none by simp [stepQuote]]
      exact ⟨by simp, fun _ => isWord_of_isQuote quoting⟩
    · rw [show stepQuote (some q) c = some q by simp [stepQuote, same]]
      exact ⟨reached.opened, by simp⟩

theorem reached_append (text : List Char) : ∀ {quote previous : Option Char}, Reached quote previous →
    InLiterals quote text → Reached (quoteAfter quote text) (text.getLast?.or previous) := by
  induction text with
  | nil => exact fun reached _ => reached
  | cons c text ih =>
    intro quote previous reached inside
    obtain ⟨here, further⟩ := inLiterals_cons.mp inside
    rw [last_cons]
    exact ih (reached_step reached here) further

-- the empty word is the only one that could stand at the end, and it needs a word before it
theorem matchOperand_end (word : List Char) {quote previous : Option Char} (reached : Reached quote previous) :
    ((matchOperand? word previous []).isSome && quote.isNone) = false := by
  cases quote with
  | some q => simp
  | none =>
    cases word with
    | nil => simp [matchOperand?, matchWord?, dropWord?, isBoundary, reached.closed rfl]
    | cons c word => simp [matchOperand?, matchWord?, dropWord?]

theorem replaceOperand_literals (word replacement : List Char) (length : Nat) :
    ∀ {text : List Char} {quote previous : Option Char}, text.length = length → InLiterals quote text →
      Reached quote previous → replaceOperand word replacement quote previous 0 text = text := by
  induction length using Nat.strongRecOn with
  | _ length ih =>
  intro text quote previous same inside reached
  cases text with
  | nil =>
    rw [replaceOperand, matchOperand_end word reached]
    rfl
  | cons c text =>
    obtain ⟨here, further⟩ := inLiterals_cons.mp inside
    have reached' := reached_step reached here
    have one := ih text.length (by rw [← same]; exact Nat.lt_succ_self _) rfl further reached'
    cases matched : matchOperand? word previous (c :: text) with
    | none => rw [replaceOperand_copy matched, one]
    | some rest =>
      obtain ⟨split, -⟩ := matchOperand_found matched
      have quoted : (quote.isSome || isQuote c) = true := by
        cases quote with
        | none => simp [here rfl]
        | some q => rfl
      rw [replaceOperand, matched]
      cases word with
      | nil =>
        simp only [List.length_nil, quoted, if_true, one, List.nil_append]
      | cons d more =>
        obtain ⟨rfl, behind⟩ := List.cons.inj (split.trans List.cons_append)
        have shorter : rest.length < length := by
          rw [← same, behind, List.length_cons, List.length_append]
          omega
        rw [behind, inLiterals_append] at further
        have copied := ih rest.length shorter rfl further.2 (reached_append more reached' further.1)
        simp only [List.length_cons, quoted, if_true, behind, replaceOperand_skip, copied, List.cons_append]

theorem inlineConstants_literals {text : List Char} (inside : InLiterals none text) (nodeText : NodeText) {constants : Bindings}
    (shown : ∀ entry ∈ constants, ∃ s, entry.2.display nodeText = .ok s) :
    inlineConstants nodeText constants text = .ok text := by
  induction constants with
  | nil => rfl
  | cons entry constants ih =>
    obtain ⟨s, display⟩ := shown entry List.mem_cons_self
    have stays := replaceOperand_literals entry.1.toList s.toList _ rfl inside reached_start
    rw [inlineConstants, display]
    show inlineConstants nodeText constants (replaceOperand _ _ none none 0 text) = _
    rw [stays]
    exact ih fun other member => shown other (List.mem_cons_of_mem entry member)

theorem inlineBareVariables_literals {text : List Char} (inside : InLiterals none text) {symbols : Bindings}
    (shown : ∀ entry ∈ symbols, ∀ literal ∈ bareLiteral? entry.2, ∃ digits, literal = .ok digits) :
    inlineBareVariables symbols text = .ok text := by
  induction symbols with
  | nil => rfl
  | cons entry symbols ih =>
    have further := ih fun other member => shown other (List.mem_cons_of_mem entry member)
    rw [inlineBareVariables]
    cases bare : bareLiteral? entry.2 with
    | none => exact further
    | some literal =>
      obtain ⟨digits, rfl⟩ := shown entry List.mem_cons_self literal bare
      have stays := replaceOperand_literals entry.1.toList digits _ rfl inside reached_start
      dsimp only
      split
      · show inlineBareVariables symbols (replaceOperand _ _ none none 0 text) = _
        rw [stays]
        exact further
      · exact further

/-! ### The value of a literal -/

section

variable (quotation : Quotation)

theorem inLiterals_text : InLiterals none quotation.text := by
  exact inLiterals_quotation quotation.quoting quotation.free

theorem evaluateReduced_quotation (env : Environment) :
    evaluateReduced env quotation.text = .ok (.text (String.ofList quotation.content)) := by
  have cut := cutToken_quoted quotation []
  rw [List.append_nil] at cut
  refine evaluateReduced_ok.mpr ⟨fun c member => ?_, [.text (String.ofList quotation.content)], ?_, ?_⟩
  · rw [Quotation.text, List.mem_cons, List.mem_append, List.mem_singleton] at member
    have quote : isAllowed quotation.quote = true := by
      have quoting := quotation.quoting
      simp only [isQuote, Bool.or_eq_true, beq_iff_eq] at quoting
      rcases quoting with same | same <;> rw [same] <;> decide
    rcases member with rfl | inside | rfl
    · exact quote
    · exact quotation.allowed c inside
    · exact quote
  · exact .cut cut .nil
  · exact read_atom rfl (Read.atom_text env _ _) .ternary fun _ _ _ => rfl

theorem dropAssignment_quotation : dropAssignment quotation.text = quotation.text := by
  have solid := isSpace_quote quotation.quoting
  refine dropAssignment_solid solid ?_ ?_
  · intro same
    have quoting := quotation.quoting
    rw [same] at quoting
    cases quoting
  · rw [← List.cons_append, List.getLast?_concat]
    rintro c ⟨⟩
    exact solid

/-- Constants that can be displayed and numeric variables that can be written. -/
structure Setting.Displays (setting : Setting) : Prop where
  constants : ∀ entry ∈ setting.constants, ∃ s, entry.2.display setting.nodeText = .ok s
  symbols : ∀ entry ∈ setting.symbols, ∀ literal ∈ bareLiteral? entry.2, ∃ digits, literal = .ok digits

theorem untouched_quotation {setting : Setting} (displays : setting.Displays) (evaluate : List Char → Reduction Value) :
    Untouched setting evaluate quotation.text where
  conditionals := convertConditionals_literals _ (inLiterals_text quotation)
  functions := inlineFunctions_literals _ _ (inLiterals_text quotation) _
  constants := inlineConstants_literals (inLiterals_text quotation) _ displays.constants
  bareVariables := inlineBareVariables_literals (inLiterals_text quotation) fun entry member =>
    displays.symbols entry (List.mem_mergeSort.mp member)

theorem evaluateText_quotation {setting : Setting} (displays : setting.Displays) (depth : Nat) {work : Workspace}
    (empty : work.slots = []) : (evaluateText setting (depth + 1) quotation.text).run.run work =
      (.ok (.text (String.ofList quotation.content)), work) := by
  have substituted : (substituteVariables setting (String.ofList (dropAssignment quotation.text)) none 0
      (dropAssignment quotation.text)).run.run work = (.ok quotation.text, work) := by
    rw [dropAssignment_quotation, substituteVariables_free _ _ _ (dollarFree_literals _ (inLiterals_text quotation))]
    rfl
  rw [evaluateText_settled (untouched_quotation quotation displays _) substituted, empty]
  exact congrArg (·, work) (evaluateReduced_quotation quotation _)

end

end Expression

namespace Evaluator

open Expression

/-- A quoted literal has its content as value, and nothing is called or recorded. -/
theorem evaluateFresh_quotation (ev : Evaluator) (nodeText : NodeText) (symbols : Bindings) (path : Option String)
    (displays : (ev.setting nodeText symbols path).Displays) (quotation : Quotation) :
    ev.evaluateFresh nodeText (String.ofList quotation.text) symbols path =
      (.text (String.ofList quotation.content), ev) := by
  have found := evaluateText_quotation quotation displays quotation.text.length (show (Workspace.mk [] ev.calls ev.log).slots = [] from rfl)
  rw [evaluateFresh, String.toList_ofList, nestingBound, found]

/-- A literal fails only where the context has no canonical text; else it has its content as value and is remembered. -/
theorem evaluate_quotation (ev : Evaluator) (nodeText : NodeText) (ctx : Context) (path : Option String)
    (displays : (ev.setting nodeText ctx.flatten path).Displays) (quotation : Quotation)
    (remembered : ∀ (context : String) (value : Value), ev.memo[(String.ofList quotation.text, context)]? = some value →
      value = .text (String.ofList quotation.content)) :
    (∃ failure, contextText nodeText ctx.flatten = .error failure ∧
      (evaluate nodeText (.text (String.ofList quotation.text)) ctx path).run.run ev = (.error failure, ev)) ∨
    ∃ memo, (evaluate nodeText (.text (String.ofList quotation.text)) ctx path).run.run ev =
      (.ok (.text (String.ofList quotation.content)), { ev with memo }) := by
  rw [run_evaluate]
  cases written : contextText nodeText ctx.flatten with
  | error failure => exact .inl ⟨failure, rfl, rfl⟩
  | ok context =>
    right
    cases found : ev.memo[(String.ofList quotation.text, context)]? with
    | some value =>
      cases remembered context value found
      exact ⟨ev.memo, by simp only [found]⟩
    | none =>
      have fresh := evaluateFresh_quotation ev nodeText ctx.flatten path displays quotation
      refine ⟨ev.memo.insert (String.ofList quotation.text, context) (.text (String.ofList quotation.content)), ?_⟩
      simp only [found, learn, fresh]

end Evaluator

end ProceduralScene
