import ProceduralScene.Proofs.Spelling

/-!
The reduced language is the language of its grammar: a text of a term has the strict value of the term, and a text
that has a value is the text of a term with that value.
-/

set_option autoImplicit false

namespace ProceduralScene.Expression

theorem proper_operatorWord {operator : String} (known : operator ∈ wordOperators ∨ operator ∈ allSymbols) :
    (operatorWord operator).Proper := by
  unfold operatorWord
  split
  · trivial
  · split
    · trivial
    · split
      · trivial
      · rename_i notAnd notOr notNot
        rcases known with word | symbol
        · simp [wordOperators, notAnd, notOr, notNot] at word
        · exact symbol

abbrev AllProper (words : List Word) : Prop := ∀ word ∈ words, word.Proper

theorem allProper_append {first second : List Word} :
    AllProper (first ++ second) ↔ AllProper first ∧ AllProper second := List.forall_mem_append

theorem allProper_cons {word : Word} {words : List Word} : AllProper (word :: words) ↔ word.Proper ∧ AllProper words :=
  List.forall_mem_cons

theorem allProper_symbol {s : String} (known : s ∈ allSymbols) : AllProper [.symbol s] :=
  allProper_cons.mpr ⟨known, fun _ member => nomatch member⟩

theorem allProper_closed {words : List Word} (proper : AllProper words) {s : String} (known : s ∈ allSymbols) :
    AllProper (words ++ [.symbol s]) := allProper_append.mpr ⟨proper, allProper_symbol known⟩

mutual
theorem allProper_spelled {rank : Rank} {term : Term} {words : List Word} : Spells rank term words → AllProper words
  | .tighter _ spells => allProper_spelled spells
  | .parentheses spells => allProper_cons.mpr ⟨by decide, allProper_closed (allProper_spelled spells) (by decide)⟩
  | .atom atom => allProper_cons.mpr ⟨by cases atom <;> trivial, fun _ member => nomatch member⟩
  | .emptyList => allProper_cons.mpr ⟨by decide, allProper_symbol (by decide)⟩
  | .list spells => allProper_cons.mpr ⟨by decide, allProper_closed (allProper_items spells) (by decide)⟩
  | .index value at' =>
    allProper_append.mpr ⟨allProper_spelled value,
      allProper_cons.mpr ⟨by decide, allProper_closed (allProper_spelled at') (by decide)⟩⟩
  | .power base exponent =>
    allProper_append.mpr ⟨allProper_spelled base, allProper_cons.mpr ⟨by decide, allProper_spelled exponent⟩⟩
  | @Spells.signed sign known _ _ spells => by
    have operators : AreOperators signs := by decide
    exact allProper_cons.mpr ⟨proper_operatorWord (operators sign known), allProper_spelled spells⟩
  | @Spells.binary level operator known _ _ _ _ left right => by
    have operators : AreOperators level.symbols := by cases level <;> decide
    exact allProper_append.mpr ⟨allProper_spelled left,
      allProper_cons.mpr ⟨proper_operatorWord (operators operator known), allProper_spelled right⟩⟩
  | .ternary condition whenTrue whenFalse => by
    refine allProper_append.mpr ⟨allProper_spelled condition, allProper_cons.mpr ⟨by decide, ?_⟩⟩
    exact allProper_append.mpr ⟨allProper_spelled whenTrue, allProper_cons.mpr ⟨by decide, allProper_spelled whenFalse⟩⟩

theorem allProper_items {items : List Term} {words : List Word} : SpellsItems items words → AllProper words
  | .last spells => allProper_spelled spells
  | .more spells others =>
    allProper_append.mpr ⟨allProper_spelled spells, allProper_cons.mpr ⟨by decide, allProper_items others⟩⟩
end

theorem evaluateReduced_allowed (env : Environment) {text : List Char} (allowed : ∀ c ∈ text, isAllowed c = true) :
    evaluateReduced env text = (do evaluateTokens env (← tokenize text)) := by
  rw [evaluateReduced, if_pos (List.all_eq_true.mpr allowed)]

/-- A text of a term has its strict value, and fails when that fails; parentheses may stand around any part. -/
theorem evaluateReduced_spelled (env : Environment) {term : Term} {words : List Word} {text : List Char}
    (spells : Spells .ternary term words) (spaced : Spaced words text) :
    (evaluateReduced env text).toOption = (term.value env).toOption := by
  rw [evaluateReduced_allowed env (allowed_layout spaced), tokenize_spaced spaced]
  by_cases all : AllRead words
  · rw [lexAll_reads all]
    exact congrArg Except.toOption (evaluateTokens_spelled env spells all)
  · -- a numeral that is not read fails in both
    have noTokens : ∀ found, lexAll words ≠ .ok found := fun found lexed => all (lexAll_tokens words found lexed).1
    have noValue : ∀ value, term.value env ≠ .ok value := fun value known => all (allRead_of_value env spells value known)
    cases lexed : lexAll words with
    | ok found => exact absurd lexed (noTokens found)
    | error failure =>
      cases known : term.value env with
      | ok value => exact absurd known (noValue value)
      | error failure => rfl

/-- A text that has a value is written with the words of a term that has it. -/
theorem spelled_evaluateReduced {env : Environment} (unbound : ∀ word ∈ wordOperators, env.lookup word = none)
    {text : List Char} {value : Value} (evaluated : evaluateReduced env text = .ok value) :
    ∃ term words, Spells .ternary term words ∧ Written words text ∧ tokenize text = .ok (tokens words) ∧
      term.value env = .ok value := by
  by_cases allowed : ∀ c ∈ text, isAllowed c = true
  · rw [evaluateReduced_allowed env allowed] at evaluated
    cases lexed : tokenize text with
    | error failure =>
      rw [lexed] at evaluated
      cases evaluated
    | ok found =>
      rw [lexed] at evaluated
      obtain ⟨words, written, lexical, rfl⟩ := written_tokensFrom _ _ 0 text (Nat.le_refl _) allowed found lexed
      obtain ⟨term, spells, known⟩ := spelled_evaluateTokens unbound lexical evaluated
      exact ⟨term, words, spells, written, rfl, known⟩
  · rw [evaluateReduced, if_neg (fun all => allowed (List.all_eq_true.mp all))] at evaluated
    cases evaluated

/-- The evaluator of the reduced language is sound and complete for the grammar, where the operators that are words
are not bound. -/
theorem reduced_language (env : Environment) (unbound : ∀ word ∈ wordOperators, env.lookup word = none) :
    (∀ (term : Term) (text : List Char), Spaced term.words text →
      (evaluateReduced env text).toOption = (term.value env).toOption) ∧
    (∀ term : Term, Spaced term.words (spell term.words)) ∧
    ∀ (text : List Char) (value : Value), evaluateReduced env text = .ok value →
      ∃ term words, Spells .ternary term words ∧ Written words text ∧ tokenize text = .ok (tokens words) ∧
        term.value env = .ok value :=
  ⟨fun term _ spaced => evaluateReduced_spelled env (spells_printed term .ternary) spaced,
    fun term => spaced_spell (allProper_spelled (spells_printed term .ternary)),
    fun _ _ evaluated => spelled_evaluateReduced unbound evaluated⟩

/-- An environment with one name. -/
def oneName : Environment := ⟨fun name => if name == "x" then some (.int 3) else none, fun _ => .error .wrongKind⟩

theorem reduced_language_sum : (∀ word ∈ wordOperators, oneName.lookup word = none) ∧
    ∃ term words, Spells .ternary term words ∧ Written words ['x', '+', '2', '*', '3'] ∧
      tokenize ['x', '+', '2', '*', '3'] = .ok (tokens words) ∧ term.value oneName = .ok (.int 9) :=
  ⟨by decide, (reduced_language oneName (by decide)).2.2 ['x', '+', '2', '*', '3'] (.int 9) rfl⟩

end ProceduralScene.Expression
