import ProceduralScene.Proofs.EnclosedTexts
import ProceduralScene.Proofs.PieceReading

/-!
Texts in which every `$` stands in a literal. The stages behind the substitution of variables cut texts at closing
parentheses and commas, write conditionals anew and put results in; none of that takes a `$` out of its literal.
-/

set_option autoImplicit false

namespace ProceduralScene.Expression

/-- Every `$` stands in a literal. -/
def dollarFree : Option Char → List Char → Bool
  | _, [] => true
  | quote, c :: text => (quote.isSome || c != '$') && dollarFree (stepQuote quote c) text

theorem dollarFree_cons {quote : Option Char} {c : Char} {text : List Char} : dollarFree quote (c :: text) = true ↔
    (quote = none → c ≠ '$') ∧ dollarFree (stepQuote quote c) text = true := by
  cases quote <;> simp [dollarFree]

theorem dollarFree_append (first : List Char) {second : List Char} : ∀ {quote : Option Char},
    dollarFree quote (first ++ second) = true ↔
      dollarFree quote first = true ∧ dollarFree (quoteAfter quote first) second = true := by
  induction first with
  | nil => simp [dollarFree, quoteAfter]
  | cons c first ih =>
    intro quote
    rw [List.cons_append, dollarFree_cons, dollarFree_cons, ih, and_assoc]
    rfl

/-- A text without quotes and without `$`. -/
def Unmarked (text : List Char) : Prop := ∀ c ∈ text, c ≠ '$' ∧ isQuote c = false

/-- A text that can stand anywhere outside literals: its own ones are closed, and it has no `$` outside them. -/
structure Clean (text : List Char) : Prop where
  free : dollarFree none text = true
  closed : quoteAfter none text = none

theorem clean_unmarked {text : List Char} (unmarked : Unmarked text) : Clean text := by
  induction text with
  | nil => exact ⟨rfl, rfl⟩
  | cons c text ih =>
    obtain ⟨noDollar, noQuote⟩ := unmarked c List.mem_cons_self
    have stays : stepQuote none c = none := by simp [stepQuote, noQuote]
    have further := ih fun d member => unmarked d (List.mem_cons_of_mem c member)
    refine ⟨dollarFree_cons.mpr ⟨fun _ => noDollar, ?_⟩, ?_⟩
    · rw [stays]
      exact further.free
    · rw [quoteAfter, List.foldl_cons, stays]
      exact further.closed

theorem clean_append {first second : List Char} (clean : Clean first) (clean' : Clean second) : Clean (first ++ second) where
  free := (dollarFree_append first).mpr ⟨clean.free, by rw [clean.closed]; exact clean'.free⟩
  closed := by rw [quoteAfter_append, clean.closed, clean'.closed]

theorem unmarked_blanks {blanks : List Char} (blank : ∀ c ∈ blanks, Text.isSpace c = true) : Unmarked blanks :=
  fun c member => ⟨ne_of_isSpace (blank c member) (by decide), (isMark_spec (isMark_space (blank c member))).2.quote⟩

theorem dollarFree_trim {text : List Char} (free : dollarFree none text = true) : dollarFree none (Text.trim text) = true := by
  obtain ⟨before, after, blank, -, split, -⟩ := trim_split text
  rw [split, dollarFree_append, (clean_unmarked (unmarked_blanks blank)).closed, dollarFree_append] at free
  exact free.2.1

theorem clean_trim {text : List Char} (clean : Clean text) : Clean (Text.trim text) := by
  refine ⟨dollarFree_trim clean.free, ?_⟩
  obtain ⟨before, after, blank, blank', split, -⟩ := trim_split text
  have closed := clean.closed
  rw [split, quoteAfter_append, (clean_unmarked (unmarked_blanks blank)).closed] at closed
  exact quoteAfter_blanks blank' closed

theorem dollarFree_dropAssignment {text : List Char} (free : dollarFree none text = true) :
    dollarFree none (dropAssignment text) = true := by
  have trimmed := dollarFree_trim free
  rw [dropAssignment]
  split
  · rename_i same
    rwa [← same]
  · rename_i rest _ same
    rw [same, dollarFree_cons] at trimmed
    exact trimmed.2
  · exact trimmed

/-! ### Cut texts -/

theorem closingOffset_split (text : List Char) : ∀ {quote : Option Char} {depth : Int} {n : Nat},
    closingOffset quote depth text = some n →
      ∃ inner rest, text = inner ++ ')' :: rest ∧ inner.length = n ∧ quoteAfter quote inner = none := by
  induction text with
  | nil =>
    intro quote depth n found
    cases found
  | cons c text ih =>
    intro quote depth n found
    have step : ∀ {depth' : Int}, (closingOffset (stepQuote quote c) depth' text).map (· + 1) = some n →
        ∃ inner rest, c :: text = inner ++ ')' :: rest ∧ inner.length = n ∧ quoteAfter quote inner = none := by
      intro depth' mapped
      obtain ⟨m, further, rfl⟩ := Option.map_eq_some_iff.mp mapped
      obtain ⟨inner, rest, split, length, closed⟩ := ih further
      exact ⟨c :: inner, rest, by rw [split, List.cons_append], by rw [List.length_cons, length], closed⟩
    cases quote with
    | some q => exact step found
    | none =>
      rw [closingOffset, if_neg (by simp)] at found
      by_cases opens : c = '('
      · subst opens
        exact step found
      by_cases closes : c = ')'
      · subst closes
        rw [if_neg (by decide), if_pos (by decide)] at found
        split at found
        · cases found
          exact ⟨[], text, rfl, rfl, rfl⟩
        · exact step found
      · rw [if_neg (by simpa using opens), if_neg (by simpa using closes)] at found
        exact step found

theorem cutAtClosing_split {text inner rest : List Char} (cut : cutAtClosing text = some (inner, rest)) :
    text = inner ++ ')' :: rest ∧ quoteAfter none inner = none := by
  obtain ⟨n, closes, parts⟩ := Option.map_eq_some_iff.mp cut
  obtain ⟨inner', rest', rfl, rfl, closed⟩ := closingOffset_split text closes
  simp only [List.take_left, Prod.mk.injEq] at parts
  obtain ⟨rfl, rfl⟩ := parts
  exact ⟨by simp, closed⟩

theorem clean_cut {text inner rest : List Char} (free : dollarFree none text = true)
    (cut : cutAtClosing text = some (inner, rest)) : Clean inner ∧ dollarFree none rest = true := by
  obtain ⟨rfl, closed⟩ := cutAtClosing_split cut
  rw [dollarFree_append, closed, dollarFree_cons] at free
  exact ⟨⟨free.1, closed⟩, free.2.2⟩

-- `current` is what was read of an argument, in reverse
theorem clean_splitArgsFrom (text : List Char) : ∀ {quote : Option Char} {depth : Int} (current : List Char),
    dollarFree none current.reverse = true → quoteAfter none current.reverse = quote → dollarFree quote text = true →
    quoteAfter quote text = none → ∀ arg ∈ splitArgsFrom quote depth current text, Clean arg := by
  induction text with
  | nil =>
    intro quote depth current before reached _ closed arg member
    rw [splitArgsFrom] at member
    split at member
    · cases member
    · rw [List.mem_singleton.mp member]
      exact clean_trim ⟨before, reached.trans closed⟩
  | cons c text ih =>
    intro quote depth current before reached free closed arg member
    obtain ⟨here, further⟩ := dollarFree_cons.mp free
    have before' : dollarFree none (c :: current).reverse = true := by
      rw [List.reverse_cons, dollarFree_append, reached]
      exact ⟨before, dollarFree_cons.mpr ⟨here, rfl⟩⟩
    have reached' : quoteAfter none (c :: current).reverse = stepQuote quote c := by
      rw [List.reverse_cons, quoteAfter_append, reached]
      rfl
    rw [splitArgsFrom] at member
    cases quote with
    | some q => exact ih _ before' reached' further closed arg member
    | none =>
      rw [if_neg (by simp)] at member
      split at member
      · rename_i comma
        have same : c = ',' := by simpa using (Bool.and_eq_true_iff.mp comma).1
        subst same
        rcases List.mem_cons.mp member with rfl | member
        · exact clean_trim ⟨before, reached⟩
        · exact ih [] rfl rfl further closed arg member
      · exact ih _ before' reached' further closed arg member

theorem clean_splitArgs {text arg : List Char} (clean : Clean text) (member : arg ∈ splitArgs text) : Clean arg :=
  clean_splitArgsFrom text [] rfl rfl clean.free clean.closed arg member

/-! ### Calls and conditionals -/

theorem findCall_head {word : List Char} (text : List Char) : ∀ {previous : Option Char} {site : CallSite},
    findCall? word previous text = some site →
      ∃ blanks, (∀ c ∈ blanks, Text.isSpace c = true) ∧ site.head = word ++ blanks ++ ['('] := by
  induction text with
  | nil =>
    intro previous site found
    cases found
  | cons c text ih =>
    intro previous site found
    rw [findCall?] at found
    cases matched : matchCall? word previous (c :: text) with
    | some rest =>
      rw [matched] at found
      cases found
      obtain ⟨blanks, blank, split⟩ := matchCall_found matched
      have length : text.length + 1 - rest.length = (word ++ blanks ++ ['(']).length := by
        have whole := congrArg List.length split
        rw [List.length_cons, List.length_append] at whole
        omega
      refine ⟨blanks, blank, ?_⟩
      dsimp only
      rw [length, split, List.take_left]
    | none =>
      rw [matched] at found
      obtain ⟨inner, further, rfl⟩ := Option.map_eq_some_iff.mp found
      exact @ih (some c) inner further

theorem unmarked_word {word : List Char} (wordy : ∀ c ∈ word, Text.isWord c = true) : Unmarked word := by
  intro c member
  refine ⟨?_, (quiet_word (wordy c member)).quote⟩
  rintro rfl
  exact absurd (wordy _ member) (by decide)

theorem unmarked_append {first second : List Char} (unmarked : Unmarked first) (unmarked' : Unmarked second) :
    Unmarked (first ++ second) := fun c member => (List.mem_append.mp member).elim (unmarked c) (unmarked' c)

section

variable {word text : List Char} (name : IsName word) {quote previous : Option Char} {site : CallSite}

include name

/-- Around a call that is not blocked no literal is open. -/
theorem dollarFree_site (free : dollarFree quote text = true) (found : findCall? word previous text = some site)
    (unblocked : ¬ site.isBlocked quote previous = true) :
    dollarFree quote site.before = true ∧ quoteAfter quote site.before = none ∧ dollarFree none site.rest = true := by
  obtain ⟨blanks, blank, head⟩ := findCall_head text found
  have clean : Clean site.head := by
    rw [head]
    exact clean_unmarked (unmarked_append (unmarked_append (unmarked_word name.whole) (unmarked_blanks blank))
      (by simp [Unmarked, isQuote]))
  have closed : quoteAfter quote site.before = none := by
    cases last : quoteAfter quote site.before with
    | none => rfl
    | some q => exact absurd (by simp [CallSite.isBlocked, last]) unblocked
  rw [(findCall_split text found).1, dollarFree_append, closed, dollarFree_append, clean.closed] at free
  exact ⟨free.1, closed, free.2.2⟩

omit name in
theorem dollarFree_passed (free : dollarFree quote text = true) (found : findCall? word previous text = some site) :
    dollarFree quote (site.before ++ site.head) = true ∧
      dollarFree (quoteAfter quote (site.before ++ site.head)) site.rest = true := by
  rw [(findCall_split text found).1, ← List.append_assoc] at free
  exact (dollarFree_append _).mp free

end

theorem clean_ternary {condition whenTrue whenFalse : List Char} (clean : Clean condition) (clean₁ : Clean whenTrue)
    (clean₂ : Clean whenFalse) : Clean (ternaryText condition whenTrue whenFalse) := by
  have marks : ∀ marks ∈ ["((", ")?(", "):(", "))"], Clean marks.toList := by
    intro marks member
    refine clean_unmarked ?_
    simp only [List.mem_cons, List.not_mem_nil, or_false] at member
    rcases member with rfl | rfl | rfl | rfl <;> simp [Unmarked, isQuote]
  have opened := clean_append (marks "((" (by simp)) clean
  have first := clean_append (clean_append opened (marks ")?(" (by simp))) clean₁
  have second := clean_append (clean_append first (marks "):(" (by simp))) clean₂
  exact clean_append second (marks "))" (by simp))

theorem dollarFree_written {quote : Option Char} {before written rest : List Char} (free : dollarFree quote before = true)
    (closed : quoteAfter quote before = none) (clean : Clean written) (further : dollarFree none rest = true) :
    dollarFree quote (before ++ written ++ rest) = true := by
  rw [dollarFree_append, dollarFree_append, quoteAfter_append, closed, clean.closed]
  exact ⟨⟨free, clean.free⟩, further⟩

theorem dollarFree_convertPass (fuel : Nat) : ∀ {quote previous : Option Char} {text : List Char},
    dollarFree quote text = true → dollarFree quote (convertPass fuel quote previous text).2 = true := by
  induction fuel with
  | zero => exact fun free => free
  | succ fuel ih =>
    intro quote previous text free
    rw [convertPass]
    cases found : findCall? conditionalName previous text with
    | none => exact free
    | some site =>
      obtain ⟨before, behind⟩ := dollarFree_passed free found
      have passed := (dollarFree_append (site.before ++ site.head)).mpr ⟨before, @ih _ (some '(') _ behind⟩
      dsimp only
      split
      · exact passed
      · rename_i unblocked
        obtain ⟨before, closed, rest⟩ := dollarFree_site isName_conditional free found unblocked
        split
        · exact free
        · rename_i inner after cut
          obtain ⟨clean, further⟩ := clean_cut rest cut
          split
          · rename_i condition whenTrue whenFalse args
            have each : ∀ arg ∈ splitArgs inner, Clean arg := fun arg member => clean_splitArgs clean member
            rw [args] at each
            have written := clean_ternary (each condition (by simp)) (each whenTrue (by simp)) (each whenFalse (by simp))
            have open_ : quoteAfter quote (site.before ++ ternaryText condition whenTrue whenFalse) = none := by
              rw [quoteAfter_append, closed, written.closed]
            dsimp only
            rw [open_]
            exact dollarFree_written before closed written (ih further)
          · exact passed

theorem dollarFree_conditionals (passes : Nat) : ∀ {text : List Char}, dollarFree none text = true →
    dollarFree none (convertConditionals passes text) = true := by
  induction passes with
  | zero => exact fun free => free
  | succ passes ih =>
    intro text free
    have once := @dollarFree_convertPass (text.length + 1) none none text free
    rw [convertConditionals]
    dsimp only
    split
    · exact ih once
    · exact once

/-! ### Variables -/

theorem substituteVariables_free (setting : Setting) (shown : String) (text : List Char) : ∀ {quote : Option Char},
    dollarFree quote text = true → substituteVariables setting shown quote 0 text = pure text := by
  induction text with
  | nil => exact fun _ => rfl
  | cons c text ih =>
    intro quote free
    obtain ⟨here, further⟩ := dollarFree_cons.mp free
    have stays : (c == '$' && quote.isNone) = false := by
      cases quote with
      | some q => simp
      | none => simp [here rfl]
    rw [substituteVariables]
    simp only [stays, Bool.false_eq_true, if_false, ih further]
    rfl

end ProceduralScene.Expression
