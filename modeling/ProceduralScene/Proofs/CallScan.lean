import ProceduralScene.Proofs.CharClasses
import ProceduralScene.Expression.Reduction

/-!
The scan for the calls of one name, without its bound. A scan copies the text up to the next call; a call that stands
in a literal or ends a longer name is copied up to its parenthesis.
-/

set_option autoImplicit false

namespace ProceduralScene.Text

theorem blocks_highSpaces : ∀ i < 10, spacePoints.getD (2 * i + 1) 0 ≤ 128 ∨
    ∀ k < spacePoints.getD (2 * i + 1) 0 - spacePoints.getD (2 * i) 0, spacePoints.getD (2 * i) 0 + k ∈ highSpaces := by
  decide

theorem toNat_highSpaces {c : Char} (high : ¬ c.toNat < 128) (space : isSpace c = true) : c.toNat ∈ highSpaces := by
  rw [isSpace, if_neg high] at space
  obtain ⟨i, within, start, stop⟩ := inClass_between ascending_spacePoints (by decide) space
  have few : 2 * i < 20 := within
  have bound := stop (show 2 * i + 1 < 20 by omega)
  rcases blocks_highSpaces i (by omega) with low | all
  · omega
  · have member := all (c.toNat - spacePoints.getD (2 * i) 0) (by omega)
    rwa [Nat.add_sub_cancel' start] at member

theorem isWord_of_isSpace {c : Char} (space : isSpace c = true) : isWord c = false := by
  by_cases low : c.toNat < 128
  · rw [isWord, if_pos low]
    have name := Expression.isNameChar_of_isSpace space
    rwa [Expression.isNameChar] at name
  · obtain ⟨i, within, start, stop⟩ := block_inside _ _ _ spaces_between_words _ (toNat_highSpaces low space)
    rw [List.length_tail, Array.length_toList] at within
    rw [List.getElem_tail, Array.getElem_toList] at start stop
    rw [isWord, if_neg low]
    refine not_inClass_of_between ascending_wordPoints wordPoints_table.2.1 (i := i) (by omega) ?_ ?_
    · rw [getD_of_lt (by omega)]
      exact start
    · rw [getD_of_lt (by omega)]
      exact stop

end ProceduralScene.Text

namespace ProceduralScene.Expression

/-! ### A call at the start of a text -/

/-- A name of word characters alone, as functions, constants and variables have it. -/
structure IsName (word : List Char) : Prop where
  nonempty : word ≠ []
  whole : ∀ c ∈ word, Text.isWord c = true

theorem isName_cons {word : List Char} (name : IsName word) : ∃ c rest, word = c :: rest ∧ Text.isWord c = true := by
  cases word with
  | nil => exact absurd rfl name.nonempty
  | cons c rest => exact ⟨c, rest, rfl, name.whole c List.mem_cons_self⟩

theorem dropWord_some {word : List Char} : ∀ {text rest : List Char},
    dropWord? word text = some rest ↔ text = word ++ rest := by
  induction word with
  | nil =>
    intro text rest
    simp only [dropWord?, Option.some.injEq, List.nil_append]
  | cons c word ih =>
    intro text rest
    cases text with
    | nil => simp [dropWord?]
    | cons d text =>
      by_cases same : c = d
      · subst same
        simp [dropWord?, ih]
      · have other : d ≠ c := fun equal => same equal.symm
        simp [dropWord?, same, other]

theorem matchCall_found {word text rest : List Char} {previous : Option Char}
    (found : matchCall? word previous text = some rest) :
    ∃ blanks, (∀ c ∈ blanks, Text.isSpace c = true) ∧ text = (word ++ blanks ++ ['(']) ++ rest := by
  unfold matchCall? at found
  by_cases boundary : isBoundary previous text.head? = true
  · rw [if_pos boundary] at found
    cases dropped : dropWord? word text with
    | none => simp [dropped] at found
    | some behind =>
      rw [dropped] at found
      dsimp only [Option.map_some] at found
      split at found
      · rename_i after opens
        cases found
        injection opens with opens
        refine ⟨behind.takeWhile Text.isSpace, List.all_eq_true.mp List.all_takeWhile, ?_⟩
        have whole : behind.takeWhile Text.isSpace ++ '(' :: rest = behind := by
          rw [← opens]
          exact List.takeWhile_append_dropWhile
        rw [dropWord_some.mp dropped, List.append_assoc, List.append_assoc]
        exact congrArg (word ++ ·) whole.symm
      · cases found
  · rw [if_neg boundary] at found
    cases found

theorem matchCall_mark {word : List Char} (name : IsName word) {c : Char} (mark : Text.isWord c = false)
    (previous : Option Char) (text : List Char) : matchCall? word previous (c :: text) = none := by
  cases found : matchCall? word previous (c :: text) with
  | none => rfl
  | some rest =>
    obtain ⟨blanks, _, split⟩ := matchCall_found found
    obtain ⟨d, more, rfl, wordy⟩ := isName_cons name
    cases split
    exact absurd wordy (by simp [mark])

theorem matchCall_inside {previous : Option Char} (inside : previous.any Text.isWord = true) {c : Char}
    (wordy : Text.isWord c = true) (word text : List Char) : matchCall? word previous (c :: text) = none := by
  have noBoundary : isBoundary previous (some c) = false := by simp [isBoundary, inside, wordy]
  rw [matchCall?, List.head?_cons, noBoundary]
  rfl

theorem dropWhile_blanks {blanks : List Char} (blank : ∀ c ∈ blanks, Text.isSpace c = true) (rest : List Char) :
    (blanks ++ '(' :: rest).dropWhile Text.isSpace = '(' :: rest := by
  induction blanks with
  | nil => rfl
  | cons c blanks ih =>
    have space := blank c List.mem_cons_self
    simp only [List.cons_append, List.dropWhile_cons, space, if_true]
    exact ih fun d member => blank d (List.mem_cons_of_mem c member)

theorem matchCall_call {word : List Char} (name : IsName word) {previous : Option Char}
    (apart : previous.any Text.isWord = false) {blanks : List Char} (blank : ∀ c ∈ blanks, Text.isSpace c = true)
    (rest : List Char) : matchCall? word previous ((word ++ blanks ++ ['(']) ++ rest) = some rest := by
  obtain ⟨c, more, rfl, wordy⟩ := isName_cons name
  have boundary : isBoundary previous (some c) = true := by simp [isBoundary, apart, wordy]
  have dropped : dropWord? (c :: more) (c :: more ++ (blanks ++ '(' :: rest)) = some (blanks ++ '(' :: rest) :=
    dropWord_some.mpr rfl
  have text : (c :: more ++ blanks ++ ['(']) ++ rest = c :: more ++ (blanks ++ '(' :: rest) := by simp
  rw [text, matchCall?, dropped]
  simp only [List.cons_append, List.head?_cons, boundary, if_true, Option.map_some, dropWhile_blanks blank]

/-! ### The first call -/

theorem findCall_split {word : List Char} (text : List Char) : ∀ {previous : Option Char} {site : CallSite},
    findCall? word previous text = some site → text = site.before ++ (site.head ++ site.rest) ∧ site.head ≠ [] := by
  induction text with
  | nil =>
    intro previous site found
    cases found
  | cons c text ih =>
    intro previous site found
    rw [findCall?] at found
    cases matched : matchCall? word previous (c :: text) with
    | some rest =>
      rw [matched] at found
      cases found
      obtain ⟨blanks, _, split⟩ := matchCall_found matched
      have length : text.length + 1 - rest.length = (word ++ blanks ++ ['(']).length := by
        have whole := congrArg List.length split
        rw [List.length_cons, List.length_append] at whole
        omega
      dsimp only
      rw [length, split, List.take_left]
      exact ⟨rfl, by simp⟩
    | none =>
      rw [matched] at found
      cases further : findCall? word (some c) text with
      | none =>
        rw [further] at found
        cases found
      | some inner =>
        rw [further] at found
        cases found
        obtain ⟨split, head⟩ := ih further
        exact ⟨congrArg (c :: ·) split, head⟩

theorem findCall_shorter {word text : List Char} {previous : Option Char} {site : CallSite}
    (found : findCall? word previous text = some site) : site.rest.length < text.length := by
  obtain ⟨split, head⟩ := findCall_split text found
  have positive := List.length_pos_iff.mpr head
  have length := congrArg List.length split
  rw [List.length_append, List.length_append] at length
  omega

theorem closingOffset_lt (text : List Char) : ∀ {quote : Option Char} {depth : Int} {n : Nat},
    closingOffset quote depth text = some n → n < text.length := by
  induction text with
  | nil =>
    intro quote depth n found
    cases found
  | cons c text ih =>
    intro quote depth n found
    have step : ∀ {quote' : Option Char} {depth' : Int}, (closingOffset quote' depth' text).map (· + 1) = some n →
        n < (c :: text).length := by
      intro quote' depth' mapped
      obtain ⟨m, inner, rfl⟩ := Option.map_eq_some_iff.mp mapped
      exact Nat.succ_lt_succ (ih inner)
    rw [closingOffset] at found
    split at found
    · exact step found
    · split at found
      · exact step found
      · split at found
        · split at found
          · cases found
            exact Nat.succ_pos _
          · exact step found
        · exact step found

theorem cutAtClosing_shorter {text inner rest : List Char} (cut : cutAtClosing text = some (inner, rest)) :
    rest.length < text.length := by
  obtain ⟨n, closes, parts⟩ := Option.map_eq_some_iff.mp cut
  have bound := closingOffset_lt text closes
  injection parts with _ behind
  rw [← behind, List.length_drop]
  omega

theorem quoteAfter_append (quote : Option Char) (first second : List Char) :
    quoteAfter quote (first ++ second) = quoteAfter (quoteAfter quote first) second := List.foldl_append

/-! ### Scans without a bound -/

theorem last_cons (c : Char) (run : List Char) (before : Option Char) :
    (c :: run).getLast?.or before = run.getLast?.or (some c) := by
  rw [List.getLast?_cons]
  cases run.getLast? <;> rfl

theorem isBlocked_cons (c : Char) (before head rest : List Char) (quote previous : Option Char) :
    (CallSite.mk (c :: before) head rest).isBlocked quote previous =
      (CallSite.mk before head rest).isBlocked (stepQuote quote c) (some c) := by
  simp only [CallSite.isBlocked, last_cons, quoteAfter, List.foldl_cons]

theorem isBlocked_here (head rest : List Char) (quote previous : Option Char) :
    (CallSite.mk [] head rest).isBlocked quote previous =
      (quote.isSome || head.head?.any isQuote || blocksCall previous) := by
  simp only [CallSite.isBlocked, quoteAfter, List.foldl_nil, List.getLast?_nil, Option.none_or]

theorem findCall_cons {word text : List Char} {previous : Option Char} {c : Char}
    (none : matchCall? word previous (c :: text) = none) : findCall? word previous (c :: text) =
      (findCall? word (some c) text).map fun site => { site with before := c :: site.before } := by
  rw [findCall?, none]

theorem findCall_here {word head rest : List Char} {previous : Option Char} (nonempty : head ≠ [])
    (matched : matchCall? word previous (head ++ rest) = some rest) :
    findCall? word previous (head ++ rest) = some ⟨[], head, rest⟩ := by
  cases head with
  | nil => exact absurd rfl nonempty
  | cons c more =>
    have length : (more ++ rest).length + 1 - rest.length = (c :: more).length := by
      rw [List.length_append, List.length_cons]
      omega
    rw [List.cons_append, findCall?, ← List.cons_append, matched]
    dsimp only
    rw [length, List.take_left]

/-- A scan that copies the text up to the calls of `word`, where `push` puts what is copied before a result. -/
structure Copies {α : Type} (word : List Char) (scan : Option Char → Option Char → List Char → α)
    (push : List Char → α → α) : Prop where
  nothing : ∀ result, push [] result = result
  append : ∀ first second result, push (first ++ second) result = push first (push second result)
  other : ∀ {quote previous : Option Char} {c : Char} {text : List Char}, matchCall? word previous (c :: text) = none →
    scan quote previous (c :: text) = push [c] (scan (stepQuote quote c) (some c) text)
  blocked : ∀ {quote previous : Option Char} {head rest : List Char}, head ≠ [] →
    matchCall? word previous (head ++ rest) = some rest →
    (quote.isSome || head.head?.any isQuote || blocksCall previous) = true →
    scan quote previous (head ++ rest) = push head (scan (quoteAfter quote head) (some '(') rest)

/-- One step of a pass, over the pass that goes on behind what it copied or wrote. -/
def passStep (next : Option Char → Option Char → List Char → Bool × List Char) (quote previous : Option Char)
    (text : List Char) : Bool × List Char :=
  match findCall? conditionalName previous text with
  | none => (false, text)
  | some site =>
    let skipped :=
      let rest := next (quoteAfter quote (site.before ++ site.head)) (some '(') site.rest
      (rest.1, site.before ++ site.head ++ rest.2)
    if site.isBlocked quote previous then skipped
    else
      match cutAtClosing site.rest with
      | none => (false, text)
      | some (inner, rest) =>
        match splitArgs inner with
        | [condition, whenTrue, whenFalse] =>
          let written := ternaryText condition whenTrue whenFalse
          let after := next (quoteAfter quote (site.before ++ written)) (some ')') rest
          (true, site.before ++ written ++ after.2)
        | _ => skipped

theorem convertPass_step (bound : Nat) (quote previous : Option Char) (text : List Char) :
    convertPass (bound + 1) quote previous text = passStep (convertPass bound) quote previous text := rfl

theorem convertPass_bound (bound : Nat) : ∀ (other : Nat) {quote previous : Option Char} (text : List Char),
    text.length < bound → text.length < other →
    convertPass bound quote previous text = convertPass other quote previous text := by
  induction bound with
  | zero =>
    intro other quote previous text less
    omega
  | succ bound ih =>
    intro other quote previous text less less'
    cases other with
    | zero => omega
    | succ other =>
      rw [convertPass_step, convertPass_step, passStep, passStep]
      cases found : findCall? conditionalName previous text with
      | none => rfl
      | some site =>
        have shorter := findCall_shorter found
        dsimp only
        rw [ih other site.rest (by omega) (by omega)]
        split
        · rfl
        · cases cut : cutAtClosing site.rest with
          | none => rfl
          | some parts =>
            have less := cutAtClosing_shorter cut
            dsimp only
            split
            · rw [ih other parts.2 (by omega) (by omega)]
            · rfl

def scanConditionals (quote previous : Option Char) (text : List Char) : Bool × List Char :=
  convertPass (text.length + 1) quote previous text

def pushPass (head : List Char) (result : Bool × List Char) : Bool × List Char := (result.1, head ++ result.2)

theorem scanConditionals_other {quote previous : Option Char} {c : Char} {text : List Char}
    (none : matchCall? conditionalName previous (c :: text) = none) :
    scanConditionals quote previous (c :: text) = pushPass [c] (scanConditionals (stepQuote quote c) (some c) text) := by
  unfold scanConditionals
  rw [List.length_cons, convertPass_step, convertPass_step, passStep, passStep, findCall_cons none]
  cases found : findCall? conditionalName (some c) text with
  | none => rfl
  | some site =>
    have shorter := findCall_shorter found
    dsimp only [Option.map_some]
    rw [isBlocked_cons, convertPass_bound (text.length + 1) text.length site.rest (by omega) (by omega)]
    split
    · rfl
    · cases cut : cutAtClosing site.rest with
      | none => rfl
      | some parts =>
        have less := cutAtClosing_shorter cut
        dsimp only
        split
        · rw [convertPass_bound (text.length + 1) text.length parts.2 (by omega) (by omega)]
          rfl
        · rfl

section

variable {quote previous : Option Char} {head rest : List Char} (nonempty : head ≠ [])
  (matched : matchCall? conditionalName previous (head ++ rest) = some rest)

include nonempty matched

theorem scanConditionals_blocked (blocks : (quote.isSome || head.head?.any isQuote || blocksCall previous) = true) :
    scanConditionals quote previous (head ++ rest) =
      pushPass head (scanConditionals (quoteAfter quote head) (some '(') rest) := by
  have positive := List.length_pos_iff.mpr nonempty
  have length : (head ++ rest).length = head.length + rest.length := List.length_append
  unfold scanConditionals
  rw [convertPass_step, passStep, findCall_here nonempty matched]
  dsimp only
  rw [isBlocked_here, if_pos blocks, List.nil_append,
    convertPass_bound (head ++ rest).length (rest.length + 1) rest (by omega) (by omega)]
  rfl

variable (free : ¬ (quote.isSome || head.head?.any isQuote || blocksCall previous) = true) {inner behind : List Char}
  (cut : cutAtClosing rest = some (inner, behind))

include free cut

theorem scanConditionals_skips (arity : (splitArgs inner).length ≠ 3) :
    scanConditionals quote previous (head ++ rest) =
      pushPass head (scanConditionals (quoteAfter quote head) (some '(') rest) := by
  have positive := List.length_pos_iff.mpr nonempty
  have length : (head ++ rest).length = head.length + rest.length := List.length_append
  unfold scanConditionals
  rw [convertPass_step, passStep, findCall_here nonempty matched]
  dsimp only
  rw [isBlocked_here, if_neg free, cut, List.nil_append,
    convertPass_bound (head ++ rest).length (rest.length + 1) rest (by omega) (by omega)]
  dsimp only
  split
  · rename_i args
    exact absurd (congrArg List.length args) arity
  · rfl

theorem scanConditionals_converts {condition whenTrue whenFalse : List Char}
    (args : splitArgs inner = [condition, whenTrue, whenFalse]) :
    scanConditionals quote previous (head ++ rest) =
      (true, ternaryText condition whenTrue whenFalse ++
        (scanConditionals (quoteAfter quote (ternaryText condition whenTrue whenFalse)) (some ')') behind).2) := by
  have positive := List.length_pos_iff.mpr nonempty
  have length : (head ++ rest).length = head.length + rest.length := List.length_append
  have less := cutAtClosing_shorter cut
  unfold scanConditionals
  rw [convertPass_step, passStep, findCall_here nonempty matched]
  dsimp only
  rw [isBlocked_here, if_neg free, cut]
  dsimp only
  rw [args]
  dsimp only
  rw [List.nil_append,
    convertPass_bound (head ++ rest).length (behind.length + 1) behind (by omega) (by omega)]

end

theorem copies_conditionals : Copies conditionalName scanConditionals pushPass where
  nothing _ := rfl
  append first second result := by rw [pushPass, pushPass, pushPass, List.append_assoc]
  other := scanConditionals_other
  blocked nonempty matched blocks := scanConditionals_blocked nonempty matched blocks

/-! ### The scan for the calls of a function -/

section

variable {setting : Setting} {evaluate : List Char → Reduction Value} {name : String} {function : Function}

/-- One step of the scan for calls, over the scan that goes on behind what it copied or wrote. -/
def callStep (setting : Setting) (evaluate : List Char → Reduction Value) (name : String) (function : Function)
    (next : Option Char → Option Char → List Char → Reduction (List Char)) (quote previous : Option Char)
    (text : List Char) : Reduction (List Char) :=
  match findCall? name.toList previous text with
  | none => pure text
  | some site =>
    if site.isBlocked quote previous then
      return site.before ++ site.head ++ (← next (quoteAfter quote (site.before ++ site.head)) (some '(') site.rest)
    else
      match cutAtClosing site.rest with
      | none => pure text
      | some (inner, rest) => do
        let args ← argumentValues evaluate (splitArgs inner)
        let literal ← literalOf (← callFunction setting name function args)
        return site.before ++ literal ++ (← next (quoteAfter quote (site.before ++ literal)) literal.getLast? rest)

theorem inlineCalls_step (bound : Nat) (quote previous : Option Char) (text : List Char) :
    inlineCalls setting evaluate name function (bound + 1) quote previous text =
      callStep setting evaluate name function (inlineCalls setting evaluate name function bound) quote previous text :=
  rfl

theorem inlineCalls_bound (bound : Nat) : ∀ (other : Nat) {quote previous : Option Char} (text : List Char),
    text.length < bound → text.length < other → inlineCalls setting evaluate name function bound quote previous text =
      inlineCalls setting evaluate name function other quote previous text := by
  induction bound with
  | zero =>
    intro other quote previous text less
    omega
  | succ bound ih =>
    intro other quote previous text less less'
    cases other with
    | zero => omega
    | succ other =>
      rw [inlineCalls_step, inlineCalls_step, callStep, callStep]
      cases found : findCall? name.toList previous text with
      | none => rfl
      | some site =>
        have shorter := findCall_shorter found
        dsimp only
        rw [ih other site.rest (by omega) (by omega)]
        split
        · rfl
        · cases cut : cutAtClosing site.rest with
          | none => rfl
          | some parts =>
            have less := cutAtClosing_shorter cut
            have same : ∀ quote previous, inlineCalls setting evaluate name function bound quote previous parts.2 =
                inlineCalls setting evaluate name function other quote previous parts.2 :=
              fun quote previous => ih other parts.2 (by omega) (by omega)
            simp only [same]

variable (setting evaluate name function)

def scanCalls (quote previous : Option Char) (text : List Char) : Reduction (List Char) :=
  inlineCalls setting evaluate name function (text.length + 1) quote previous text

def pushText (head : List Char) (action : Reduction (List Char)) : Reduction (List Char) := do
  return head ++ (← action)

theorem scanCalls_other {quote previous : Option Char} {c : Char} {text : List Char}
    (none : matchCall? name.toList previous (c :: text) = none) :
    scanCalls setting evaluate name function quote previous (c :: text) =
      pushText [c] (scanCalls setting evaluate name function (stepQuote quote c) (some c) text) := by
  unfold scanCalls pushText
  rw [List.length_cons, inlineCalls_step, inlineCalls_step, callStep, callStep, findCall_cons none]
  cases found : findCall? name.toList (some c) text with
  | none => simp
  | some site =>
    have shorter := findCall_shorter found
    dsimp only [Option.map_some]
    rw [isBlocked_cons, inlineCalls_bound (text.length + 1) text.length site.rest (by omega) (by omega)]
    split
    · simp [quoteAfter]
    · cases cut : cutAtClosing site.rest with
      | none => simp
      | some parts =>
        have less := cutAtClosing_shorter cut
        have same : ∀ quote previous, inlineCalls setting evaluate name function (text.length + 1) quote previous parts.2 =
            inlineCalls setting evaluate name function text.length quote previous parts.2 :=
          fun quote previous => inlineCalls_bound _ _ _ (by omega) (by omega)
        simp [same, quoteAfter]

variable {quote previous : Option Char} {head rest : List Char} (nonempty : head ≠ [])
  (matched : matchCall? name.toList previous (head ++ rest) = some rest)

include nonempty matched

theorem scanCalls_blocked (blocks : (quote.isSome || head.head?.any isQuote || blocksCall previous) = true) :
    scanCalls setting evaluate name function quote previous (head ++ rest) =
      pushText head (scanCalls setting evaluate name function (quoteAfter quote head) (some '(') rest) := by
  have positive := List.length_pos_iff.mpr nonempty
  have length : (head ++ rest).length = head.length + rest.length := List.length_append
  unfold scanCalls pushText
  rw [inlineCalls_step, callStep, findCall_here nonempty matched]
  dsimp only
  rw [isBlocked_here, if_pos blocks, List.nil_append,
    inlineCalls_bound (head ++ rest).length (rest.length + 1) rest (by omega) (by omega)]

theorem scanCalls_call (free : ¬ (quote.isSome || head.head?.any isQuote || blocksCall previous) = true)
    {inner behind : List Char} (cut : cutAtClosing rest = some (inner, behind)) :
    scanCalls setting evaluate name function quote previous (head ++ rest) = (do
      let args ← argumentValues evaluate (splitArgs inner)
      let literal ← literalOf (← callFunction setting name function args)
      pushText literal (scanCalls setting evaluate name function (quoteAfter quote literal) literal.getLast? behind)) := by
  have positive := List.length_pos_iff.mpr nonempty
  have length : (head ++ rest).length = head.length + rest.length := List.length_append
  have less := cutAtClosing_shorter cut
  have same : ∀ quote previous, inlineCalls setting evaluate name function (head ++ rest).length quote previous behind =
      inlineCalls setting evaluate name function (behind.length + 1) quote previous behind :=
    fun quote previous => inlineCalls_bound _ _ _ (by omega) (by omega)
  unfold scanCalls pushText
  rw [inlineCalls_step, callStep, findCall_here nonempty matched]
  dsimp only
  rw [isBlocked_here, if_neg free, cut]
  simp only [same, List.nil_append]

end

theorem copies_calls (setting : Setting) (evaluate : List Char → Reduction Value) (name : String) (function : Function) :
    Copies name.toList (scanCalls setting evaluate name function) pushText where
  nothing action := by simp [pushText]
  append first second action := by simp [pushText]
  other := scanCalls_other setting evaluate name function
  blocked nonempty matched blocks := scanCalls_blocked setting evaluate name function nonempty matched blocks

/-! ### What is copied -/

theorem isWord_of_isQuote {c : Char} (quote : isQuote c = true) : Text.isWord c = false := by
  simp only [isQuote, Bool.or_eq_true, beq_iff_eq] at quote
  rcases quote with rfl | rfl <;> decide

theorem stepQuote_word {c : Char} (wordy : Text.isWord c = true) : stepQuote none c = none := by
  have noQuote : isQuote c = false := by
    refine Bool.eq_false_iff.mpr fun quote => ?_
    rw [isWord_of_isQuote quote] at wordy
    cases wordy
  simp [stepQuote, noQuote]

/-- What holds no quote and starts a literal's content ends within it. -/
theorem split_content {quote : Char} {head content text rest : List Char} (free : quote ∉ head)
    (split : content ++ quote :: text = head ++ rest) : ∃ behind, content = head ++ behind ∧ rest = behind ++ quote :: text := by
  rcases List.append_eq_append_iff.mp split with ⟨more, whole, left⟩ | ⟨behind, whole, left⟩
  · cases more with
    | nil => exact ⟨[], by rw [whole, List.append_nil, List.append_nil], by simpa using left.symm⟩
    | cons d more =>
      rw [List.cons_append, List.cons.injEq] at left
      exact absurd (by rw [whole, left.1]; simp) free
  · exact ⟨behind, whole, left⟩

theorem quoteAfter_open {quote : Char} {head : List Char} (free : quote ∉ head) : quoteAfter (some quote) head = some quote := by
  induction head with
  | nil => rfl
  | cons d head ih =>
    have other : quote ≠ d := fun equal => free (equal ▸ List.mem_cons_self)
    have stays : stepQuote (some quote) d = some quote := by simp [stepQuote, other.symm]
    rw [quoteAfter, List.foldl_cons, stays]
    exact ih fun member => free (List.mem_cons_of_mem d member)

/-- A scan that copies marks, but for its `own`, the characters behind the first one of a word, and literals. -/
structure Passes {α : Type} (own : Char → Bool) (scan : Option Char → Option Char → List Char → α)
    (push : List Char → α → α) : Prop where
  nothing : ∀ result, push [] result = result
  append : ∀ first second result, push (first ++ second) result = push first (push second result)
  mark : ∀ {previous : Option Char} {c : Char} {text : List Char}, Text.isWord c = false → own c = false →
    scan none previous (c :: text) = push [c] (scan (stepQuote none c) (some c) text)
  inside : ∀ {previous : Option Char} {c : Char} {text : List Char}, previous.any Text.isWord = true →
    Text.isWord c = true → scan none previous (c :: text) = push [c] (scan none (some c) text)
  literal : ∀ {quote : Char} {content : List Char}, isQuote quote = true → quote ∉ content →
    ∀ (previous : Option Char) (text : List Char),
    scan (some quote) previous (content ++ quote :: text) = push (content ++ [quote]) (scan none (some quote) text)

section

variable {α : Type} {own : Char → Bool} {scan : Option Char → Option Char → List Char → α} {push : List Char → α → α}
  (passes : Passes own scan push)

include passes

theorem passes_inside {cs : List Char} (wordy : ∀ c ∈ cs, Text.isWord c = true) : ∀ {previous : Option Char},
    previous.any Text.isWord = true → ∀ tail : List Char,
    scan none previous (cs ++ tail) = push cs (scan none (cs.getLast?.or previous) tail) := by
  induction cs with
  | nil =>
    intro previous within tail
    rw [passes.nothing]
    rfl
  | cons c cs ih =>
    intro previous within tail
    have this := wordy c List.mem_cons_self
    have further := ih (fun d member => wordy d (List.mem_cons_of_mem c member))
      (show (some c).any Text.isWord = true from this) tail
    rw [List.cons_append, passes.inside within this, further, ← passes.append, List.getLast?_cons]
    congr 2
    cases cs.getLast? <;> rfl

/-- A word is copied when its first character is. -/
theorem passes_run {c : Char} {cs : List Char} (wordy : ∀ d ∈ c :: cs, Text.isWord d = true) {previous : Option Char}
    {tail : List Char} (starts : scan none previous (c :: (cs ++ tail)) = push [c] (scan none (some c) (cs ++ tail))) :
    scan none previous (c :: cs ++ tail) = push (c :: cs) (scan none (c :: cs).getLast? tail) := by
  have further := passes_inside passes (fun d member => wordy d (List.mem_cons_of_mem c member))
    (show (some c).any Text.isWord = true from wordy c List.mem_cons_self) tail
  rw [List.cons_append, starts, further, ← passes.append, List.getLast?_cons]
  congr 2
  cases cs.getLast? <;> rfl

theorem passes_quotation {quote : Char} (quoting : isQuote quote = true) (foreign : own quote = false)
    {content : List Char} (free : quote ∉ content) (previous : Option Char) (text : List Char) :
    scan none previous (quote :: (content ++ quote :: text)) =
      push (quote :: (content ++ [quote])) (scan none (some quote) text) := by
  have opens : stepQuote none quote = some quote := by simp [stepQuote, quoting]
  rw [passes.mark (isWord_of_isQuote quoting) foreign, opens, passes.literal quoting free, ← passes.append]
  rfl

theorem passes_blanks {blanks : List Char} (blank : ∀ c ∈ blanks, Text.isSpace c = true)
    (foreign : ∀ c ∈ blanks, own c = false) : ∀ (previous : Option Char) (tail : List Char),
    scan none previous (blanks ++ tail) = push blanks (scan none (blanks.getLast?.or previous) tail) := by
  induction blanks with
  | nil =>
    intro previous tail
    rw [passes.nothing]
    rfl
  | cons c blanks ih =>
    intro previous tail
    have space := blank c List.mem_cons_self
    have single : c ≠ '\'' := ne_of_isSpace space (by decide)
    have double : c ≠ '"' := ne_of_isSpace space (by decide)
    have noQuote : stepQuote none c = none := by simp [stepQuote, isQuote, single, double]
    have further := ih (fun d member => blank d (List.mem_cons_of_mem c member))
      (fun d member => foreign d (List.mem_cons_of_mem c member)) (some c) tail
    rw [List.cons_append, passes.mark (Text.isWord_of_isSpace space) (foreign c List.mem_cons_self), noQuote, further,
      ← passes.append, List.getLast?_cons]
    congr 2
    cases blanks.getLast? <;> rfl

end

section

variable {α : Type} {word : List Char} {scan : Option Char → Option Char → List Char → α} {push : List Char → α → α}
  (name : IsName word) (copies : Copies word scan push)

include name copies

/-- In a literal no call is replaced. -/
theorem copies_literal {quote : Char} (quoting : isQuote quote = true) (text : List Char) (length : Nat) :
    ∀ (content : List Char) (previous : Option Char), content.length = length → quote ∉ content →
    scan (some quote) previous (content ++ quote :: text) = push (content ++ [quote]) (scan none (some quote) text) := by
  induction length using Nat.strongRecOn with
  | _ length ih =>
  intro content previous same free
  cases content with
  | nil =>
    have closes : stepQuote (some quote) quote = none := by simp [stepQuote]
    rw [List.nil_append, copies.other (matchCall_mark name (isWord_of_isQuote quoting) previous text), closes]
    rfl
  | cons c content =>
    have other : quote ≠ c := fun equal => free (equal ▸ List.mem_cons_self)
    have stays : stepQuote (some quote) c = some quote := by simp [stepQuote, other.symm]
    cases matched : matchCall? word previous (c :: content ++ quote :: text) with
    | none =>
      have shorter : content.length < length := by rw [← same]; exact Nat.lt_succ_self _
      rw [List.cons_append] at matched ⊢
      rw [copies.other matched, stays,
        ih content.length shorter content (some c) rfl (fun member => free (List.mem_cons_of_mem c member)),
        ← copies.append]
      rfl
    | some rest =>
      -- the head of the call holds no quote, so it ends before the closing one
      obtain ⟨blanks, blank, split⟩ := matchCall_found matched
      have noQuote : quote ∉ word ++ blanks ++ ['('] := by
        intro member
        rw [List.mem_append, List.mem_append, List.mem_singleton] at member
        rcases member with (inWord | inBlanks) | opening
        · have wordy := name.whole quote inWord
          rw [isWord_of_isQuote quoting] at wordy
          cases wordy
        · simp only [isQuote, Bool.or_eq_true, beq_iff_eq] at quoting
          rcases quoting with rfl | rfl
          all_goals exact absurd (blank _ inBlanks) (by decide)
        · subst opening
          cases quoting
      obtain ⟨behind, inner, outer⟩ := split_content noQuote split
      have positive : (word ++ blanks ++ ['(']) ≠ [] := by simp
      rw [outer] at split matched
      rw [split] at matched ⊢
      have shorter : behind.length < length := by
        rw [← same, inner, List.length_append]
        have := List.length_pos_iff.mpr positive
        omega
      rw [copies.blocked positive matched rfl, quoteAfter_open noQuote,
        ih behind.length shorter behind (some '(') rfl
          (fun member => free (by rw [inner]; exact List.mem_append_right _ member)),
        ← copies.append, ← List.append_assoc, inner]

/-- A scan for calls copies all but the calls. -/
theorem passes_copies : Passes (fun _ => false) scan push where
  nothing := copies.nothing
  append := copies.append
  mark noWord _ := copies.other (matchCall_mark name noWord _ _)
  inside within wordy := by
    rw [copies.other (matchCall_inside within wordy _ _), stepQuote_word wordy]
  literal quoting free previous text := copies_literal name copies quoting text _ _ previous rfl free

end

end ProceduralScene.Expression
