import ProceduralScene.Proofs.MissingVariables
import ProceduralScene.Proofs.SpelledValues

/-!
How many words of a text could be names. No stage of the reduction makes them more: a substituted literal counts at most as
much as the name that it stands for, a conditional keeps the words of its parts, and a call with its arguments leaves one
literal. Texts may grow in length on the way, and characters of different origin may come to stand in one word.
-/

set_option autoImplicit false

namespace ProceduralScene.Expression

/-! ### Words that could be names -/

/-- The characters that may start an identifier though they belong to no word: two letters with the marks of others, and
the signs `℘` and `℮`. -/
def otherStarts : List Nat := [6277, 6278, 8472, 8494]

/-- Whether an identifier of any script may start with the character. -/
def startsIdentifier (c : Char) : Bool :=
  (Text.isWord c && !Text.isDecimal c) || otherStarts.contains c.toNat

/-- Whether an identifier may start with `c` behind the character `previous`. -/
def beginsWord (previous : Option Char) (c : Char) : Bool :=
  startsIdentifier c && !(Text.isWord c && previous.any Text.isWord)

/-- How many words in a text that follows `previous` could be names. -/
def wordsFrom : Option Char → List Char → Nat
  | _, [] => 0
  | previous, c :: text => (if beginsWord previous c then 1 else 0) + wordsFrom (some c) text

/-- How many words of a text could be names. -/
def wordCount (text : List Char) : Nat := wordsFrom none text

theorem beginsWord_apart {previous : Option Char} (apart : previous.any Text.isWord = false) (c : Char) :
    beginsWord previous c = startsIdentifier c := by simp [beginsWord, apart]

theorem wordsFrom_alike {first second : Option Char} (alike : first.any Text.isWord = second.any Text.isWord)
    (text : List Char) : wordsFrom first text = wordsFrom second text := by
  cases text with
  | nil => rfl
  | cons c text => rw [wordsFrom, wordsFrom, beginsWord, beginsWord, alike]

theorem wordsFrom_apart {previous : Option Char} (apart : previous.any Text.isWord = false) (text : List Char) :
    wordsFrom previous text = wordCount text := wordsFrom_alike apart text

theorem wordsFrom_le (previous : Option Char) (text : List Char) : wordsFrom previous text ≤ wordCount text := by
  cases text with
  | nil => exact Nat.le_refl _
  | cons c text =>
    have apart : beginsWord none c = startsIdentifier c := beginsWord_apart rfl c
    rw [wordCount, wordsFrom, wordsFrom, apart, beginsWord]
    cases startsIdentifier c with
    | false => exact Nat.le_refl _
    | true => split <;> simp

/-- What stands before a text decides about its first word alone. -/
theorem wordCount_le_succ (previous : Option Char) (text : List Char) : wordCount text ≤ wordsFrom previous text + 1 := by
  cases text with
  | nil => exact Nat.zero_le _
  | cons c text =>
    rw [wordCount, wordsFrom, wordsFrom]
    split <;> omega

theorem wordsFrom_append (first : List Char) {second : List Char} : ∀ {previous : Option Char},
    wordsFrom previous (first ++ second) = wordsFrom previous first + wordsFrom (first.getLast?.or previous) second := by
  induction first with
  | nil => simp [wordsFrom]
  | cons c first ih =>
    intro previous
    rw [List.cons_append, wordsFrom, wordsFrom, ih, last_cons, Nat.add_assoc]

theorem last_concat (first : List Char) (c : Char) (previous : Option Char) :
    ((first ++ [c]).getLast?.or previous).any Text.isWord = Text.isWord c := by
  rw [List.getLast?_append, List.getLast?_singleton]
  rfl

theorem wordCount_le_length (text : List Char) : wordCount text ≤ text.length := by
  have from_ : ∀ previous, wordsFrom previous text ≤ text.length := by
    induction text with
    | nil => exact fun _ => Nat.le_refl _
    | cons c text ih =>
      intro previous
      have further := ih (some c)
      rw [wordsFrom, List.length_cons]
      split <;> omega
  exact from_ none

/-! ### Marks and blanks -/

/-- A character that separates words and starts none. -/
def separates (c : Char) : Bool := !Text.isWord c && !startsIdentifier c

theorem wordsFrom_separator {c : Char} (apart : separates c = true) (previous : Option Char) (text : List Char) :
    wordsFrom previous (c :: text) = wordCount text := by
  simp only [separates, Bool.and_eq_true, Bool.not_eq_true'] at apart
  rw [wordsFrom, wordsFrom_apart (by simp [apart.1]), beginsWord, apart.2]
  simp

theorem wordCount_trim (text : List Char) : wordCount (Text.trim text) ≤ wordCount text := by
  obtain ⟨before, after, blank, -, split, -⟩ := trim_split text
  have apart : (before.getLast?.or none).any Text.isWord = false := by
    cases last : before.getLast? with
    | none => rfl
    | some c => simp [Text.isWord_of_isSpace (blank c (List.mem_of_getLast? last))]
  have parts : wordCount text = wordsFrom none before + wordCount (Text.trim text ++ after) := by
    conv_lhs => rw [split]
    rw [wordCount, wordsFrom_append, wordsFrom_apart apart]
  rw [parts, wordCount, wordCount, wordsFrom_append]
  omega

theorem wordCount_dropAssignment (text : List Char) : wordCount (dropAssignment text) ≤ wordCount text := by
  have trimmed := wordCount_trim text
  rw [dropAssignment]
  split
  · rename_i same
    rwa [← same]
  · rename_i rest _ same
    rwa [same, wordCount, wordsFrom_separator (by decide)] at trimmed
  · exact trimmed

/-! ### Arguments and calls -/

theorem wordCount_splitArgsFrom (text : List Char) : ∀ {quote : Option Char} {depth : Int} (current : List Char),
    ((splitArgsFrom quote depth current text).map wordCount).sum ≤ wordCount (current.reverse ++ text) := by
  induction text with
  | nil =>
    intro quote depth current
    have trimmed := wordCount_trim current.reverse
    rw [splitArgsFrom, List.append_nil]
    split
    · simp
    · simpa using trimmed
  | cons c text ih =>
    intro quote depth current
    have taken : ∀ {quote' : Option Char} {depth' : Int}, ((splitArgsFrom quote' depth' (c :: current) text).map wordCount).sum ≤
        wordCount (current.reverse ++ c :: text) := by
      intro quote' depth'
      have further := @ih quote' depth' (c :: current)
      rwa [List.reverse_cons, List.append_assoc] at further
    rw [splitArgsFrom]
    split
    · exact taken
    · split
      · rename_i comma
        have same : c = ',' := by simpa using (Bool.and_eq_true_iff.mp comma).1
        subst same
        have trimmed := wordCount_trim current.reverse
        have further := @ih none depth []
        rw [List.reverse_nil, List.nil_append] at further
        have parts : wordCount (current.reverse ++ ',' :: text) = wordCount current.reverse + wordCount text := by
          rw [wordCount, wordsFrom_append, wordsFrom_separator (by decide)]
          rfl
        rw [List.map_cons, List.sum_cons, parts]
        exact Nat.add_le_add trimmed further
      · exact taken

theorem wordCount_splitArgs (text : List Char) : ((splitArgs text).map wordCount).sum ≤ wordCount text :=
  wordCount_splitArgsFrom text []

theorem wordCount_arg {text arg : List Char} (member : arg ∈ splitArgs text) : wordCount arg ≤ wordCount text :=
  (List.le_sum_of_mem (List.mem_map_of_mem member)).trans (wordCount_splitArgs text)

theorem wordsFrom_cut {text inner rest : List Char} (cut : cutAtClosing text = some (inner, rest)) (previous : Option Char) :
    wordsFrom previous text = wordsFrom previous inner + wordCount rest := by
  obtain ⟨split, -⟩ := cutAtClosing_split cut
  rw [split, wordsFrom_append, wordsFrom_separator (by decide)]

/-- A name that starts like an identifier. -/
def NamesWord (name : List Char) : Prop := ∃ c rest, name = c :: rest ∧ startsIdentifier c = true

/-- A call begins with a word of its own. -/
theorem findCall_begins {c : Char} {word : List Char} (starts : startsIdentifier c = true) (text : List Char) :
    ∀ {previous : Option Char} {site : CallSite}, findCall? (c :: word) previous text = some site →
      beginsWord (site.before.getLast?.or previous) c = true := by
  induction text with
  | nil =>
    intro previous site found
    cases found
  | cons d text ih =>
    intro previous site found
    rw [findCall?] at found
    cases matched : matchCall? (c :: word) previous (d :: text) with
    | some rest =>
      rw [matched] at found
      cases found
      obtain ⟨blanks, -, split⟩ := matchCall_found matched
      cases split
      -- the boundary before the name keeps its first character from going on in a word
      have boundary : isBoundary previous (some c) = true := by
        by_contra noBoundary
        rw [matchCall?, List.head?_cons, if_neg noBoundary] at matched
        cases matched
      simp only [isBoundary, Option.any_some, bne_iff_ne, ne_eq] at boundary
      show beginsWord previous c = true
      cases wordy : Text.isWord c <;> cases inside : previous.any Text.isWord <;> simp_all [beginsWord]
    | none =>
      rw [matched] at found
      obtain ⟨inner, further, rfl⟩ := Option.map_eq_some_iff.mp found
      rw [last_cons]
      exact ih further

section

variable {name text : List Char} {previous : Option Char} {site : CallSite} (found : findCall? name previous text = some site)

include found

theorem apart_passed : ((site.before ++ site.head).getLast?.or previous).any Text.isWord = false := by
  obtain ⟨blanks, -, head⟩ := findCall_head text found
  rw [head, ← List.append_assoc, last_concat]
  decide

theorem wordsFrom_passed : wordsFrom previous text = wordsFrom previous (site.before ++ site.head) + wordCount site.rest := by
  conv_lhs => rw [(findCall_split text found).1, ← List.append_assoc]
  rw [wordsFrom_append, wordsFrom_apart (apart_passed found)]

/-- A call counts one word for its name. -/
theorem wordsFrom_site (names : NamesWord name) :
    wordsFrom previous site.before + 1 + wordCount site.rest ≤ wordsFrom previous text := by
  obtain ⟨c, word, rfl, starts⟩ := names
  obtain ⟨blanks, -, head⟩ := findCall_head text found
  rw [wordsFrom_passed found, wordsFrom_append, head, List.cons_append, List.cons_append, wordsFrom,
    findCall_begins starts text found, if_pos rfl]
  omega

/-- Each argument of a call counts less than the text that it is cut from. -/
theorem wordCount_arg_lt (names : NamesWord name) {inner rest arg : List Char} (cut : cutAtClosing site.rest = some (inner, rest))
    (member : arg ∈ splitArgs inner) : wordCount arg < wordsFrom previous text := by
  have here := wordsFrom_site found names
  have parts := wordsFrom_cut cut none
  have less := wordCount_arg member
  change wordCount site.rest = wordCount inner + wordCount rest at parts
  omega

end

/-! ### Conditionals -/

theorem wordsFrom_ternary (previous : Option Char) (condition whenTrue whenFalse : List Char) :
    wordsFrom previous (ternaryText condition whenTrue whenFalse) =
      wordCount condition + wordCount whenTrue + wordCount whenFalse := by
  have marks : ∀ previous : Option Char, wordsFrom previous "))".toList = 0 := fun previous => by
    show wordsFrom previous [')', ')'] = 0
    rw [wordsFrom_separator (by decide)]
    rfl
  have between : ∀ (previous : Option Char) (second third : Char) (text : List Char), separates second = true →
      separates third = true → wordsFrom previous ([')', second, third] ++ text) = wordCount text := by
    intro previous second third text apart apart'
    rw [List.cons_append, wordsFrom_separator (by decide), List.cons_append, wordCount, wordsFrom_separator apart,
      List.cons_append, wordCount, wordsFrom_separator apart']
    rfl
  have text : ternaryText condition whenTrue whenFalse = '(' :: '(' :: (condition ++
      ([')', '?', '('] ++ (whenTrue ++ ([')', ':', '('] ++ (whenFalse ++ "))".toList))))) := by simp [ternaryText]
  rw [text, wordsFrom_separator (by decide), wordCount, wordsFrom_separator (by decide), wordCount, wordsFrom_append,
    between _ _ _ _ (by decide) (by decide), wordCount, wordsFrom_append, between _ _ _ _ (by decide) (by decide), wordCount,
    wordsFrom_append, marks]
  simp only [wordCount]
  omega

theorem apart_ternary {condition whenTrue whenFalse : List Char} (previous : Option Char) :
    ((ternaryText condition whenTrue whenFalse).getLast?.or previous).any Text.isWord = false := by
  have text : ternaryText condition whenTrue whenFalse =
      "((".toList ++ condition ++ ")?(".toList ++ whenTrue ++ "):(".toList ++ whenFalse ++ [')'] ++ [')'] := by
    simp [ternaryText]
  rw [text, last_concat]
  decide

theorem wordsFrom_convertPass (fuel : Nat) : ∀ {quote previous : Option Char} {text : List Char},
    wordsFrom previous (convertPass fuel quote previous text).2 ≤ wordsFrom previous text := by
  induction fuel with
  | zero => exact Nat.le_refl _
  | succ fuel ih =>
    intro quote previous text
    rw [convertPass]
    cases found : findCall? conditionalName previous text with
    | none => exact Nat.le_refl _
    | some site =>
      have passed : wordsFrom previous (site.before ++ site.head ++
          (convertPass fuel (quoteAfter quote (site.before ++ site.head)) (some '(') site.rest).2) ≤ wordsFrom previous text := by
        have further := @ih (quoteAfter quote (site.before ++ site.head)) (some '(') site.rest
        rw [wordsFrom_apart (by decide), wordsFrom_apart (by decide)] at further
        rw [wordsFrom_passed found, wordsFrom_append, wordsFrom_apart (apart_passed found)]
        omega
      dsimp only
      split
      · exact passed
      · split
        · exact Nat.le_refl _
        · rename_i inner after cut
          split
          · rename_i condition whenTrue whenFalse args
            -- the parts of the conditional keep their words, and what follows it still follows a parenthesis
            have here := wordsFrom_site found ⟨'i', ['f'], rfl, by decide⟩
            have parts := wordsFrom_cut cut none
            have split := wordCount_splitArgs inner
            have further := @ih (quoteAfter quote (site.before ++ ternaryText condition whenTrue whenFalse)) (some ')') after
            rw [wordsFrom_apart (by decide), wordsFrom_apart (by decide)] at further
            rw [args] at split
            simp only [List.map_cons, List.map_nil, List.sum_cons, List.sum_nil] at split
            change wordCount site.rest = wordCount inner + wordCount after at parts
            dsimp only
            rw [List.append_assoc, wordsFrom_append, wordsFrom_append, wordsFrom_ternary, wordsFrom_apart (apart_ternary _)]
            omega
          · exact passed

theorem wordCount_conditionals (passes : Nat) : ∀ {text : List Char},
    wordCount (convertConditionals passes text) ≤ wordCount text := by
  induction passes with
  | zero => exact Nat.le_refl _
  | succ passes ih =>
    intro text
    have once := @wordsFrom_convertPass (text.length + 1) none none text
    rw [convertConditionals]
    dsimp only
    split
    · exact ih.trans once
    · exact once

/-! ### Literals -/

/-- A text that counts no word, whatever it follows. -/
def Uncounted (text : List Char) : Prop := ∀ previous, wordsFrom previous text = 0

/-- A text that may stand for a word: it counts one word at most, and none when the word behind it can begin. -/
structure Slight (text : List Char) : Prop where
  nonempty : text ≠ []
  words : ∀ previous, wordsFrom previous text ≤ 1
  apart : text.getLast?.any Text.isWord = false → Uncounted text

theorem uncounted_append {first second : List Char} (none : Uncounted first) (none' : Uncounted second) :
    Uncounted (first ++ second) := fun previous => by rw [wordsFrom_append, none, none']

theorem uncounted_plain {text : List Char} (plain : ∀ c ∈ text, startsIdentifier c = false) : Uncounted text := by
  induction text with
  | nil => exact fun _ => rfl
  | cons c text ih =>
    intro previous
    rw [wordsFrom, ih fun d member => plain d (List.mem_cons_of_mem c member), beginsWord, plain c List.mem_cons_self]
    rfl

theorem slight_uncounted {text : List Char} (nonempty : text ≠ []) (none : Uncounted text) : Slight text :=
  ⟨nonempty, fun previous => by rw [none]; exact Nat.zero_le 1, fun _ => none⟩

theorem wordsFrom_inside (word : List Char) (wordy : ∀ c ∈ word, Text.isWord c = true) :
    ∀ {previous : Option Char}, previous.any Text.isWord = true → wordsFrom previous word = 0 := by
  induction word with
  | nil => exact fun _ => rfl
  | cons c word ih =>
    intro previous inside
    have here := wordy c List.mem_cons_self
    rw [wordsFrom, ih (fun d member => wordy d (List.mem_cons_of_mem c member)) (by simp [here]), beginsWord, here, inside]
    simp

theorem slight_word {word : List Char} (nonempty : word ≠ []) (wordy : ∀ c ∈ word, Text.isWord c = true) : Slight word := by
  refine ⟨nonempty, fun previous => ?_, fun apart => ?_⟩
  · cases word with
    | nil => exact Nat.zero_le 1
    | cons c word =>
      rw [wordsFrom, wordsFrom_inside word (fun d member => wordy d (List.mem_cons_of_mem c member))
        (by simp [wordy c List.mem_cons_self])]
      split <;> simp
  · rw [List.getLast?_eq_some_getLast nonempty, Option.any_some, wordy _ (List.getLast_mem nonempty)] at apart
    cases apart

theorem startsIdentifier_digit {c : Char} (digit : c.isDigit = true) : startsIdentifier c = false := by
  have range := isDigit_iff.mp digit
  have decimal : Text.isDecimal c = true := by rwa [isDecimal_ascii (by omega)]
  have other : c.toNat ∉ otherStarts := by
    intro member
    simp only [otherStarts, List.mem_cons, List.not_mem_nil, or_false] at member
    omega
  simp [startsIdentifier, decimal, other]

/-- Of the characters of numerals only the mark of an exponent may start a name, and it stands behind a digit. -/
theorem uncounted_numeral {numeral : Numeral} (shown : numeral.Shown) : Uncounted numeral.text := by
  have counted : ∀ (text : List Char), (∀ c ∈ text, Number.IsNumeral c) →
      ∀ previous, nameless previous text = true → wordsFrom previous text = 0 := by
    intro text
    induction text with
    | nil => exact fun _ _ _ => rfl
    | cons c text ih =>
      intro chars previous none
      rw [nameless, Bool.and_eq_true, Bool.or_eq_true, Bool.not_eq_true'] at none
      have here : beginsWord previous c = false := by
        rcases chars c List.mem_cons_self with digit | rfl | rfl | rfl | rfl
        · simp [beginsWord, startsIdentifier_digit digit]
        · simp [beginsWord, show startsIdentifier '.' = false by decide]
        · have inside := none.1.resolve_left (by decide)
          simp [beginsWord, inside, show Text.isWord 'e' = true by decide]
        · simp [beginsWord, show startsIdentifier '+' = false by decide]
        · simp [beginsWord, show startsIdentifier '-' = false by decide]
      rw [wordsFrom, here, ih (fun d member => chars d (List.mem_cons_of_mem c member)) _ none.2]
      rfl
  exact fun previous => counted _ (chars_numeral shown) previous (nameless_numeral shown previous)

theorem slight_signedLiteral (negative : Bool) {text : String} (nonempty : text.toList ≠ []) (none : Uncounted text.toList) :
    Slight (signedLiteral negative text) := by
  have brackets : Uncounted ['('] ∧ Uncounted [')'] :=
    ⟨uncounted_plain (List.forall_mem_singleton.mpr (by decide)), uncounted_plain (List.forall_mem_singleton.mpr (by decide))⟩
  unfold signedLiteral
  split
  · exact slight_uncounted (by simp) (uncounted_append (uncounted_append brackets.1 none) brackets.2)
  · exact slight_uncounted nonempty none

theorem slight_int {n : Int} {text : String} (shown : showInt n = .ok text) : Slight (signedLiteral (n < 0) text) := by
  refine slight_signedLiteral _ (bare_showInt shown).1 ?_
  rw [Json.showInt_text shown, toList_int]
  refine uncounted_append (uncounted_plain fun c member => ?_) (uncounted_plain fun c member => ?_)
  · split at member
    · rw [List.mem_singleton.mp member]
      decide
    · cases member
  · exact startsIdentifier_digit (Number.allDigits_toString _ c member)

theorem slight_float {x : Float} (finite : Number.isFinite x = true) (negative : Bool) :
    Slight (signedLiteral negative (Number.shortestText x)) := by
  obtain ⟨d, decoded⟩ : ∃ d, Number.decode x = .finite d := by
    unfold Number.isFinite at finite
    split at finite
    · exact ⟨_, ‹_›⟩
    · cases finite
  obtain ⟨numeral, text, shown, -⟩ := shortestText_shown decoded
  refine slight_signedLiteral _ (bare_shortestText x).1 ?_
  rw [text]
  refine uncounted_append (uncounted_plain fun c member => ?_) (uncounted_numeral shown)
  cases negative : d.negative with
  | true =>
    rw [negative] at member
    change c ∈ ['-'] at member
    rw [List.mem_singleton.mp member]
    decide
  | false =>
    rw [negative] at member
    cases member

theorem yields_liftResult {α : Type} (result : Except Failure α) (work : Workspace) :
    Yields (liftResult result) work fun value _ => result = .ok value := by
  cases result with
  | error failure => exact yields_throw
  | ok value => exact yields_pure rfl

theorem yields_keepInSlot (value : Value) (work : Workspace) : Yields (keepInSlot value) work fun literal _ => Slight literal := by
  unfold keepInSlot
  refine yields_get (yields_seq fun _ _ => yields_pure ?_)
  exact slight_word (by simp) (slotName_wordy work.slots.length)

theorem yields_literalOf (value : Value) (work : Workspace) : Yields (literalOf value) work fun literal _ => Slight literal := by
  unfold literalOf
  split
  · refine yields_pure ?_
    split <;> exact slight_word (by decide) (List.all_eq_true.mp (by decide))
  · split
    · exact yields_throw
    · exact yields_bind (yields_liftResult _ work) fun text _ shown => yields_pure (slight_int shown)
  · split
    · exact yields_pure (slight_float ‹_› _)
    · exact yields_keepInSlot _ _
  · exact yields_keepInSlot _ _

section

variable {literal : List Char} (slight : Slight literal)

include slight

/-- A literal in the place of a word: the word behind it may begin now, but then the literal counts none. -/
theorem wordsFrom_literal {last : Option Char} (wordy : last.any Text.isWord = true) (previous : Option Char) (rest : List Char) :
    wordsFrom previous literal + wordsFrom literal.getLast? rest ≤ wordsFrom last rest + 1 := by
  cases joined : literal.getLast?.any Text.isWord with
  | true =>
    have one := slight.words previous
    rw [wordsFrom_alike (joined.trans wordy.symm)]
    omega
  | false =>
    have less := wordsFrom_le literal.getLast? rest
    have most := wordCount_le_succ last rest
    rw [slight.apart joined]
    omega

theorem wordsFrom_spliced (previous : Option Char) (rest : List Char) :
    wordsFrom previous (literal ++ rest) = wordsFrom previous literal + wordsFrom literal.getLast? rest := by
  rw [wordsFrom_append, List.getLast?_eq_some_getLast slight.nonempty]
  rfl

end

/-! ### The substitution -/

theorem yields_substitute (setting : Setting) (shown name : String) (work : Workspace) :
    Yields (substitute setting shown name) work fun literal _ => Slight literal := by
  unfold substitute
  split
  · exact yields_seq fun _ _ => yields_pure (slight_word (by decide) (List.forall_mem_singleton.mpr (by decide)))
  · exact yields_literalOf _ _

/-- A name in a text counts one word, and the word behind it, if any, goes on. -/
theorem cutName_counts {text name behind : List Char} (cut : cutName? text = some (name, behind)) :
    text.drop name.length = behind ∧ ∃ last : Option Char, last.any Text.isWord = true ∧
      wordCount text = wordsFrom last behind + 1 := by
  obtain ⟨identifier, rfl, rfl⟩ := cutName_found cut
  have name := Spelling.isName_identifier identifier
  have last : (identifier.text.getLast?.or none).any Text.isWord = true := by
    rw [List.getLast?_eq_some_getLast name.nonempty]
    exact name.whole _ (List.getLast_mem name.nonempty)
  have begins : beginsWord none identifier.first = true := by
    rw [beginsWord_apart rfl]
    simp [startsIdentifier, isWord_of_isNameStart identifier.starts, (isNameStart_begins identifier.starts).1]
  have one : wordsFrom none identifier.text = 1 := by
    rw [Identifier.text, wordsFrom, begins, wordsFrom_inside _ (fun c member => name.whole c (List.mem_cons_of_mem _ member))
      (by simpa using isWord_of_isNameStart identifier.starts)]
    rfl
  exact ⟨List.drop_left, _, last, by rw [wordCount, wordsFrom_append, one, Nat.add_comm]⟩

theorem yields_substituteVariables (setting : Setting) (shown : String) (text : List Char) :
    ∀ {quote : Option Char} {skip : Nat} (work : Workspace), Yields (substituteVariables setting shown quote skip text) work
      fun written _ => ∀ previous, wordsFrom previous written ≤ wordsFrom previous (text.drop skip) := by
  induction text with
  | nil => exact fun work => yields_pure fun previous => by simp [wordsFrom]
  | cons c text ih =>
    intro quote skip work
    cases skip with
    | succ skip => exact ih work
    | zero =>
      have copies : ∀ work, Yields (do return c :: (← substituteVariables setting shown (stepQuote quote c) 0 text)) work
          fun written _ => ∀ previous, wordsFrom previous written ≤ wordsFrom previous (c :: text) := fun work =>
        yields_bind (ih work) fun written _ less => yields_pure fun previous => Nat.add_le_add_left (less (some c)) _
      rw [substituteVariables]
      dsimp only
      split
      · rename_i dollar
        have same : c = '$' := by simpa using (Bool.and_eq_true_iff.mp dollar).1
        subst same
        split
        · -- the name and the literal that stands for it end before the same rest
          rename_i name behind cut
          obtain ⟨rest, last, wordy, counted⟩ := cutName_counts cut
          refine yields_bind (yields_substitute setting shown _ work) fun literal after slight => ?_
          refine yields_bind (ih after) fun written _ less => yields_pure fun previous => ?_
          rw [rest] at less
          have here := wordsFrom_literal slight wordy previous behind
          have further := less literal.getLast?
          rw [wordsFrom_spliced slight, List.drop_zero, wordsFrom_separator (by decide), counted]
          omega
        · exact copies work
      · exact copies work

/-! ### The calls of functions -/

theorem yields_inlineCalls {setting : Setting} {evaluate : List Char → Reduction Value} {name : String}
    (names : NamesWord name.toList) (function : Function) (fuel : Nat) : ∀ {quote previous : Option Char} {text : List Char}
    (work : Workspace), Yields (inlineCalls setting evaluate name function fuel quote previous text) work
      fun written _ => wordsFrom previous written ≤ wordsFrom previous text := by
  induction fuel with
  | zero => exact fun _ => yields_pure (Nat.le_refl _)
  | succ fuel ih =>
    intro quote previous text work
    rw [inlineCalls]
    cases found : findCall? name.toList previous text with
    | none => exact yields_pure (Nat.le_refl _)
    | some site =>
      dsimp only
      split
      · -- a call in a literal is passed over
        refine yields_bind (ih work) fun written _ less => yields_pure ?_
        rw [wordsFrom_apart (by decide), wordsFrom_apart (by decide)] at less
        rw [wordsFrom_passed found, wordsFrom_append, wordsFrom_apart (apart_passed found)]
        omega
      · split
        · exact yields_pure (Nat.le_refl _)
        · -- the literal of the result stands for the name of the call
          rename_i inner rest cut
          refine yields_seq fun args _ => yields_seq fun result _ => ?_
          refine yields_bind (yields_literalOf result _) fun literal after slight => ?_
          refine yields_bind (ih after) fun written _ less => yields_pure ?_
          have here := wordsFrom_site found names
          have parts := wordsFrom_cut cut none
          have word : (some 'a').any Text.isWord = true := by decide
          have placed := wordsFrom_literal slight word (site.before.getLast?.or previous) rest
          have most := wordsFrom_le (some 'a') rest
          change wordCount site.rest = wordCount inner + wordCount rest at parts
          rw [List.append_assoc, wordsFrom_append, wordsFrom_spliced slight]
          omega

end ProceduralScene.Expression
