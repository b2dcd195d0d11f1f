import Mathlib.Data.List.Range
import ProceduralScene.Proofs.LiteralTexts

/-!
The scanners of a text and the places of its quoted literals. Each scanner finds the quotes on its own, character by
character, from where it starts; the places are found once, from the start of the text. Where a scan starts outside of
the literals both mark the same characters, so a scanner cuts as if it looked at the places and at no quote.
-/

set_option autoImplicit false

namespace ProceduralScene.Expression

/-! ### Marks -/

@[simp] theorem length_literalMarks (text : List Char) : ∀ quote : Option Char, (literalMarks quote text).length = text.length := by
  induction text with
  | nil => exact fun _ => rfl
  | cons c text ih => exact fun quote => congrArg (· + 1) (ih (stepQuote quote c))

theorem literalMarks_append (first second : List Char) : ∀ quote : Option Char,
    literalMarks quote (first ++ second) = literalMarks quote first ++ literalMarks (quoteAfter quote first) second := by
  induction first with
  | nil => exact fun _ => rfl
  | cons c first ih => exact fun quote => congrArg (_ :: ·) (ih (stepQuote quote c))

theorem literalMarks_take (text : List Char) : ∀ (n : Nat) (quote : Option Char),
    literalMarks quote (text.take n) = (literalMarks quote text).take n := by
  induction text with
  | nil => intro n quote; simp [literalMarks]
  | cons c text ih =>
    intro n quote
    cases n with
    | zero => rfl
    | succ n => exact congrArg (_ :: ·) (ih n (stepQuote quote c))

theorem literalMarks_inside {quote : Option Char} {text : List Char} (inside : InLiterals quote text) :
    literalMarks quote text = List.replicate text.length true := by
  rw [← length_literalMarks text quote]
  exact List.eq_replicate_of_mem inside

/-! ### Places -/

theorem idxOf_split {c : Char} {text : List Char} {n : Nat} (found : text.idxOf? c = some n) :
    ∃ content behind, text = content ++ c :: behind ∧ c ∉ content ∧ content.length = n := by
  obtain ⟨bound, here, before⟩ := List.idxOf?_eq_some_iff.mp found
  refine ⟨text.take n, text.drop (n + 1), ?_, fun member => ?_, by rw [List.length_take]; omega⟩
  · conv_lhs => rw [← List.take_append_drop n text, List.drop_eq_getElem_cons bound, here]
  · obtain ⟨i, inside, same⟩ := List.mem_iff_getElem.mp member
    rw [List.length_take] at inside
    exact before i (by omega) (by rwa [List.getElem_take] at same)

-- The induction on a text that starts with no quote, with a literal, or with a quote that is never closed.
@[elab_as_elim]
theorem literalSpans_cases {motive : Nat → List Char → Prop} (nil : ∀ position, motive position [])
    (plain : ∀ position c rest, isQuote c = false → literalSpans position (c :: rest) = literalSpans (position + 1) rest →
      motive (position + 1) rest → motive position (c :: rest))
    (closed : ∀ position q content behind, isQuote q = true → q ∉ content →
      literalSpans position ((q :: (content ++ [q])) ++ behind) =
        (position, position + (content.length + 2)) :: literalSpans (position + (content.length + 2)) behind →
      motive (position + (content.length + 2)) behind → motive position ((q :: (content ++ [q])) ++ behind))
    (unclosed : ∀ position q rest, isQuote q = true → q ∉ rest →
      literalSpans position (q :: rest) = [(position, position + rest.length + 1)] → motive position (q :: rest))
    (position : Nat) (text : List Char) : motive position text := by
  fun_induction literalSpans position text with
  | case1 position => exact nil position
  | case2 position q rest quoting n found ih =>
    obtain ⟨content, behind, rfl, free, rfl⟩ := idxOf_split found
    have cut : (content ++ q :: behind).drop (content.length + 1) = behind := by
      rw [← List.singleton_append, ← List.append_assoc]
      exact List.drop_left' (by simp)
    have split : q :: (content ++ q :: behind) = (q :: (content ++ [q])) ++ behind := by simp
    rw [cut] at ih
    rw [split]
    refine closed position q content behind quoting free ?_ ih
    rw [← split, literalSpans, if_pos quoting, found]
    dsimp only
    rw [cut, Nat.add_assoc]
  | case3 position q rest quoting found =>
    refine unclosed position q rest quoting (List.idxOf?_eq_none_iff.mp found) ?_
    rw [literalSpans, if_pos quoting, found]
  | case4 position c rest plainly ih =>
    refine plain position c rest (Bool.eq_false_iff.mpr plainly) ?_ ih
    rw [literalSpans, if_neg plainly]

theorem le_of_mem_literalSpans (position : Nat) (text : List Char) :
    ∀ span ∈ literalSpans position text, position ≤ span.1 := by
  induction position, text using literalSpans_cases with
  | nil position => simp [literalSpans]
  | plain position c rest _ spans ih =>
    rw [spans]
    exact fun span member => Nat.le_of_succ_le (ih span member)
  | closed position q content behind _ _ spans ih =>
    rw [spans]
    rintro span (_ | ⟨_, member⟩)
    · exact Nat.le_refl position
    · exact Nat.le_trans (by omega) (ih span member)
  | unclosed position q rest _ _ spans => simp [spans]

theorem not_inSpans {position : Nat} {text : List Char} {place : Nat} (before : place < position) :
    inSpans (literalSpans position text) place = false := by
  refine List.any_eq_false.mpr fun span member inside => ?_
  have starts := le_of_mem_literalSpans position text span member
  simp only [Bool.and_eq_true, decide_eq_true_eq] at inside
  omega

theorem quoteAfter_quotation {q : Char} (quoting : isQuote q = true) {content : List Char} (free : q ∉ content) :
    quoteAfter none (q :: (content ++ [q])) = none := by
  have opens : stepQuote none q = some q := by simp [stepQuote, quoting]
  rw [quoteAfter, List.foldl_cons, opens]
  exact quoteAfter_literal free

theorem map_inSpans_literal {first length : Nat} {later : List (Nat × Nat)} :
    (List.range' first length).map (inSpans ((first, first + length) :: later)) = List.replicate length true := by
  refine (List.map_eq_replicate_iff.mpr fun place member => ?_).trans (by rw [List.length_range'])
  have bounds := List.mem_range'_1.mp member
  simp [inSpans, bounds]

theorem map_inSpans (position : Nat) (text : List Char) :
    (List.range' position text.length).map (inSpans (literalSpans position text)) = literalMarks none text := by
  induction position, text using literalSpans_cases with
  | nil position => rfl
  | plain position c rest noQuote spans ih =>
    have step : stepQuote none c = none := by simp [stepQuote, noQuote]
    rw [spans, List.length_cons, List.range'_succ, List.map_cons, not_inSpans (Nat.lt_succ_self position), ih, literalMarks,
      noQuote, step]
    rfl
  | closed position q content behind quoting free spans ih =>
    have size : (q :: (content ++ [q])).length = content.length + 2 := by simp
    -- no place behind this literal is within it, so only the later ones count there
    have later : (List.range' (position + (content.length + 2)) behind.length).map
        (inSpans ((position, position + (content.length + 2)) :: literalSpans (position + (content.length + 2)) behind)) =
        literalMarks none behind := by
      rw [← ih]
      refine List.map_congr_left fun place member => ?_
      have bounds := List.mem_range'_1.mp member
      have passed : ¬ place < position + (content.length + 2) := by omega
      simp [inSpans, passed]
    rw [spans, literalMarks_append, literalMarks_inside (inLiterals_quotation quoting free), quoteAfter_quotation quoting free,
      List.length_append, ← List.range'_append_1, List.map_append, size, map_inSpans_literal, later]
  | unclosed position q rest quoting free spans =>
    have inside : InLiterals none (q :: rest) :=
      inLiterals_cons.mpr ⟨fun _ => quoting, by simpa [stepQuote, quoting] using inLiterals_open free⟩
    rw [spans, literalMarks_inside inside, Nat.add_assoc]
    exact map_inSpans_literal

/-! ### Where a scan starts -/

/-- No literal holds the place in its inside; it may be the first one of a literal or the one behind it. -/
def OutsideLiterals (text : List Char) (place : Nat) : Prop :=
  ∀ span ∈ literalSpans 0 text, ¬ (span.1 < place ∧ place < span.2)

instance (text : List Char) (place : Nat) : Decidable (OutsideLiterals text place) :=
  inferInstanceAs (Decidable (∀ span ∈ literalSpans 0 text, _))

theorem quoteAfter_outside (position : Nat) (text : List Char) : ∀ n < text.length,
    (∀ span ∈ literalSpans position text, ¬ (span.1 < position + n ∧ position + n < span.2)) →
      quoteAfter none (text.take n) = none := by
  induction position, text using literalSpans_cases with
  | nil position => exact fun n within => absurd within (Nat.not_lt_zero n)
  | plain position c rest noQuote spans ih =>
    intro n within outside
    cases n with
    | zero => rfl
    | succ n =>
      have step : stepQuote none c = none := by simp [stepQuote, noQuote]
      rw [spans, Nat.add_comm n 1, ← Nat.add_assoc] at outside
      rw [List.take_succ_cons, quoteAfter, List.foldl_cons, step]
      exact ih n (Nat.lt_of_succ_lt_succ within) outside
  | closed position q content behind quoting free spans ih =>
    intro n within outside
    have size : (q :: (content ++ [q])).length = content.length + 2 := by simp
    rw [spans] at outside
    have apart := outside _ List.mem_cons_self
    rcases Nat.eq_zero_or_pos n with rfl | positive
    · rfl
    -- the scan starts behind the whole literal, which leaves no quote open
    obtain ⟨m, rfl⟩ : ∃ m, n = content.length + 2 + m := ⟨n - (content.length + 2), by dsimp only at apart; omega⟩
    rw [List.length_append, size] at within
    rw [List.take_append, size, List.take_of_length_le (by rw [size]; omega), quoteAfter_append,
      quoteAfter_quotation quoting free, Nat.add_sub_cancel_left]
    refine ih m (by omega) fun span member => ?_
    rw [Nat.add_assoc]
    exact outside span (List.mem_cons_of_mem _ member)
  | unclosed position q rest quoting free spans =>
    intro n within outside
    have apart := outside (position, position + rest.length + 1) (by rw [spans]; exact List.mem_cons_self)
    rw [List.length_cons] at within
    -- all but its first place is inside of a literal that is never closed
    obtain rfl : n = 0 := by dsimp only at apart; omega
    rfl

/-- A scan from a place outside of the literals marks what the places of the literals of the whole text mark. -/
theorem literalMarks_drop {text : List Char} {start : Nat} (outside : OutsideLiterals text start) :
    literalMarks none (text.drop start) = ((List.range text.length).map (inSpans (literalSpans 0 text))).drop start := by
  rw [List.range_eq_range', map_inSpans]
  rcases Nat.lt_or_ge start text.length with within | beyond
  · have split := literalMarks_append (text.take start) (text.drop start) none
    rw [List.take_append_drop, quoteAfter_outside 0 text start within (by rwa [Nat.zero_add])] at split
    rw [split, List.drop_left' (by rw [length_literalMarks, List.length_take]; omega)]
  · rw [List.drop_of_length_le beyond, List.drop_of_length_le (by rw [length_literalMarks]; exact beyond)]
    rfl

/-! ### Scanners that look at no quote -/

/-- The characters of a text, each with whether it stands within the places of a quoted literal. -/
def marked (text : List Char) : List (Char × Bool) :=
  text.zip ((List.range text.length).map (inSpans (literalSpans 0 text)))

/-- How many characters stand before the parenthesis that brings the depth from one to zero, where only characters that
are not marked count. -/
def closingUnmarked (depth : Int) : List (Char × Bool) → Option Nat
  | [] => none
  | (c, quoted) :: rest =>
    if quoted then (closingUnmarked depth rest).map (· + 1)
    else if c == '(' then (closingUnmarked (depth + 1) rest).map (· + 1)
    else if c == ')' then if depth == 1 then some 0 else (closingUnmarked (depth - 1) rest).map (· + 1)
    else (closingUnmarked depth rest).map (· + 1)

/-- Argument texts cut at the top-level commas that are not marked; `current` is reversed. -/
def splitUnmarked (depth : Int) (current : List Char) : List (Char × Bool) → List (List Char)
  | [] =>
    let tail := Text.trim current.reverse
    if tail.isEmpty then [] else [tail]
  | (c, quoted) :: rest =>
    if quoted then splitUnmarked depth (c :: current) rest
    else if c == ',' && depth == 0 then Text.trim current.reverse :: splitUnmarked depth [] rest
    else splitUnmarked (bracketStep depth c) (c :: current) rest

theorem closingOffset_unmarked (text : List Char) : ∀ (quote : Option Char) (depth : Int),
    closingOffset quote depth text = closingUnmarked depth (text.zip (literalMarks quote text)) := by
  induction text with
  | nil => exact fun _ _ => rfl
  | cons c text ih =>
    intro quote depth
    rw [literalMarks, List.zip_cons_cons, closingOffset, closingUnmarked]
    cases quote with
    | some q => simp only [Option.isSome_some, Bool.true_or, if_true, ih]
    | none =>
      cases quoting : isQuote c with
      | true =>
        have mark : c ≠ '(' ∧ c ≠ ')' := by constructor <;> (rintro rfl; cases quoting)
        simp [mark, ih]
      | false =>
        have step : stepQuote none c = none := by simp [stepQuote, quoting]
        simp only [Option.isSome_none, Bool.false_or, Bool.false_eq_true, if_false, step, ih]

theorem splitArgsFrom_unmarked (text : List Char) : ∀ (quote : Option Char) (depth : Int) (current : List Char),
    splitArgsFrom quote depth current text = splitUnmarked depth current (text.zip (literalMarks quote text)) := by
  induction text with
  | nil => exact fun _ _ _ => rfl
  | cons c text ih =>
    intro quote depth current
    rw [literalMarks, List.zip_cons_cons, splitArgsFrom, splitUnmarked]
    cases quote with
    | some q => simp only [Option.isSome_some, Bool.true_or, if_true, ih]
    | none =>
      cases quoting : isQuote c with
      | true =>
        have comma : c ≠ ',' := by rintro rfl; cases quoting
        have level : bracketStep depth c = depth := by
          simp only [isQuote, Bool.or_eq_true, beq_iff_eq] at quoting
          rcases quoting with rfl | rfl <;> rfl
        simp [comma, level, ih]
      | false =>
        have step : stepQuote none c = none := by simp [stepQuote, quoting]
        simp only [Option.isSome_none, Bool.false_or, Bool.false_eq_true, if_false, step, ih]

section

variable {text : List Char} {start : Nat} (outside : OutsideLiterals text start)

include outside

theorem zip_literalMarks_drop : (text.drop start).zip (literalMarks none (text.drop start)) = (marked text).drop start := by
  rw [literalMarks_drop outside, marked]
  exact List.drop_zipWith.symm

theorem matchingParen_unmarked :
    matchingParen text start = (closingUnmarked 0 ((marked text).drop start)).map (· + start) := by
  rw [matchingParen, closingOffset_unmarked, zip_literalMarks_drop outside]

theorem splitArgs_unmarked (count : Nat) :
    splitArgs ((text.drop start).take count) = splitUnmarked 0 [] (((marked text).drop start).take count) := by
  rw [splitArgs, splitArgsFrom_unmarked, literalMarks_take, ← zip_literalMarks_drop outside]
  exact congrArg (splitUnmarked 0 []) List.take_zipWith.symm

end

end ProceduralScene.Expression
