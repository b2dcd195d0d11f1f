import ProceduralScene.Proofs.PieceArguments

/-!
Argument texts of a call, character by character. A text is enclosed when its quotes and brackets are closed and no
comma stands outside them; a call of enclosed arguments is cut at its own parenthesis and at the commas between them.
-/

set_option autoImplicit false

namespace ProceduralScene.Expression

/-- The quote that is open at a place of a text, and how many parentheses and brackets. -/
structure Depth where
  quote : Option Char
  round : Nat
  square : Nat
  deriving DecidableEq

namespace Depth

def outside : Depth := ⟨none, 0, 0⟩

-- A closing character needs its opening one, and a comma needs something open around it.
def step (depth : Depth) (c : Char) : Option Depth :=
  if depth.quote.isSome then some { depth with quote := stepQuote depth.quote c }
  else if c = '(' then some { depth with round := depth.round + 1 }
  else if c = '[' then some { depth with square := depth.square + 1 }
  else if c = ')' then if depth.round = 0 then none else some { depth with round := depth.round - 1 }
  else if c = ']' then if depth.square = 0 then none else some { depth with square := depth.square - 1 }
  else if c = ',' ∧ depth.round + depth.square = 0 then none
  else some { depth with quote := stepQuote none c }

def walk : Depth → List Char → Option Depth
  | depth, [] => some depth
  | depth, c :: text => (depth.step c).bind fun next => next.walk text

/-- What a step has read. -/
inductive Steps : Depth → Char → Depth → Prop
  | content (q : Char) (round square : Nat) (c : Char) :
      Steps ⟨some q, round, square⟩ c ⟨stepQuote (some q) c, round, square⟩
  | opens (round square : Nat) : Steps ⟨none, round, square⟩ '(' ⟨none, round + 1, square⟩
  | opensList (round square : Nat) : Steps ⟨none, round, square⟩ '[' ⟨none, round, square + 1⟩
  | closes (round square : Nat) : Steps ⟨none, round + 1, square⟩ ')' ⟨none, round, square⟩
  | closesList (round square : Nat) : Steps ⟨none, round, square + 1⟩ ']' ⟨none, round, square⟩
  | other {c : Char} {round square : Nat} (unbracketed : c ≠ '(' ∧ c ≠ '[' ∧ c ≠ ')' ∧ c ≠ ']')
      (kept : c = ',' → round + square ≠ 0) : Steps ⟨none, round, square⟩ c ⟨stepQuote none c, round, square⟩

theorem steps_of_step {depth next : Depth} {c : Char} (stepped : depth.step c = some next) : Steps depth c next := by
  obtain ⟨quote, round, square⟩ := depth
  cases quote with
  | some q =>
    cases stepped
    exact .content q round square c
  | none =>
    simp only [step, Option.isSome_none, Bool.false_eq_true, if_false] at stepped
    by_cases opens : c = '('
    · subst opens
      cases stepped
      exact .opens round square
    by_cases opensList : c = '['
    · subst opensList
      cases stepped
      exact .opensList round square
    by_cases closes : c = ')'
    · subst closes
      cases round with
      | zero => cases stepped
      | succ round =>
        cases stepped
        exact .closes round square
    by_cases closesList : c = ']'
    · subst closesList
      cases square with
      | zero => cases stepped
      | succ square =>
        cases stepped
        exact .closesList round square
    rw [if_neg opens, if_neg opensList, if_neg closes, if_neg closesList] at stepped
    split at stepped
    · cases stepped
    · rename_i kept
      cases stepped
      exact .other ⟨opens, opensList, closes, closesList⟩ fun comma none => kept ⟨comma, none⟩

theorem step_of_steps {depth next : Depth} {c : Char} (steps : Steps depth c next) : depth.step c = some next := by
  cases steps with
  | other unbracketed kept =>
    obtain ⟨opens, opensList, closes, closesList⟩ := unbracketed
    simp only [step, Option.isSome_none, Bool.false_eq_true, if_false, opens, opensList, closes, closesList]
    rw [if_neg fun outside => kept outside.1 outside.2]
  | _ => rfl

/-! ### A run of steps -/

theorem walk_append (first second : List Char) : ∀ depth : Depth,
    depth.walk (first ++ second) = (depth.walk first).bind fun next => next.walk second := by
  induction first with
  | nil => exact fun _ => rfl
  | cons c first ih =>
    intro depth
    rw [List.cons_append, walk, walk]
    cases depth.step c with
    | none => rfl
    | some next => exact ih next

theorem walk_cons {depth after : Depth} {c : Char} {text : List Char} (walked : depth.walk (c :: text) = some after) :
    ∃ next, Steps depth c next ∧ next.walk text = some after := by
  obtain ⟨next, stepped, further⟩ := Option.bind_eq_some_iff.mp walked
  exact ⟨next, steps_of_step stepped, further⟩

theorem steps_quote {depth next : Depth} {c : Char} (steps : Steps depth c next) :
    next.quote = stepQuote depth.quote c := by
  cases steps <;> rfl

theorem steps_within {depth next : Depth} {c : Char} (steps : Steps depth c next) (round square : Nat) :
    Steps ⟨depth.quote, depth.round + round, depth.square + square⟩ c
      ⟨next.quote, next.round + round, next.square + square⟩ := by
  cases steps with
  | content q r s c => exact .content q _ _ c
  | opens r s => simpa only [Nat.add_right_comm] using Steps.opens (r + round) (s + square)
  | opensList r s => simpa only [Nat.add_right_comm] using Steps.opensList (r + round) (s + square)
  | closes r s => simpa only [Nat.add_right_comm] using Steps.closes (r + round) (s + square)
  | closesList r s => simpa only [Nat.add_right_comm] using Steps.closesList (r + round) (s + square)
  | other unbracketed kept => exact .other unbracketed fun comma none => kept comma (by dsimp only at none; omega)

section

variable {text : List Char}

theorem walk_quote : ∀ {depth after : Depth}, depth.walk text = some after →
    after.quote = quoteAfter depth.quote text := by
  induction text with
  | nil =>
    intro depth after walked
    cases walked
    rfl
  | cons c text ih =>
    intro depth after walked
    obtain ⟨next, steps, further⟩ := walk_cons walked
    rw [ih further, steps_quote steps]
    rfl

theorem walk_within (round square : Nat) : ∀ {depth after : Depth}, depth.walk text = some after →
    walk ⟨depth.quote, depth.round + round, depth.square + square⟩ text =
      some ⟨after.quote, after.round + round, after.square + square⟩ := by
  induction text with
  | nil =>
    intro depth after walked
    cases walked
    rfl
  | cons c text ih =>
    intro depth after walked
    obtain ⟨next, steps, further⟩ := walk_cons walked
    rw [walk, step_of_steps (steps_within steps round square)]
    exact ih further

theorem walk_blanks (blank : ∀ c ∈ text, Text.isSpace c = true) (round square : Nat) :
    walk ⟨none, round, square⟩ text = some ⟨none, round, square⟩ := by
  induction text with
  | nil => rfl
  | cons c text ih =>
    have mark := (isMark_spec (isMark_space (blank c List.mem_cons_self))).2
    have comma : c ≠ ',' := ne_of_isSpace (blank c List.mem_cons_self) (by decide)
    have steps : Steps ⟨none, round, square⟩ c ⟨stepQuote none c, round, square⟩ :=
      .other ⟨mark.opens, mark.opensList, mark.closes, mark.closesList⟩ fun same => absurd same comma
    rw [walk, step_of_steps steps, stepQuote_quiet mark]
    exact ih fun d member => blank d (List.mem_cons_of_mem c member)

theorem walk_group {round square : Nat} (within : walk ⟨none, round + 1, square⟩ text = some ⟨none, round + 1, square⟩)
    (tail : List Char) : walk ⟨none, round, square⟩ ('(' :: (text ++ ')' :: tail)) = walk ⟨none, round, square⟩ tail := by
  have opens : step ⟨none, round, square⟩ '(' = some ⟨none, round + 1, square⟩ := rfl
  have closes : step ⟨none, round + 1, square⟩ ')' = some ⟨none, round, square⟩ := rfl
  rw [walk, opens, Option.bind_some, walk_append, within, Option.bind_some, walk, closes, Option.bind_some]

/-! ### Cuts -/

theorem closingOffset_steps {depth next : Depth} {c : Char} (steps : Steps depth c next) (tail : List Char) :
    closingOffset depth.quote (depth.round + 1) (c :: tail) =
      (closingOffset next.quote (next.round + 1) tail).map (· + 1) := by
  cases steps with
  | content q round square c => rfl
  | opens round square => rfl
  | opensList round square => rfl
  | closes round square =>
    have within : ¬ (round + 1 : Int) = 0 := by omega
    simp [closingOffset, within]
  | closesList round square => rfl
  | other unbracketed kept => simp [closingOffset, unbracketed]

theorem closingOffset_walk (tail : List Char) : ∀ {depth after : Depth}, depth.walk text = some after →
    closingOffset depth.quote (depth.round + 1) (text ++ tail) =
      (closingOffset after.quote (after.round + 1) tail).map (· + text.length) := by
  induction text with
  | nil =>
    intro depth after walked
    cases walked
    simp
  | cons c text ih =>
    intro depth after walked
    obtain ⟨next, steps, further⟩ := walk_cons walked
    rw [List.cons_append, closingOffset_steps steps, ih further, Option.map_map]
    rfl

theorem splitArgsFrom_steps {depth next : Depth} {c : Char} (steps : Steps depth c next) (current tail : List Char) :
    splitArgsFrom depth.quote (depth.round + depth.square) current (c :: tail) =
      splitArgsFrom next.quote (next.round + next.square) (c :: current) tail := by
  cases steps with
  | content q round square c => rfl
  | opens round square =>
    refine (splitArgsFrom_opening true _ current tail).trans (congrArg (splitArgsFrom none · _ tail) ?_)
    push_cast
    ring
  | opensList round square =>
    refine (splitArgsFrom_opening false _ current tail).trans (congrArg (splitArgsFrom none · _ tail) ?_)
    push_cast
    ring
  | closes round square =>
    refine (splitArgsFrom_closing true _ current tail).trans (congrArg (splitArgsFrom none · _ tail) ?_)
    push_cast
    ring
  | closesList round square =>
    refine (splitArgsFrom_closing false _ current tail).trans (congrArg (splitArgsFrom none · _ tail) ?_)
    push_cast
    ring
  | @other c round square unbracketed kept =>
    obtain ⟨opens, opensList, closes, closesList⟩ := unbracketed
    have noCut : (c == ',' && ((round : Int) + square == 0)) = false := by
      by_cases comma : c = ','
      · have inside := kept comma
        simp only [Bool.and_eq_false_iff, beq_eq_false_iff_ne]
        omega
      · simp [comma]
    have level : bracketStep (round + square) c = round + square := by
      simp [bracketStep, opens, opensList, closes, closesList]
    rw [splitArgsFrom]
    simp only [Option.isSome_none, Bool.false_eq_true, if_false, noCut, level]

theorem splitArgsFrom_walk (tail : List Char) : ∀ {depth after : Depth} (current : List Char),
    depth.walk text = some after → splitArgsFrom depth.quote (depth.round + depth.square) current (text ++ tail) =
      splitArgsFrom after.quote (after.round + after.square) (text.reverse ++ current) tail := by
  induction text with
  | nil =>
    intro depth after current walked
    cases walked
    rfl
  | cons c text ih =>
    intro depth after current walked
    obtain ⟨next, steps, further⟩ := walk_cons walked
    rw [List.cons_append, splitArgsFrom_steps steps, ih (c :: current) further, List.reverse_cons, List.append_assoc]
    rfl

end

end Depth

/-! ### Enclosed texts -/

def Enclosed (text : List Char) : Prop := Depth.outside.walk text = some Depth.outside

instance (text : List Char) : Decidable (Enclosed text) := inferInstanceAs (Decidable (_ = _))

theorem isQuote_quoteAfter {q : Char} (text : List Char) : ∀ {quote : Option Char}, (∀ q ∈ quote, isQuote q = true) →
    quoteAfter quote text = some q → isQuote q = true := by
  induction text with
  | nil => exact fun quoting last => quoting q last
  | cons c text ih =>
    refine fun {quote} quoting last => ih (fun d opened => ?_) last
    cases quote with
    | none =>
      rw [stepQuote] at opened
      split at opened
      · cases opened
        assumption
      · cases opened
    | some q =>
      rw [stepQuote] at opened
      split at opened
      · cases opened
      · cases opened
        exact quoting _ rfl

theorem quoteAfter_blanks {blanks : List Char} (blank : ∀ c ∈ blanks, Text.isSpace c = true) {text : List Char}
    (closed : quoteAfter none (text ++ blanks) = none) : quoteAfter none text = none := by
  rw [quoteAfter_append] at closed
  cases last : quoteAfter none text with
  | none => rfl
  | some q =>
    have quoting := isQuote_quoteAfter text (by simp) last
    have foreign : q ∉ blanks := fun member => by
      have solid := isSpace_quote quoting
      rw [blank q member] at solid
      cases solid
    rw [last, quoteAfter_open foreign] at closed
    cases closed

theorem closingOffset_here (behind : List Char) : closingOffset none 1 (')' :: behind) = some 0 := by
  simp [closingOffset]

theorem cutAtClosing_here {inner behind : List Char}
    (closes : closingOffset none 1 (inner ++ ')' :: behind) = some inner.length) :
    cutAtClosing (inner ++ ')' :: behind) = some (inner, behind) := by
  rw [cutAtClosing, closes]
  simp

section

variable {text : List Char} (enclosed : Enclosed text)

include enclosed

theorem quoteAfter_enclosed : quoteAfter none text = none := (Depth.walk_quote enclosed).symm

theorem walk_enclosed (round square : Nat) :
    Depth.walk ⟨none, round, square⟩ text = some ⟨none, round, square⟩ := by
  simpa [Depth.outside] using Depth.walk_within round square enclosed

theorem closingOffset_enclosed (tail : List Char) :
    closingOffset none 1 (text ++ tail) = (closingOffset none 1 tail).map (· + text.length) :=
  Depth.closingOffset_walk tail enclosed

theorem cutAtClosing_enclosed (behind : List Char) : cutAtClosing (text ++ ')' :: behind) = some (text, behind) := by
  refine cutAtClosing_here ?_
  rw [closingOffset_enclosed enclosed, closingOffset_here]
  simp

theorem splitArgsFrom_enclosed (current tail : List Char) :
    splitArgsFrom none 0 current (text ++ tail) = splitArgsFrom none 0 (text.reverse ++ current) tail :=
  Depth.splitArgsFrom_walk tail current enclosed

/-- An enclosed text is one argument, or none when it is blank. -/
theorem length_splitArgs_enclosed : (splitArgs text).length ≤ 1 := by
  have whole := splitArgsFrom_enclosed enclosed [] []
  rw [List.append_nil, List.append_nil] at whole
  rw [splitArgs, whole, splitArgsFrom]
  split <;> simp

theorem enclosed_trim : Enclosed (Text.trim text) := by
  obtain ⟨before, after, blank, blank', split, -⟩ := trim_split text
  have closed := quoteAfter_enclosed enclosed
  rw [Enclosed, split, Depth.walk_append, show Depth.outside.walk before = _ from Depth.walk_blanks blank 0 0,
    Option.bind_some, Depth.walk_append] at enclosed
  obtain ⟨⟨quote, round, square⟩, walked, further⟩ := Option.bind_eq_some_iff.mp enclosed
  -- blanks close no literal, so none is open before the last ones
  have last : quote = none := by
    rw [split, quoteAfter_append, quoteAfter_quiet fun c member => (isMark_spec (isMark_space (blank c member))).2] at closed
    exact (Depth.walk_quote walked).trans (quoteAfter_blanks blank' closed)
  subst last
  rw [Depth.walk_blanks blank' round square] at further
  exact walked.trans further

end

/-! ### The arguments of a conditional -/

section

variable {condition whenTrue whenFalse : List Char}

theorem closingOffset_comma (text : List Char) :
    closingOffset none 1 (',' :: text) = (closingOffset none 1 text).map (· + 1) := rfl

theorem splitArgsFrom_comma (current text : List Char) :
    splitArgsFrom none 0 current (',' :: text) = Text.trim current.reverse :: splitArgsFrom none 0 [] text := rfl

variable (first : Enclosed condition) (second : Enclosed whenTrue) (third : Enclosed whenFalse)

include first second third

theorem cutAtClosing_arguments (behind : List Char) :
    cutAtClosing (condition ++ ',' :: (whenTrue ++ ',' :: (whenFalse ++ ')' :: behind))) =
      some (condition ++ ',' :: (whenTrue ++ ',' :: whenFalse), behind) := by
  have whole : condition ++ ',' :: (whenTrue ++ ',' :: (whenFalse ++ ')' :: behind)) =
      (condition ++ ',' :: (whenTrue ++ ',' :: whenFalse)) ++ ')' :: behind := by simp
  rw [whole]
  refine cutAtClosing_here ?_
  rw [← whole, closingOffset_enclosed first, closingOffset_comma, closingOffset_enclosed second, closingOffset_comma,
    closingOffset_enclosed third, closingOffset_here]
  simp only [Option.map_some, List.length_append, List.length_cons, Option.some.injEq]
  omega

theorem splitArgs_arguments (solid : Text.trim whenFalse ≠ []) :
    splitArgs (condition ++ ',' :: (whenTrue ++ ',' :: whenFalse)) =
      [Text.trim condition, Text.trim whenTrue, Text.trim whenFalse] := by
  have last := splitArgsFrom_enclosed third [] []
  rw [splitArgs, splitArgsFrom_enclosed first, splitArgsFrom_comma, splitArgsFrom_enclosed second, splitArgsFrom_comma]
  rw [List.append_nil] at last
  rw [last, splitArgsFrom]
  simp [solid]

def branchesText (condition whenTrue whenFalse : List Char) : List Char :=
  '(' :: (condition ++ ')' :: '?' :: '(' :: (whenTrue ++ ')' :: ':' :: '(' :: (whenFalse ++ [')'])))

omit first second third in
theorem ternaryText_eq (condition whenTrue whenFalse : List Char) :
    ternaryText condition whenTrue whenFalse = '(' :: (branchesText condition whenTrue whenFalse ++ [')']) := by
  simp [ternaryText, branchesText]

theorem walk_branches (round square : Nat) :
    Depth.walk ⟨none, round, square⟩ (branchesText condition whenTrue whenFalse) = some ⟨none, round, square⟩ := by
  have mark : ∀ c : Char, c = '?' ∨ c = ':' → ∀ text : List Char,
      Depth.walk ⟨none, round, square⟩ (c :: text) = Depth.walk ⟨none, round, square⟩ text := by
    rintro c (rfl | rfl) text <;> rfl
  rw [branchesText, Depth.walk_group (walk_enclosed first _ _), mark '?' (by simp),
    Depth.walk_group (walk_enclosed second _ _), mark ':' (by simp), Depth.walk_group (walk_enclosed third _ _)]
  rfl

theorem walk_ternary (round square : Nat) (tail : List Char) :
    Depth.walk ⟨none, round, square⟩ (ternaryText condition whenTrue whenFalse ++ tail) =
      Depth.walk ⟨none, round, square⟩ tail := by
  rw [ternaryText_eq, List.cons_append, List.append_assoc]
  exact Depth.walk_group (walk_branches first second third _ _) tail

theorem walk_arguments (round square : Nat) :
    Depth.walk ⟨none, round + 1, square⟩ (condition ++ ',' :: (whenTrue ++ ',' :: whenFalse)) =
      some ⟨none, round + 1, square⟩ := by
  have comma : ∀ text : List Char,
      Depth.walk ⟨none, round + 1, square⟩ (',' :: text) = Depth.walk ⟨none, round + 1, square⟩ text := by
    intro text
    simp [Depth.walk, Depth.step, stepQuote, isQuote]
  rw [Depth.walk_append, walk_enclosed first, Option.bind_some, comma, Depth.walk_append, walk_enclosed second,
    Option.bind_some, comma]
  exact walk_enclosed third _ _

end

/-! ### What stands in literals -/

/-- The characters of the quoted literals, their quotes included. -/
def literalPart (quote : Option Char) : List Char → List Char
  | [] => []
  | c :: text =>
    let further := literalPart (stepQuote quote c) text
    if quote.isSome || isQuote c then c :: further else further

theorem literalPart_append (first second : List Char) : ∀ quote : Option Char,
    literalPart quote (first ++ second) = literalPart quote first ++ literalPart (quoteAfter quote first) second := by
  induction first with
  | nil => exact fun _ => rfl
  | cons c first ih =>
    intro quote
    simp only [List.cons_append, literalPart, ih]
    split <;> rfl

theorem literalPart_mark {c : Char} (mark : isQuote c = false) (text : List Char) :
    literalPart none (c :: text) = literalPart none text := by simp [literalPart, mark, stepQuote]

theorem literalPart_blanks {blanks : List Char} (blank : ∀ c ∈ blanks, Text.isSpace c = true) (tail : List Char) :
    literalPart none (blanks ++ tail) = literalPart none tail := by
  induction blanks with
  | nil => rfl
  | cons c blanks ih =>
    have mark := (isMark_spec (isMark_space (blank c List.mem_cons_self))).2.quote
    rw [List.cons_append, literalPart_mark mark]
    exact ih fun d member => blank d (List.mem_cons_of_mem c member)

theorem literalPart_enclosed {text : List Char} (enclosed : Enclosed text) (tail : List Char) :
    literalPart none (text ++ tail) = literalPart none text ++ literalPart none tail := by
  rw [literalPart_append, quoteAfter_enclosed enclosed]

theorem literalPart_trim {text : List Char} (enclosed : Enclosed text) :
    literalPart none (Text.trim text) = literalPart none text := by
  obtain ⟨before, after, blank, blank', split, -⟩ := trim_split text
  have nothing : literalPart none after = [] := by
    have all := literalPart_blanks blank' []
    rwa [List.append_nil] at all
  conv_rhs => rw [split, literalPart_blanks blank, literalPart_enclosed (enclosed_trim enclosed), nothing, List.append_nil]

theorem literalPart_ternary {condition whenTrue whenFalse : List Char} (first : Enclosed condition)
    (second : Enclosed whenTrue) (third : Enclosed whenFalse) (tail : List Char) :
    literalPart none (ternaryText condition whenTrue whenFalse ++ tail) =
      literalPart none condition ++ (literalPart none whenTrue ++ (literalPart none whenFalse ++ literalPart none tail)) := by
  have split : ternaryText condition whenTrue whenFalse ++ tail =
      '(' :: '(' :: (condition ++ ')' :: '?' :: '(' :: (whenTrue ++ ')' :: ':' :: '(' :: (whenFalse ++ ')' :: ')' :: tail))) := by
    simp [ternaryText]
  have marks : ∀ c ∈ ['(', ')', '?', ':'], isQuote c = false := by simp [isQuote]
  simp only [split, literalPart_enclosed, first, second, third, literalPart_mark, marks, List.mem_cons, true_or, or_true]

end ProceduralScene.Expression
