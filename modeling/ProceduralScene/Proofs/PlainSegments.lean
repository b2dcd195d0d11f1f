import ProceduralScene.Proofs.EnclosedTexts
import ProceduralScene.Proofs.PieceFunctions

/-!
Segments of a text without a conditional call, and how a pass goes over them. What stands behind a segment may still
make a call of its end; such a call is passed over as well when its parenthesis holds a single argument.
-/

set_option autoImplicit false

namespace ProceduralScene.Expression

/-! ### Plain segments -/

/-- No call that a pass would convert stands in the segment, and its quotes are closed. -/
def isPlain : Option Char → Option Char → List Char → Bool
  | quote, _, [] => quote.isNone
  | quote, previous, c :: text =>
    (quote.isSome || blocksCall previous || (matchCall? conditionalName previous (c :: text)).isNone) &&
      isPlain (stepQuote quote c) (some c) text

theorem isPlain_cons {quote previous : Option Char} {c : Char} {text : List Char} :
    isPlain quote previous (c :: text) = true ↔
      (quote = none → blocksCall previous = false → matchCall? conditionalName previous (c :: text) = none) ∧
        isPlain (stepQuote quote c) (some c) text = true := by
  rw [isPlain]
  cases quote <;> cases blocksCall previous <;> simp

theorem quoteAfter_plain (segment : List Char) : ∀ {quote previous : Option Char},
    isPlain quote previous segment = true → quoteAfter quote segment = none := by
  induction segment with
  | nil => exact fun plain => Option.isNone_iff_eq_none.mp plain
  | cons c segment ih => exact fun plain => ih (isPlain_cons.mp plain).2

theorem literalPart_plain {segment : List Char} (plain : isPlain none none segment = true) (tail : List Char) :
    literalPart none (segment ++ tail) = literalPart none segment ++ literalPart none tail := by
  rw [literalPart_append, quoteAfter_plain segment plain]

theorem matchCall_apart {previous : Option Char} {text rest : List Char}
    (matched : matchCall? conditionalName previous text = some rest) : previous.any Text.isWord = false := by
  obtain ⟨blanks, -, rfl⟩ := matchCall_found matched
  refine Bool.eq_false_iff.mpr fun within => ?_
  have none := matchCall_inside within (show Text.isWord 'i' = true by decide) conditionalName ('f' :: (blanks ++ '(' :: rest))
  rw [show conditionalName ++ blanks ++ ['('] ++ rest = 'i' :: 'f' :: (blanks ++ '(' :: rest) by simp [conditionalName], none]
    at matched
  cases matched

theorem matchCall_append {previous : Option Char} {text rest : List Char}
    (matched : matchCall? conditionalName previous text = some rest) (more : List Char) :
    matchCall? conditionalName previous (text ++ more) = some (rest ++ more) := by
  have apart := matchCall_apart matched
  obtain ⟨blanks, blank, rfl⟩ := matchCall_found matched
  rw [List.append_assoc]
  exact matchCall_call isName_conditional apart blank (rest ++ more)

-- A call starts at a word boundary, so only that a character is no part of a name counts.
theorem matchCall_previous {previous other : Option Char} (apart : previous.any Text.isWord = false)
    (apart' : other.any Text.isWord = false) (text : List Char) :
    matchCall? conditionalName previous text = matchCall? conditionalName other text := by
  rw [matchCall?, matchCall?, isBoundary, isBoundary, apart, apart']

theorem apart_of_continuesName {previous : Option Char} (free : continuesName previous = false) :
    previous.any Text.isWord = false ∧ blocksCall previous = false := by
  cases previous with
  | none => exact ⟨rfl, rfl⟩
  | some c =>
    simp only [continuesName, Option.any_some, Bool.or_eq_false_iff, beq_eq_false_iff_ne] at free
    obtain ⟨⟨noWord, noDot⟩, noDollar⟩ := free
    have noLine : c ≠ '_' := by
      rintro rfl
      cases noWord
    simp [blocksCall, noWord, noDot, noDollar, noLine]

theorem isPlain_previous {quote previous other : Option Char} (free : continuesName previous = false)
    (free' : continuesName other = false) (segment : List Char) :
    isPlain quote previous segment = isPlain quote other segment := by
  cases segment with
  | nil => rfl
  | cons c segment =>
    obtain ⟨apart, open_⟩ := apart_of_continuesName free
    obtain ⟨apart', open'⟩ := apart_of_continuesName free'
    rw [isPlain, isPlain, matchCall_previous apart apart', open_, open']

theorem continuesName_blank {c : Char} (blank : Text.isSpace c = true) : continuesName (some c) = false := by
  have noDot : c ≠ '.' := ne_of_isSpace blank (by decide)
  have noDollar : c ≠ '$' := ne_of_isSpace blank (by decide)
  simp [continuesName, Text.isWord_of_isSpace blank, noDot, noDollar]

theorem isPlain_dropWhile (segment : List Char) : ∀ {previous : Option Char}, continuesName previous = false →
    isPlain none previous segment = true → isPlain none previous (segment.dropWhile Text.isSpace) = true := by
  induction segment with
  | nil => exact fun _ plain => plain
  | cons c segment ih =>
    intro previous free plain
    rw [List.dropWhile_cons]
    split
    · rename_i blank
      have further := (isPlain_cons.mp plain).2
      rw [stepQuote_quiet (isMark_spec (isMark_space blank)).2] at further
      rw [isPlain_previous free (continuesName_blank blank)]
      exact ih (continuesName_blank blank) further
    · exact plain

theorem isPlain_append (first : List Char) {second : List Char} : ∀ {quote previous : Option Char},
    isPlain quote previous (first ++ second) = true → quoteAfter quote first = none → isPlain quote previous first = true := by
  induction first with
  | nil => exact fun _ closed => Option.isNone_iff_eq_none.mpr closed
  | cons c first ih =>
    intro quote previous plain closed
    obtain ⟨free, further⟩ := isPlain_cons.mp plain
    refine isPlain_cons.mpr ⟨fun outside open_ => ?_, ih further closed⟩
    cases matched : matchCall? conditionalName previous (c :: first) with
    | none => rfl
    | some rest => exact nomatch (free outside open_).symm.trans (matchCall_append matched second)

theorem isPlain_dropEnd {segment : List Char} {previous : Option Char} (plain : isPlain none previous segment = true) :
    isPlain none previous (dropEnd segment) = true := by
  obtain ⟨after, blank, split⟩ := dropEnd_split segment
  have closed := quoteAfter_plain segment plain
  rw [split] at plain closed
  exact isPlain_append _ plain (quoteAfter_blanks blank closed)

/-! ### The scan over a segment -/

theorem pushPass_append (first second : List Char) (result : Bool × List Char) :
    pushPass (first ++ second) result = pushPass first (pushPass second result) :=
  copies_conditionals.append first second result

theorem scanConditionals_marks {marks : List Char} (mark : ∀ c ∈ marks, Text.isWord c = false) (tail : List Char) :
    ∀ quote previous : Option Char, scanConditionals quote previous (marks ++ tail) =
      pushPass marks (scanConditionals (quoteAfter quote marks) (marks.getLast?.or previous) tail) := by
  induction marks with
  | nil => exact fun _ _ => rfl
  | cons c marks ih =>
    intro quote previous
    rw [List.cons_append, scanConditionals_other (matchCall_mark isName_conditional (mark c List.mem_cons_self) _ _),
      ih fun d member => mark d (List.mem_cons_of_mem c member), ← pushPass_append, last_cons]
    rfl

/-- The name, the blanks and the parenthesis of a call. -/
def callHead (blanks : List Char) : List Char := conditionalName ++ blanks ++ ['(']

theorem callHead_eq (blanks : List Char) : callHead blanks = 'i' :: 'f' :: (blanks ++ ['(']) := rfl

-- A call that is passed over is passed over as a whole; no call starts behind its first character.
theorem scanConditionals_within {blanks : List Char} (blank : ∀ c ∈ blanks, Text.isSpace c = true)
    (quote : Option Char) (rest : List Char) :
    pushPass ['i'] (scanConditionals (stepQuote quote 'i') (some 'i') ('f' :: (blanks ++ ['(']) ++ rest)) =
      pushPass (callHead blanks) (scanConditionals (quoteAfter quote (callHead blanks)) (some '(') rest) := by
  have marks : ∀ c ∈ blanks ++ ['('], Text.isWord c = false := by
    intro c member
    rcases List.mem_append.mp member with inside | last
    · exact Text.isWord_of_isSpace (blank c inside)
    · rw [List.mem_singleton.mp last]
      decide
  have inside : matchCall? conditionalName (some 'i') ('f' :: (blanks ++ ['('] ++ rest)) = none :=
    matchCall_inside (by decide) (by decide) _ _
  rw [List.cons_append, scanConditionals_other inside, scanConditionals_marks marks, List.getLast?_concat,
    ← pushPass_append, ← pushPass_append]
  rfl

theorem scanConditionals_step {quote previous : Option Char} {c : Char} {text : List Char}
    (passed : ∀ blanks rest, (∀ c ∈ blanks, Text.isSpace c = true) → c :: text = callHead blanks ++ rest →
      matchCall? conditionalName previous (c :: text) = some rest → scanConditionals quote previous (c :: text) =
        pushPass (callHead blanks) (scanConditionals (quoteAfter quote (callHead blanks)) (some '(') rest)) :
    scanConditionals quote previous (c :: text) = pushPass [c] (scanConditionals (stepQuote quote c) (some c) text) := by
  cases matched : matchCall? conditionalName previous (c :: text) with
  | none => exact scanConditionals_other matched
  | some rest =>
    obtain ⟨blanks, blank, split⟩ := matchCall_found matched
    rw [passed blanks rest blank split matched, ← scanConditionals_within blank quote]
    cases split
    rfl

/-- What stands behind a segment makes no call of it that would be converted. -/
def Detached (tail : List Char) : Prop :=
  ∀ c behind, tail = c :: behind → c ≠ 'f' ∧ Text.isSpace c = false ∧
    (c = '(' → ∃ inner rest, cutAtClosing behind = some (inner, rest) ∧ (splitArgs inner).length ≠ 3)

/-- A call that starts in a segment and ends behind it ends with its parenthesis right behind. -/
theorem callHead_split {blanks segment more : List Char} {c : Char} (blank : ∀ c ∈ blanks, Text.isSpace c = true)
    (split : 'f' :: (blanks ++ ['(']) = segment ++ c :: more) (other : c ≠ 'f') (solid : Text.isSpace c = false) :
    c = '(' ∧ more = [] := by
  rcases List.eq_nil_or_concat more with rfl | ⟨more, last, rfl⟩
  · have whole : ('f' :: blanks) ++ ['('] = segment ++ [c] := split
    exact ⟨by simpa using (List.append_inj' whole rfl).2.symm, rfl⟩
  · have whole : ('f' :: blanks) ++ ['('] = (segment ++ c :: more) ++ [last] := by simpa using split
    have member : c ∈ 'f' :: blanks := by
      rw [(List.append_inj' whole rfl).1]
      simp
    rcases List.mem_cons.mp member with same | inside
    · exact absurd same other
    · rw [blank c inside] at solid
      cases solid

theorem callHead_crosses {blanks segment tail rest : List Char} {c : Char} {previous : Option Char}
    (blank : ∀ c ∈ blanks, Text.isSpace c = true) (apart : previous.any Text.isWord = false)
    (free : matchCall? conditionalName previous (c :: segment) = none)
    (split : c :: segment ++ tail = callHead blanks ++ rest) :
    ∃ d more, callHead blanks = c :: segment ++ d :: more ∧ tail = d :: (more ++ rest) := by
  have outside : ∀ more, c :: segment ≠ callHead blanks ++ more := by
    intro more whole
    have called := matchCall_call isName_conditional apart blank more
    rw [← callHead, ← whole, free] at called
    cases called
  rcases List.append_eq_append_iff.mp split with ⟨more, whole, left⟩ | ⟨more, whole, -⟩
  · cases more with
    | nil => exact absurd (by rw [whole, List.append_nil, List.append_nil]) (outside [])
    | cons d more => exact ⟨d, more, whole, left⟩
  · exact absurd whole (outside more)

theorem scanConditionals_plain {tail : List Char} (detached : Detached tail) (segment : List Char) :
    ∀ {quote previous : Option Char}, isPlain quote previous segment = true →
    scanConditionals quote previous (segment ++ tail) =
      pushPass segment (scanConditionals none (segment.getLast?.or previous) tail) := by
  induction segment with
  | nil =>
    intro quote previous plain
    rw [Option.isNone_iff_eq_none.mp plain]
    rfl
  | cons c segment ih =>
    intro quote previous plain
    obtain ⟨free, further⟩ := isPlain_cons.mp plain
    rw [List.cons_append, scanConditionals_step ?_, ih further, ← pushPass_append, last_cons]
    · rfl
    · intro blanks rest blank split matched
      have apart := matchCall_apart matched
      rw [split] at matched ⊢
      by_cases blocks : (quote.isSome || (callHead blanks).head?.any isQuote || blocksCall previous) = true
      · exact scanConditionals_blocked (by simp [callHead]) matched blocks
      -- an unblocked call can only be one that ends at the text behind, and that one has too few arguments
      have open_ : quote = none ∧ blocksCall previous = false := by
        simpa [callHead_eq, isQuote] using blocks
      obtain ⟨d, more, crosses, behind⟩ := callHead_crosses blank apart (free open_.1 open_.2) split
      obtain ⟨other, solid, opens⟩ := detached d (more ++ rest) behind
      have tail_ : 'f' :: (blanks ++ ['(']) = segment ++ d :: more := (List.cons.inj crosses).2
      obtain ⟨rfl, rfl⟩ := callHead_split blank tail_ other solid
      obtain ⟨inner, after, cut, arity⟩ := opens rfl
      exact scanConditionals_skips (by simp [callHead]) matched blocks cut arity

end ProceduralScene.Expression
