import ProceduralScene.Proofs.PlainSegments

/-!
The passes over nested conditional calls. One pass converts the calls that stand in no other call, wherever they are
found, and leaves their arguments for the next one; so a number of passes converts as many levels.
-/

set_option autoImplicit false

namespace ProceduralScene.Expression

/-- A text of segments and of conditional calls whose arguments are such texts again; `ternary` is a call that a pass
has converted. -/
inductive ConditionalText
  | last (segment : List Char)
  | call (segment blanks : List Char) (condition whenTrue whenFalse rest : ConditionalText)
  | ternary (segment : List Char) (condition whenTrue whenFalse rest : ConditionalText)

def callText (blanks condition whenTrue whenFalse : List Char) : List Char :=
  callHead blanks ++ (condition ++ ',' :: (whenTrue ++ ',' :: (whenFalse ++ [')'])))

namespace ConditionalText

def written : ConditionalText → List Char
  | last segment => segment
  | call segment blanks condition whenTrue whenFalse rest =>
    segment ++ (callText blanks condition.written whenTrue.written whenFalse.written ++ rest.written)
  | ternary segment condition whenTrue whenFalse rest =>
    segment ++ (ternaryText condition.written whenTrue.written whenFalse.written ++ rest.written)

/-- The text with the calls of the outer `passes` levels converted, the arguments of each trimmed. -/
def converted : Nat → ConditionalText → List Char
  | _, last segment => segment
  | 0, call segment blanks condition whenTrue whenFalse rest =>
    segment ++ (callText blanks (condition.converted 0) (whenTrue.converted 0) (whenFalse.converted 0) ++ rest.converted 0)
  | passes + 1, call segment _ condition whenTrue whenFalse rest =>
    segment ++ (ternaryText (Text.trim (condition.converted passes)) (Text.trim (whenTrue.converted passes))
      (Text.trim (whenFalse.converted passes)) ++ rest.converted (passes + 1))
  | passes, ternary segment condition whenTrue whenFalse rest =>
    segment ++ (ternaryText (condition.converted passes) (whenTrue.converted passes) (whenFalse.converted passes) ++
      rest.converted passes)

/-- Segments are plain, and none runs into the name of the call behind it. Arguments are enclosed, and the last one of
a call is not blank. -/
inductive Sound : ConditionalText → Prop
  | last {segment : List Char} (plain : isPlain none none segment = true) : Sound (last segment)
  | call {segment blanks : List Char} {condition whenTrue whenFalse rest : ConditionalText}
      (plain : isPlain none none segment = true) (apart : continuesName segment.getLast? = false)
      (blank : ∀ c ∈ blanks, Text.isSpace c = true)
      (sound : Sound condition) (sound₁ : Sound whenTrue) (sound₂ : Sound whenFalse)
      (enclosed : Enclosed condition.written) (enclosed₁ : Enclosed whenTrue.written)
      (enclosed₂ : Enclosed whenFalse.written) (filled : Text.trim whenFalse.written ≠ []) (further : Sound rest) :
      Sound (call segment blanks condition whenTrue whenFalse rest)
  | ternary {segment : List Char} {condition whenTrue whenFalse rest : ConditionalText}
      (plain : isPlain none none segment = true)
      (sound : Sound condition) (sound₁ : Sound whenTrue) (sound₂ : Sound whenFalse)
      (enclosed : Enclosed condition.written) (enclosed₁ : Enclosed whenTrue.written)
      (enclosed₂ : Enclosed whenFalse.written) (further : Sound rest) :
      Sound (ternary segment condition whenTrue whenFalse rest)

theorem converted_zero (text : ConditionalText) : text.converted 0 = text.written := by
  induction text with
  | last segment => rw [converted, written]
  | call segment blanks condition whenTrue whenFalse rest ih ih₁ ih₂ further =>
    rw [converted, written, ih, ih₁, ih₂, further]
  | ternary segment condition whenTrue whenFalse rest ih ih₁ ih₂ further =>
    rw [converted, written, ih, ih₁, ih₂, further]

/-! ### Trimming -/

def mapFirst (change : List Char → List Char) : ConditionalText → ConditionalText
  | last segment => last (change segment)
  | call segment blanks condition whenTrue whenFalse rest => call (change segment) blanks condition whenTrue whenFalse rest
  | ternary segment condition whenTrue whenFalse rest => ternary (change segment) condition whenTrue whenFalse rest

def mapLast (change : List Char → List Char) : ConditionalText → ConditionalText
  | last segment => last (change segment)
  | call segment blanks condition whenTrue whenFalse rest =>
    call segment blanks condition whenTrue whenFalse (rest.mapLast change)
  | ternary segment condition whenTrue whenFalse rest => ternary segment condition whenTrue whenFalse (rest.mapLast change)

def trim (text : ConditionalText) : ConditionalText :=
  (text.mapFirst (List.dropWhile Text.isSpace)).mapLast dropEnd

/-- A text between a first character that is no blank and a parenthesis, so no trimming reaches into it. -/
def Framed (text : List Char) : Prop := ∃ c inner, Text.isSpace c = false ∧ text = c :: (inner ++ [')'])

theorem framed_call (blanks condition whenTrue whenFalse : List Char) :
    Framed (callText blanks condition whenTrue whenFalse) :=
  ⟨'i', 'f' :: (blanks ++ '(' :: (condition ++ ',' :: (whenTrue ++ ',' :: whenFalse))), by decide, by
    simp [callText, callHead_eq]⟩

theorem framed_ternary (condition whenTrue whenFalse : List Char) : Framed (ternaryText condition whenTrue whenFalse) :=
  ⟨'(', branchesText condition whenTrue whenFalse, by decide, ternaryText_eq condition whenTrue whenFalse⟩

section

variable {text : List Char} (framed : Framed text)

include framed

theorem dropWhile_framed (segment rest : List Char) :
    (segment ++ (text ++ rest)).dropWhile Text.isSpace = segment.dropWhile Text.isSpace ++ (text ++ rest) := by
  obtain ⟨c, inner, solid, rfl⟩ := framed
  induction segment with
  | nil => simp [solid]
  | cons d segment ih =>
    rw [List.cons_append, List.dropWhile_cons, List.dropWhile_cons]
    split
    · exact ih
    · rfl

theorem dropEnd_framed (segment rest : List Char) : dropEnd (segment ++ (text ++ rest)) = segment ++ (text ++ dropEnd rest) := by
  obtain ⟨c, inner, -, rfl⟩ := framed
  have ends : ∀ d ∈ (segment ++ c :: (inner ++ [')'])).getLast?, Text.isSpace d = false := by
    rw [← List.cons_append, ← List.append_assoc, List.getLast?_concat]
    intro d last
    cases last
    decide
  rw [← List.append_assoc, dropEnd_solid (by simp) ends, List.append_assoc]

end

theorem converted_mapFirst (passes : Nat) (text : ConditionalText) :
    (text.mapFirst (List.dropWhile Text.isSpace)).converted passes = (text.converted passes).dropWhile Text.isSpace := by
  cases text with
  | last segment => simp only [mapFirst, converted]
  | call segment blanks condition whenTrue whenFalse rest =>
    cases passes with
    | zero => simp only [mapFirst, converted, dropWhile_framed (framed_call _ _ _ _)]
    | succ passes => simp only [mapFirst, converted, dropWhile_framed (framed_ternary _ _ _)]
  | ternary segment condition whenTrue whenFalse rest =>
    simp only [mapFirst, converted, dropWhile_framed (framed_ternary _ _ _)]

theorem converted_mapLast (passes : Nat) (text : ConditionalText) :
    (text.mapLast dropEnd).converted passes = dropEnd (text.converted passes) := by
  induction text with
  | last segment => simp only [mapLast, converted]
  | call segment blanks condition whenTrue whenFalse rest ih ih₁ ih₂ further =>
    cases passes with
    | zero => simp only [mapLast, converted, dropEnd_framed (framed_call _ _ _ _), further]
    | succ passes => simp only [mapLast, converted, dropEnd_framed (framed_ternary _ _ _), further]
  | ternary segment condition whenTrue whenFalse rest ih ih₁ ih₂ further =>
    simp only [mapLast, converted, dropEnd_framed (framed_ternary _ _ _), further]

theorem converted_trim (passes : Nat) (text : ConditionalText) :
    text.trim.converted passes = Text.trim (text.converted passes) := by
  rw [trim, converted_mapLast, converted_mapFirst, trim_eq]

theorem written_trim (text : ConditionalText) : text.trim.written = Text.trim text.written := by
  rw [← converted_zero, converted_trim, converted_zero]

theorem continuesName_dropWhile {segment : List Char} (apart : continuesName segment.getLast? = false) :
    continuesName (segment.dropWhile Text.isSpace).getLast? = false := by
  cases dropped : segment.dropWhile Text.isSpace with
  | nil => rfl
  | cons c rest =>
    have split := List.takeWhile_append_dropWhile (p := Text.isSpace) (l := segment)
    rw [← dropped]
    rwa [← split, dropped, List.getLast?_append_of_ne_nil _ (List.cons_ne_nil c rest), ← dropped] at apart

theorem sound_mapFirst {text : ConditionalText} (sound : text.Sound) :
    (text.mapFirst (List.dropWhile Text.isSpace)).Sound := by
  cases sound with
  | last plain => exact .last (isPlain_dropWhile _ rfl plain)
  | call plain apart blank sound sound₁ sound₂ enclosed enclosed₁ enclosed₂ filled further =>
    exact .call (isPlain_dropWhile _ rfl plain) (continuesName_dropWhile apart) blank sound sound₁ sound₂
      enclosed enclosed₁ enclosed₂ filled further
  | ternary plain sound sound₁ sound₂ enclosed enclosed₁ enclosed₂ further =>
    exact .ternary (isPlain_dropWhile _ rfl plain) sound sound₁ sound₂ enclosed enclosed₁ enclosed₂ further

theorem sound_mapLast {text : ConditionalText} (sound : text.Sound) : (text.mapLast dropEnd).Sound := by
  induction sound with
  | last plain => exact .last (isPlain_dropEnd plain)
  | call plain apart blank sound sound₁ sound₂ enclosed enclosed₁ enclosed₂ filled _ _ _ _ ih =>
    exact .call plain apart blank sound sound₁ sound₂ enclosed enclosed₁ enclosed₂ filled ih
  | ternary plain sound sound₁ sound₂ enclosed enclosed₁ enclosed₂ _ _ _ _ ih =>
    exact .ternary plain sound sound₁ sound₂ enclosed enclosed₁ enclosed₂ ih

theorem sound_trim {text : ConditionalText} (sound : text.Sound) : text.trim.Sound := sound_mapLast (sound_mapFirst sound)

theorem enclosed_written_trim {text : ConditionalText} (enclosed : Enclosed text.written) : Enclosed text.trim.written := by
  rw [written_trim]
  exact enclosed_trim enclosed

/-! ### One pass -/

/-- The text behind one pass. -/
def pass : ConditionalText → ConditionalText
  | last segment => last segment
  | call segment _ condition whenTrue whenFalse rest =>
    ternary segment condition.trim whenTrue.trim whenFalse.trim rest.pass
  | ternary segment condition whenTrue whenFalse rest =>
    ternary segment condition.pass whenTrue.pass whenFalse.pass rest.pass

/-- Whether the pass finds a call. -/
def changes : ConditionalText → Bool
  | last _ => false
  | call .. => true
  | ternary _ condition whenTrue whenFalse rest =>
    condition.changes || whenTrue.changes || whenFalse.changes || rest.changes

theorem converted_pass (text : ConditionalText) : ∀ passes, text.pass.converted passes = text.converted (passes + 1) := by
  induction text with
  | last segment => intro passes; simp only [pass, converted]
  | call segment blanks condition whenTrue whenFalse rest ih ih₁ ih₂ further =>
    intro passes
    simp only [pass, converted, converted_trim, further]
  | ternary segment condition whenTrue whenFalse rest ih ih₁ ih₂ further =>
    intro passes
    simp only [pass, converted, ih, ih₁, ih₂, further]

theorem converted_unchanged {text : ConditionalText} (unchanged : text.changes = false) (passes : Nat) :
    text.converted passes = text.written := by
  induction text with
  | last segment => simp only [converted, written]
  | call => cases unchanged
  | ternary segment condition whenTrue whenFalse rest ih ih₁ ih₂ further =>
    simp only [changes, Bool.or_eq_false_iff] at unchanged
    obtain ⟨⟨⟨same, same₁⟩, same₂⟩, rest⟩ := unchanged
    simp only [converted, written, ih same, ih₁ same₁, ih₂ same₂, further rest]

theorem walk_call {blanks condition whenTrue whenFalse : List Char} (blank : ∀ c ∈ blanks, Text.isSpace c = true)
    (enclosed : Enclosed condition) (enclosed₁ : Enclosed whenTrue) (enclosed₂ : Enclosed whenFalse)
    (round square : Nat) (tail : List Char) :
    Depth.walk ⟨none, round, square⟩ (callText blanks condition whenTrue whenFalse ++ tail) =
      Depth.walk ⟨none, round, square⟩ tail := by
  have split : callText blanks condition whenTrue whenFalse ++ tail =
      conditionalName ++ (blanks ++ '(' :: ((condition ++ ',' :: (whenTrue ++ ',' :: whenFalse)) ++ ')' :: tail)) := by
    simp [callText, callHead]
  have name : Depth.walk ⟨none, round, square⟩ conditionalName = some ⟨none, round, square⟩ := rfl
  rw [split, Depth.walk_append, name, Option.bind_some, Depth.walk_append, Depth.walk_blanks blank, Option.bind_some]
  exact Depth.walk_group (walk_arguments enclosed enclosed₁ enclosed₂ round square) tail

section

variable {segment : List Char} (plain : isPlain none none segment = true)

include plain

theorem walk_behind {middle middle' rest rest' : List Char}
    (neutral : ∀ round square tail, Depth.walk ⟨none, round, square⟩ (middle ++ tail) = Depth.walk ⟨none, round, square⟩ tail)
    (neutral' : ∀ round square tail, Depth.walk ⟨none, round, square⟩ (middle' ++ tail) = Depth.walk ⟨none, round, square⟩ tail)
    (further : ∀ round square, Depth.walk ⟨none, round, square⟩ rest' = Depth.walk ⟨none, round, square⟩ rest)
    (round square : Nat) : Depth.walk ⟨none, round, square⟩ (segment ++ (middle' ++ rest')) =
      Depth.walk ⟨none, round, square⟩ (segment ++ (middle ++ rest)) := by
  rw [Depth.walk_append, Depth.walk_append]
  cases walked : Depth.walk ⟨none, round, square⟩ segment with
  | none => rfl
  | some after =>
    obtain ⟨quote, round, square⟩ := after
    have closed : quote = none := (Depth.walk_quote walked).trans (quoteAfter_plain segment plain)
    subst closed
    rw [Option.bind_some, Option.bind_some, neutral, neutral']
    exact further round square

end

/-- A pass moves no bracket, so what was enclosed stays so. -/
theorem walk_pass {text : ConditionalText} (sound : text.Sound) : ∀ round square : Nat,
    Depth.walk ⟨none, round, square⟩ text.pass.written = Depth.walk ⟨none, round, square⟩ text.written := by
  induction sound with
  | last plain => exact fun _ _ => rfl
  | call plain _ blank _ _ _ enclosed enclosed₁ enclosed₂ _ _ _ _ _ further =>
    exact walk_behind plain (walk_call blank enclosed enclosed₁ enclosed₂)
      (walk_ternary (enclosed_written_trim enclosed) (enclosed_written_trim enclosed₁) (enclosed_written_trim enclosed₂))
      further
  | ternary plain _ _ _ enclosed enclosed₁ enclosed₂ _ ih ih₁ ih₂ further =>
    exact walk_behind plain (walk_ternary enclosed enclosed₁ enclosed₂)
      (walk_ternary ((ih 0 0).trans enclosed) ((ih₁ 0 0).trans enclosed₁) ((ih₂ 0 0).trans enclosed₂)) further

theorem enclosed_pass {text : ConditionalText} (sound : text.Sound) (enclosed : Enclosed text.written) :
    Enclosed text.pass.written := (walk_pass sound 0 0).trans enclosed

theorem sound_pass {text : ConditionalText} (sound : text.Sound) : text.pass.Sound := by
  induction sound with
  | last plain => exact .last plain
  | call plain _ _ sound sound₁ sound₂ enclosed enclosed₁ enclosed₂ _ _ _ _ _ further =>
    exact .ternary plain (sound_trim sound) (sound_trim sound₁) (sound_trim sound₂) (enclosed_written_trim enclosed)
      (enclosed_written_trim enclosed₁) (enclosed_written_trim enclosed₂) further
  | ternary plain sound sound₁ sound₂ enclosed enclosed₁ enclosed₂ _ ih ih₁ ih₂ further =>
    exact .ternary plain ih ih₁ ih₂ (enclosed_pass sound enclosed) (enclosed_pass sound₁ enclosed₁)
      (enclosed_pass sound₂ enclosed₂) further

/-! ### The scan writes the pass -/

/-- A text whose scan does not depend on what stands before it and that no segment makes a call with. -/
structure Stops (tail : List Char) (result : Bool × List Char) : Prop where
  scan : ∀ previous, scanConditionals none previous tail = result
  detached : Detached tail

theorem stops_nil : Stops [] (false, []) := ⟨fun _ => rfl, fun _ _ none => nomatch none⟩

theorem stops_closing (tail : List Char) : Stops (')' :: tail) (pushPass [')'] (scanConditionals none (some ')') tail)) where
  scan previous := scanConditionals_other (matchCall_mark isName_conditional (by decide) previous tail)
  detached := by
    rintro c behind same
    cases same
    exact ⟨by decide, by decide, fun opens => absurd opens (by decide)⟩

theorem detached_call (blanks condition whenTrue whenFalse tail : List Char) :
    Detached (callText blanks condition whenTrue whenFalse ++ tail) := by
  rintro c behind same
  cases same
  exact ⟨by decide, by decide, fun opens => absurd opens (by decide)⟩

/-- A converted call behind the name of a conditional would be its only argument. -/
theorem detached_ternary {condition whenTrue whenFalse : List Char} (enclosed : Enclosed condition)
    (enclosed₁ : Enclosed whenTrue) (enclosed₂ : Enclosed whenFalse) (tail : List Char) :
    Detached (ternaryText condition whenTrue whenFalse ++ tail) := by
  have inside : Enclosed (branchesText condition whenTrue whenFalse) := walk_branches enclosed enclosed₁ enclosed₂ 0 0
  have split : ternaryText condition whenTrue whenFalse ++ tail =
      '(' :: (branchesText condition whenTrue whenFalse ++ ')' :: tail) := by simp [ternaryText_eq]
  rintro c behind same
  rw [split] at same
  cases same
  have few := length_splitArgs_enclosed inside
  exact ⟨by decide, by decide, fun _ => ⟨_, tail, cutAtClosing_enclosed inside tail, by omega⟩⟩

theorem scanConditionals_call {blanks condition whenTrue whenFalse : List Char}
    (blank : ∀ c ∈ blanks, Text.isSpace c = true) (enclosed : Enclosed condition) (enclosed₁ : Enclosed whenTrue)
    (enclosed₂ : Enclosed whenFalse) (filled : Text.trim whenFalse ≠ []) {previous : Option Char}
    (free : continuesName previous = false) (tail : List Char) :
    scanConditionals none previous (callText blanks condition whenTrue whenFalse ++ tail) =
      (true, ternaryText (Text.trim condition) (Text.trim whenTrue) (Text.trim whenFalse) ++
        (scanConditionals none (some ')') tail).2) := by
  obtain ⟨apart, open_⟩ := apart_of_continuesName free
  have split : callText blanks condition whenTrue whenFalse ++ tail =
      callHead blanks ++ (condition ++ ',' :: (whenTrue ++ ',' :: (whenFalse ++ ')' :: tail))) := by simp [callText]
  have closed : quoteAfter none (ternaryText (Text.trim condition) (Text.trim whenTrue) (Text.trim whenFalse)) = none := by
    have walked := walk_ternary (enclosed_trim enclosed) (enclosed_trim enclosed₁) (enclosed_trim enclosed₂) 0 0 []
    rw [List.append_nil] at walked
    exact quoteAfter_enclosed walked
  have matched : ∀ rest, matchCall? conditionalName previous (callHead blanks ++ rest) = some rest :=
    matchCall_call isName_conditional apart blank
  rw [split, scanConditionals_converts (by simp [callHead]) (matched _) (by simp [callHead_eq, open_, isQuote])
    (cutAtClosing_arguments enclosed enclosed₁ enclosed₂ tail) (splitArgs_arguments enclosed enclosed₁ enclosed₂ filled),
    closed]

/-- The scan turns the text into the other one, wherever it stands. -/
def Scans (text other : List Char) (changed : Bool) : Prop :=
  ∀ {previous : Option Char}, continuesName previous = false → ∀ {tail : List Char} {result : Bool × List Char},
    Stops tail result → scanConditionals none previous (text ++ tail) = (changed || result.1, other ++ result.2)

theorem scanConditionals_mark {c : Char} (mark : Text.isWord c = false) (closed : isQuote c = false)
    (previous : Option Char) (tail : List Char) :
    scanConditionals none previous (c :: tail) = pushPass [c] (scanConditionals none (some c) tail) := by
  rw [scanConditionals_other (matchCall_mark isName_conditional mark previous tail)]
  simp [stepQuote, closed]

theorem scans_parenthesized {text other : List Char} {changed : Bool} (scans : Scans text other changed)
    (previous : Option Char) (tail : List Char) :
    scanConditionals none previous ('(' :: (text ++ ')' :: tail)) =
      (changed || (scanConditionals none (some ')') tail).1, '(' :: (other ++ ')' :: (scanConditionals none (some ')') tail).2)) := by
  rw [scanConditionals_mark (by decide) (by decide), scans rfl (stops_closing tail)]
  rfl

theorem scans_ternary {condition whenTrue whenFalse condition' whenTrue' whenFalse' : List Char} {changed changed₁ changed₂ : Bool}
    (scans : Scans condition condition' changed) (scans₁ : Scans whenTrue whenTrue' changed₁)
    (scans₂ : Scans whenFalse whenFalse' changed₂) (previous : Option Char) (tail : List Char) :
    scanConditionals none previous (ternaryText condition whenTrue whenFalse ++ tail) =
      (changed || changed₁ || changed₂ || (scanConditionals none (some ')') tail).1,
        ternaryText condition' whenTrue' whenFalse' ++ (scanConditionals none (some ')') tail).2) := by
  have split : ternaryText condition whenTrue whenFalse ++ tail =
      '(' :: '(' :: (condition ++ ')' :: '?' :: '(' :: (whenTrue ++ ')' :: ':' :: '(' :: (whenFalse ++ ')' :: ')' :: tail))) := by
    simp [ternaryText]
  rw [split, scanConditionals_mark (by decide) (by decide), scans_parenthesized scans,
    scanConditionals_mark (c := '?') (by decide) (by decide), scans_parenthesized scans₁,
    scanConditionals_mark (c := ':') (by decide) (by decide), scans_parenthesized scans₂,
    scanConditionals_mark (c := ')') (by decide) (by decide)]
  simp [pushPass, ternaryText, Bool.or_assoc]

theorem scans_written {text : ConditionalText} (sound : text.Sound) : Scans text.written text.pass.written text.changes := by
  -- the arguments of a call are copied as they are, and those of a converted one are scanned
  induction sound with
  | @last segment plain =>
    intro previous free tail result stops
    rw [written, scanConditionals_plain stops.detached segment ((isPlain_previous free rfl segment).trans plain), stops.scan]
    rfl
  | @call segment blanks condition whenTrue whenFalse rest plain apart blank _ _ _ enclosed enclosed₁ enclosed₂ filled _ _ _ _ further =>
    intro previous free tail result stops
    have before : continuesName (segment.getLast?.or previous) = false := by
      cases last : segment.getLast? with
      | none => exact free
      | some c => rwa [last] at apart
    rw [written, List.append_assoc, List.append_assoc, scanConditionals_plain (detached_call _ _ _ _ _) segment
      ((isPlain_previous free rfl segment).trans plain), scanConditionals_call blank enclosed enclosed₁ enclosed₂ filled before,
      further rfl stops, pass, written, written_trim, written_trim, written_trim]
    simp [pushPass, changes]
  | @ternary segment condition whenTrue whenFalse rest plain _ _ _ enclosed enclosed₁ enclosed₂ _ ih ih₁ ih₂ further =>
    intro previous free tail result stops
    rw [written, List.append_assoc, List.append_assoc, scanConditionals_plain (detached_ternary enclosed enclosed₁ enclosed₂ _)
      segment ((isPlain_previous free rfl segment).trans plain), scans_ternary ih ih₁ ih₂, further rfl stops]
    simp [pushPass, changes, pass, written, Bool.or_assoc]

/-! ### All passes -/

theorem literalPart_call {blanks condition whenTrue whenFalse : List Char} (blank : ∀ c ∈ blanks, Text.isSpace c = true)
    (enclosed : Enclosed condition) (enclosed₁ : Enclosed whenTrue) (enclosed₂ : Enclosed whenFalse) (tail : List Char) :
    literalPart none (callText blanks condition whenTrue whenFalse ++ tail) =
      literalPart none condition ++ (literalPart none whenTrue ++ (literalPart none whenFalse ++ literalPart none tail)) := by
  have split : callText blanks condition whenTrue whenFalse ++ tail =
      'i' :: 'f' :: (blanks ++ '(' :: (condition ++ ',' :: (whenTrue ++ ',' :: (whenFalse ++ ')' :: tail)))) := by
    simp [callText, callHead_eq]
  have marks : ∀ c ∈ ['i', 'f', '(', ',', ')'], isQuote c = false := by simp [isQuote]
  simp only [split, literalPart_enclosed, enclosed, enclosed₁, enclosed₂, literalPart_mark, literalPart_blanks blank, marks,
    List.mem_cons, true_or, or_true]

/-- A pass changes no literal. -/
theorem literalPart_pass {text : ConditionalText} (sound : text.Sound) :
    literalPart none text.pass.written = literalPart none text.written := by
  induction sound with
  | last plain => rfl
  | call plain _ blank _ _ _ enclosed enclosed₁ enclosed₂ _ _ _ _ _ further =>
    rw [pass, written, written, literalPart_plain plain, literalPart_plain plain,
      literalPart_call blank enclosed enclosed₁ enclosed₂, literalPart_ternary (enclosed_written_trim enclosed)
        (enclosed_written_trim enclosed₁) (enclosed_written_trim enclosed₂), further]
    simp only [written_trim, literalPart_trim, enclosed, enclosed₁, enclosed₂]
  | ternary plain sound sound₁ sound₂ enclosed enclosed₁ enclosed₂ _ ih ih₁ ih₂ further =>
    rw [pass, written, written, literalPart_plain plain, literalPart_plain plain,
      literalPart_ternary enclosed enclosed₁ enclosed₂, literalPart_ternary (enclosed_pass sound enclosed)
        (enclosed_pass sound₁ enclosed₁) (enclosed_pass sound₂ enclosed₂), ih, ih₁, ih₂, further]

theorem literalPart_converted (passes : Nat) : ∀ {text : ConditionalText}, text.Sound →
    literalPart none (text.converted passes) = literalPart none text.written := by
  induction passes with
  | zero =>
    intro text _
    rw [converted_zero]
  | succ passes ih =>
    intro text sound
    rw [← converted_pass, ih (sound_pass sound), literalPart_pass sound]

theorem convertConditionals_written (passes : Nat) : ∀ {text : ConditionalText}, text.Sound →
    convertConditionals passes text.written = text.converted passes := by
  induction passes with
  | zero =>
    intro text _
    rw [convertConditionals, converted_zero]
  | succ passes ih =>
    intro text sound
    have once : convertPass (text.written.length + 1) none none text.written = (text.changes, text.pass.written) := by
      have scanned := scans_written sound (show continuesName none = false from rfl) stops_nil
      rw [List.append_nil, scanConditionals] at scanned
      simpa using scanned
    rw [convertConditionals, once]
    cases changes : text.changes with
    | true => exact (ih (sound_pass sound)).trans (converted_pass text passes)
    | false =>
      -- the passes stop early, and the further ones would find nothing
      have settled : text.pass.written = text.converted (passes + 1) := by
        rw [← converted_zero, converted_pass, converted_unchanged changes, converted_unchanged changes]
      exact settled

end ConditionalText

/-- Conditionals are converted level by level: `passes` passes convert the calls of the outer `passes` levels and no
other ones, and the literals stay as they are. -/
theorem conditionals_nested (text : ConditionalText) (sound : text.Sound) (passes : Nat) :
    convertConditionals passes text.written = text.converted passes ∧
      literalPart none (convertConditionals passes text.written) = literalPart none text.written := by
  have result := ConditionalText.convertConditionals_written passes sound
  refine ⟨result, ?_⟩
  rw [result]
  exact ConditionalText.literalPart_converted passes sound

/-- `1 + if(a > 1, if(b, 'x)if(1,2,3)', 2), max(if (c, 1, 2), 3)) * if(d, 4, 5)` -/
def nestedSample : ConditionalText :=
  .call "1 + ".toList [] (.last "a > 1".toList)
    (.call [' '] [] (.last ['b']) (.last " 'x)if(1,2,3)'".toList) (.last " 2".toList) (.last []))
    (.call " max(".toList [' '] (.last ['c']) (.last " 1".toList) (.last " 2".toList) (.last ", 3)".toList))
    (.call " * ".toList [] (.last ['d']) (.last " 4".toList) (.last " 5".toList) (.last []))

theorem nestedSample_sound : nestedSample.Sound := by
  refine .call (by decide) (by decide) (by simp) (.last (by decide)) ?_ ?_ (by decide) (by decide) (by decide) (by decide) ?_
  · exact .call (by decide) (by decide) (by simp) (.last (by decide)) (.last (by decide)) (.last (by decide))
      (by decide) (by decide) (by decide) (by decide) (.last (by decide))
  · exact .call (by decide) (by decide) (by simp [Text.isSpace]) (.last (by decide)) (.last (by decide)) (.last (by decide))
      (by decide) (by decide) (by decide) (by decide) (.last (by decide))
  · exact .call (by decide) (by decide) (by simp) (.last (by decide)) (.last (by decide)) (.last (by decide))
      (by decide) (by decide) (by decide) (by decide) (.last (by decide))

theorem conditionals_nested_once : nestedSample.Sound ∧
    convertConditionals 1 nestedSample.written =
      "1 + ((a > 1)?(if(b, 'x)if(1,2,3)', 2)):(max(if (c, 1, 2), 3))) * ((d)?(4):(5))".toList ∧
    literalPart none (convertConditionals 1 nestedSample.written) = "'x)if(1,2,3)'".toList := by
  obtain ⟨result, kept⟩ := conditionals_nested nestedSample nestedSample_sound 1
  exact ⟨nestedSample_sound, result.trans (by decide), kept.trans (by decide)⟩

end ProceduralScene.Expression
