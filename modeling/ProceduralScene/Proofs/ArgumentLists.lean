import ProceduralScene.Proofs.QuotedSpans

/-!
Argument lists of calls. A list of enclosed texts that is joined with commas is split into the same texts again, and the
call around it is cut at its own parenthesis whatever stands before the call and behind it.
-/

set_option autoImplicit false

namespace ProceduralScene.Expression

/-- A text that a call can hold as one of its arguments. Parentheses and brackets may stand around each other in any
order, as long as none is closed that is not open. -/
structure IsArgument (text : List Char) : Prop where
  solid : text ≠ []
  trimmed : Text.trim text = text
  enclosed : Enclosed text

instance (text : List Char) : Decidable (IsArgument text) :=
  decidable_of_iff (text ≠ [] ∧ Text.trim text = text ∧ Enclosed text)
    ⟨fun parts => ⟨parts.1, parts.2.1, parts.2.2⟩, fun argument => ⟨argument.solid, argument.trimmed, argument.enclosed⟩⟩

/-- Arguments with a comma and a blank between them. -/
def joined (args : List (List Char)) : List Char := [',', ' '].intercalate args

theorem joined_cons (arg next : List Char) (args : List (List Char)) :
    joined (arg :: next :: args) = arg ++ ',' :: ' ' :: joined (next :: args) := by
  simp [joined, List.intercalate_cons_cons]

theorem joined_one (arg : List Char) : joined [arg] = arg := List.intercalate_singleton

theorem trim_blank (text : List Char) : Text.trim (' ' :: text) = Text.trim text := rfl

section

variable {args : List (List Char)} (each : ∀ arg ∈ args, IsArgument arg)

include each

theorem closingOffset_joined (behind : List Char) :
    closingOffset none 1 (joined args ++ ')' :: behind) = some (joined args).length := by
  induction args with
  | nil => exact closingOffset_here behind
  | cons arg args ih =>
    have enclosed := (each arg List.mem_cons_self).enclosed
    cases args with
    | nil =>
      rw [joined_one, closingOffset_enclosed enclosed, closingOffset_here]
      simp
    | cons next args =>
      have blank : ∀ text : List Char, closingOffset none 1 (' ' :: text) = (closingOffset none 1 text).map (· + 1) := fun _ => rfl
      rw [joined_cons, List.append_assoc, closingOffset_enclosed enclosed, List.cons_append, closingOffset_comma,
        List.cons_append, blank, ih fun other member => each other (List.mem_cons_of_mem arg member)]
      simp only [Option.map_some, List.length_append, List.length_cons, Option.some.injEq]
      omega

-- The blank of a separator is read before the argument behind it and trimmed with it.
theorem splitArgsFrom_joined (current : List Char) (blank : current = [] ∨ current = [' ']) :
    splitArgsFrom none 0 current (joined args) = args := by
  induction args generalizing current with
  | nil => rcases blank with rfl | rfl <;> rfl
  | cons arg args ih =>
    obtain ⟨solid, trimmed, enclosed⟩ := each arg List.mem_cons_self
    have alone : Text.trim (arg.reverse ++ current).reverse = arg := by
      rcases blank with rfl | rfl
      · simpa using trimmed
      · simpa [trim_blank] using trimmed
    cases args with
    | nil =>
      have whole := splitArgsFrom_enclosed enclosed current []
      rw [List.append_nil] at whole
      rw [joined_one, whole, splitArgsFrom, alone]
      simp [solid]
    | cons next args =>
      have spaced : ∀ text : List Char, splitArgsFrom none 0 [] (' ' :: text) = splitArgsFrom none 0 [' '] text := fun _ => rfl
      rw [joined_cons, splitArgsFrom_enclosed enclosed, splitArgsFrom_comma, alone, spaced,
        ih (fun other member => each other (List.mem_cons_of_mem arg member)) [' '] (.inr rfl)]

end

/-- Joined arguments are split into the same arguments, and the parenthesis that closes a call of them is found whatever
stands around the call. Wherever a scan starts outside of the literals it takes for quoted what the places of the literals
take for quoted: the quotes that it meets give the same marks, and the scan for the parenthesis and the split are those
of the marked text. -/
theorem arguments_read_back {args : List (List Char)} (each : ∀ arg ∈ args, IsArgument arg) :
    splitArgs (joined args) = args ∧
    (∀ before behind : List Char, matchingParen (before ++ '(' :: (joined args ++ ')' :: behind)) before.length =
      some (before.length + 1 + (joined args).length)) ∧
    ∀ (text : List Char) (start : Nat), OutsideLiterals text start →
      literalMarks none (text.drop start) = ((List.range text.length).map (inSpans (literalSpans 0 text))).drop start ∧
      matchingParen text start = (closingUnmarked 0 ((marked text).drop start)).map (· + start) ∧
      ∀ count, splitArgs ((text.drop start).take count) = splitUnmarked 0 [] (((marked text).drop start).take count) := by
  refine ⟨splitArgsFrom_joined each [] (.inl rfl), fun before behind => ?_, fun text start outside =>
    ⟨literalMarks_drop outside, matchingParen_unmarked outside, splitArgs_unmarked outside⟩⟩
  have opens : ∀ text : List Char, closingOffset none 0 ('(' :: text) = (closingOffset none 1 text).map (· + 1) := fun _ => rfl
  rw [matchingParen, List.drop_left, opens, closingOffset_joined each behind]
  simp only [Option.map_some, Option.some.injEq]
  omega

/-- A call behind a quote that is open, with commas, brackets and quotes of the other kind in its arguments. -/
theorem arguments_read_back_nested :
    splitArgs "f(1, [2, 3]), 'a,(b', x[g(']')] + 1, \"it's\"".toList =
      ["f(1, [2, 3])", "'a,(b'", "x[g(']')] + 1", "\"it's\""].map String.toList ∧
    matchingParen "don't h(f(1, [2, 3]), 'a,(b', x[g(']')] + 1, \"it's\") + (".toList 7 = some 51 := by
  have each : ∀ arg ∈ ["f(1, [2, 3])", "'a,(b'", "x[g(']')] + 1", "\"it's\""].map String.toList, IsArgument arg := by decide
  obtain ⟨split, call, -⟩ := arguments_read_back each
  exact ⟨split, call "don't h".toList " + (".toList⟩

end ProceduralScene.Expression
