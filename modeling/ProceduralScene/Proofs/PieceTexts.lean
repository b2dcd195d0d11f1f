import ProceduralScene.Proofs.Pieces

/-!
How the texts of orderly pieces are cut: at the parenthesis that closes a call, at the commas between its arguments,
and at the blanks around them.
-/

set_option autoImplicit false

namespace ProceduralScene.Expression

/-! ### Characters that are no quotes and no brackets -/

structure Quiet (c : Char) : Prop where
  quote : isQuote c = false
  opens : c ≠ '('
  closes : c ≠ ')'
  opensList : c ≠ '['
  closesList : c ≠ ']'

theorem isMark_spec {c : Char} (mark : isMark c = true) : Text.isWord c = false ∧ Quiet c := by
  simp only [isMark, Bool.and_eq_true, Bool.not_eq_true', List.contains_eq_mem, decide_eq_false_iff_not, List.mem_cons,
    List.not_mem_nil, or_false, not_or] at mark
  obtain ⟨⟨noWord, noQuote⟩, noOpen, noClose, noList, noEnd⟩ := mark
  exact ⟨noWord, noQuote, noOpen, noClose, noList, noEnd⟩

theorem quiet_word {c : Char} (wordy : Text.isWord c = true) : Quiet c := by
  have differs : ∀ d : Char, Text.isWord d = false → c ≠ d := by
    rintro d other rfl
    rw [other] at wordy
    cases wordy
  refine ⟨?_, differs _ (by decide), differs _ (by decide), differs _ (by decide), differs _ (by decide)⟩
  refine Bool.eq_false_iff.mpr fun quote => ?_
  rw [isWord_of_isQuote quote] at wordy
  cases wordy

theorem isSpace_word {c : Char} (wordy : Text.isWord c = true) : Text.isSpace c = false := by
  refine Bool.eq_false_iff.mpr fun space => ?_
  rw [Text.isWord_of_isSpace space] at wordy
  cases wordy

theorem isSpace_quote {c : Char} (quote : isQuote c = true) : Text.isSpace c = false := by
  simp only [isQuote, Bool.or_eq_true, beq_iff_eq] at quote
  rcases quote with rfl | rfl <;> decide

theorem isSpace_opening (round : Bool) : Text.isSpace (opening round) = false := by cases round <;> decide

theorem isSpace_closing (round : Bool) : Text.isSpace (closing round) = false := by cases round <;> decide

theorem stepQuote_quiet {c : Char} (quiet : Quiet c) : stepQuote none c = none := by simp [stepQuote, quiet.quote]

theorem isMark_space {c : Char} (space : Text.isSpace c = true) : isMark c = true := by
  have noQuote : isQuote c = false := by
    refine Bool.eq_false_iff.mpr fun quote => ?_
    rw [isSpace_quote quote] at space
    cases space
  have differs : ∀ d : Char, Text.isSpace d = false → c ≠ d := by
    rintro d other rfl
    rw [other] at space
    cases space
  simp [isMark, Text.isWord_of_isSpace space, noQuote, differs '(' (by decide), differs ')' (by decide),
    differs '[' (by decide), differs ']' (by decide)]

/-! ### Behind a text of pieces -/

theorem quoteAfter_quiet {cs : List Char} (quiet : ∀ c ∈ cs, Quiet c) : quoteAfter none cs = none := by
  induction cs with
  | nil => rfl
  | cons c cs ih =>
    rw [quoteAfter, List.foldl_cons, stepQuote_quiet (quiet c List.mem_cons_self)]
    exact ih fun d member => quiet d (List.mem_cons_of_mem c member)

theorem quoteAfter_literal {quote : Char} {content : List Char} (free : quote ∉ content) :
    quoteAfter (some quote) (content ++ [quote]) = none := by
  induction content with
  | nil => simp [quoteAfter, stepQuote]
  | cons c content ih =>
    have other : c ≠ quote := fun equal => free (equal ▸ List.mem_cons_self)
    rw [List.cons_append, quoteAfter, List.foldl_cons, show stepQuote (some quote) c = some quote by simp [stepQuote, other]]
    exact ih fun member => free (List.mem_cons_of_mem c member)

theorem closingOffset_quiet {cs : List Char} (quiet : ∀ c ∈ cs, Quiet c) (depth : Int) (tail : List Char) :
    closingOffset none depth (cs ++ tail) = (closingOffset none depth tail).map (· + cs.length) := by
  induction cs with
  | nil => simp
  | cons c cs ih =>
    have this := quiet c List.mem_cons_self
    have further := ih fun d member => quiet d (List.mem_cons_of_mem c member)
    rw [List.cons_append, closingOffset]
    simp only [Option.isSome_none, Bool.false_eq_true, if_false, beq_iff_eq, this.opens, this.closes,
      stepQuote_quiet this, further, Option.map_map, List.length_cons]
    congr 1

theorem closingOffset_one {c : Char} (quiet : Quiet c) (depth : Int) (tail : List Char) :
    closingOffset none depth (c :: tail) = (closingOffset none depth tail).map (· + 1) :=
  @closingOffset_quiet [c] (by simpa using quiet) depth tail

theorem closingOffset_literal {quote : Char} {content : List Char} (free : quote ∉ content) (depth : Int)
    (tail : List Char) : closingOffset (some quote) depth (content ++ quote :: tail) =
      (closingOffset none depth tail).map (· + (content.length + 1)) := by
  induction content with
  | nil => simp [closingOffset, stepQuote]
  | cons c content ih =>
    have other : c ≠ quote := fun equal => free (equal ▸ List.mem_cons_self)
    have further := ih fun member => free (List.mem_cons_of_mem c member)
    rw [List.cons_append, closingOffset]
    simp only [Option.isSome_some, if_true, stepQuote, beq_iff_eq, other, if_false, further, Option.map_map,
      List.length_cons]
    congr 1

namespace Pieces

variable {slots : Bindings} {named : Bool} {pieces : Pieces} {text : List Char}

theorem quoteAfter_writes (writes : Writes slots pieces text) : ∀ {edge : Edge} {callee : Callee} {found : Argument},
    orderly named edge callee found pieces = true → quoteAfter none text = none := by
  induction writes with
  | nil => intros; rfl
  | mark _ ih =>
    intro edge callee found fits
    obtain ⟨mark, -, -, further⟩ := orderly_mark.mp fits
    rw [quoteAfter, List.foldl_cons, stepQuote_quiet (isMark_spec mark).2]
    exact ih further
  | run _ _ ih =>
    intro edge callee found fits
    obtain ⟨-, -, wordy, -, further⟩ := orderly_run.mp fits
    rw [quoteAfter_append, quoteAfter_quiet fun c member => quiet_word (wordy c member)]
    exact ih further
  | value i _ _ ih =>
    intro edge callee found fits
    obtain ⟨-, -, further⟩ := orderly_value.mp fits
    rw [quoteAfter_append, quoteAfter_quiet fun c member => quiet_word (slotName_wordy i c member)]
    exact ih further
  | @literal quote content _ text _ ih =>
    intro edge callee found fits
    obtain ⟨quoting, free, further⟩ := orderly_literal.mp fits
    have split : quote :: (content ++ quote :: text) = [quote] ++ ((content ++ [quote]) ++ text) := by simp
    have opens : quoteAfter none [quote] = some quote := by simp [quoteAfter, stepQuote, quoting]
    rw [split, quoteAfter_append, opens, quoteAfter_append, quoteAfter_literal free]
    exact ih further
  | @brackets round _ _ text after _ _ inner ih =>
    intro edge callee found fits
    obtain ⟨within, further⟩ := orderly_brackets.mp fits
    have split : opening round :: (text ++ closing round :: after) = [opening round] ++ (text ++ ([closing round] ++ after)) := by
      simp
    have opens : quoteAfter none [opening round] = none := by cases round <;> rfl
    have closes : quoteAfter none [closing round] = none := by cases round <;> rfl
    rw [split, quoteAfter_append, opens, quoteAfter_append, inner within, quoteAfter_append, closes]
    exact ih further

/-- Brackets that are opened within pieces are closed within them. -/
theorem closingOffset_writes (writes : Writes slots pieces text) : ∀ {edge : Edge} {callee : Callee} {found : Argument},
    orderly named edge callee found pieces = true → ∀ (depth : Int), 0 < depth → ∀ tail : List Char,
    closingOffset none depth (text ++ tail) = (closingOffset none depth tail).map (· + text.length) := by
  induction writes with
  | nil => intros; simp
  | @mark c _ text _ ih =>
    intro edge callee found fits depth positive tail
    obtain ⟨mark, -, -, further⟩ := orderly_mark.mp fits
    rw [List.cons_append, closingOffset_one (isMark_spec mark).2, ih further depth positive tail, Option.map_map]
    congr 1
  | @run cs _ text _ _ ih =>
    intro edge callee found fits depth positive tail
    obtain ⟨-, -, wordy, -, further⟩ := orderly_run.mp fits
    rw [List.append_assoc, closingOffset_quiet (fun c member => quiet_word (wordy c member)), ih further depth positive tail,
      Option.map_map]
    congr 1
    funext n
    simp only [Function.comp_apply, List.length_append]
    omega
  | value i _ _ ih =>
    intro edge callee found fits depth positive tail
    obtain ⟨-, -, further⟩ := orderly_value.mp fits
    rw [List.append_assoc, closingOffset_quiet (fun c member => quiet_word (slotName_wordy i c member)),
      ih further depth positive tail, Option.map_map]
    congr 1
    funext n
    simp only [Function.comp_apply, List.length_append]
    omega
  | @literal quote content _ text _ ih =>
    intro edge callee found fits depth positive tail
    obtain ⟨quoting, free, further⟩ := orderly_literal.mp fits
    have noOpen : quote ≠ '(' := by
      rintro rfl
      cases quoting
    have noClose : quote ≠ ')' := by
      rintro rfl
      cases quoting
    have opens : stepQuote none quote = some quote := by simp [stepQuote, quoting]
    rw [List.cons_append, List.append_assoc, List.cons_append, closingOffset]
    simp only [Option.isSome_none, Bool.false_eq_true, if_false, beq_iff_eq, noOpen, noClose, opens,
      closingOffset_literal free, ih further depth positive tail, Option.map_map]
    congr 1
    funext n
    simp only [Function.comp_apply, List.length_cons, List.length_append]
    omega
  | @brackets round _ _ text after _ _ inner ih =>
    intro edge callee found fits depth positive tail
    obtain ⟨within, further⟩ := orderly_brackets.mp fits
    have length : ∀ n : Nat, n + after.length + 1 + text.length + 1 =
        n + (opening round :: (text ++ closing round :: after)).length := by
      intro n
      simp only [List.length_cons, List.length_append]
      omega
    cases round with
    | true =>
      have deeper : ¬ depth + 1 = 1 := by omega
      rw [List.cons_append, List.append_assoc, List.cons_append, closingOffset]
      simp only [opening, closing, Option.isSome_none, Bool.false_eq_true, if_false, beq_iff_eq, if_true]
      rw [inner within (depth + 1) (by omega), closingOffset]
      simp only [Option.isSome_none, Bool.false_eq_true, if_false, beq_iff_eq, deeper, if_true,
        show ¬ (')' = '(') by decide]
      rw [show depth + 1 - 1 = depth by omega, ih further depth positive tail, Option.map_map, Option.map_map,
        Option.map_map]
      congr 1
      funext n
      exact length n
    | false =>
      rw [List.cons_append, List.append_assoc, List.cons_append, closingOffset]
      simp only [opening, closing, Option.isSome_none, Bool.false_eq_true, if_false, beq_iff_eq,
        show ¬ ('[' = '(') by decide, show ¬ ('[' = ')') by decide, show stepQuote none '[' = none from rfl]
      rw [inner within depth positive, closingOffset]
      simp only [Option.isSome_none, Bool.false_eq_true, if_false, beq_iff_eq, show ¬ (']' = '(') by decide,
        show ¬ (']' = ')') by decide, show stepQuote none ']' = none from rfl, ih further depth positive tail,
        Option.map_map]
      congr 1
      funext n
      exact length n

theorem cutAtClosing_writes (writes : Writes slots pieces text) {edge : Edge} {callee : Callee} {found : Argument}
    (fits : orderly named edge callee found pieces = true) (tail : List Char) :
    cutAtClosing (text ++ ')' :: tail) = some (text, tail) := by
  have here : closingOffset none 1 (')' :: tail) = some 0 := by simp [closingOffset]
  rw [cutAtClosing, closingOffset_writes writes fits 1 (by decide), here]
  simp

end Pieces

end ProceduralScene.Expression
