import ProceduralScene.Proofs.PieceLiterals
import ProceduralScene.Proofs.Spelling

/-!
The first step of the reduction on pieces: `$name` tokens are replaced by what stands for the values of the variables.
-/

set_option autoImplicit false

namespace ProceduralScene.Expression

open Pieces

/-! ### Variables -/

def variablePieces (symbols : Bindings) (name : String) : Option (Pieces → Pieces) :=
  match symbols.get? name with
  | none => some (.textPieces ['0'])
  | some bound => literalPieces (parameterValue bound)

namespace Pieces

/-- The pieces with their `$name` tokens replaced; nothing when a value has no literal. -/
def substituted (symbols : Bindings) : Pieces → Option Pieces
  | .nil => some .nil
  | .mark c (.run cs rest) =>
    if c = '$' ∧ (Pieces.run cs rest).startsName = true then
      (variablePieces symbols (String.ofList cs)).bind fun add => (substituted symbols rest).map add
    else (substituted symbols (.run cs rest)).map (.mark c)
  | .mark c rest => (substituted symbols rest).map (.mark c)
  | .run cs rest => (substituted symbols rest).map (.run cs)
  | .value v rest => (substituted symbols rest).map (.value v)
  | .literal quote content rest => (substituted symbols rest).map (.literal quote content)
  | .brackets round inside rest =>
    (substituted symbols inside).bind fun within => (substituted symbols rest).map (.brackets round within)

theorem substituted_mark {symbols : Bindings} {c : Char} {rest : Pieces} (other : c ≠ '$' ∨ rest.startsName = false) :
    substituted symbols (.mark c rest) = (substituted symbols rest).map (.mark c) := by
  cases rest with
  | run cs rest =>
    rw [substituted, if_neg]
    rintro ⟨same, starts⟩
    rcases other with other | none
    · exact other same
    · rw [starts] at none
      cases none
  | _ => rfl

end Pieces

theorem descends_variables (symbols : Bindings) : Descends (· == '$') fun _ => substituted symbols where
  signs _ own := by simpa using own
  ended _ := rfl
  mark _ _ _ foreign := substituted_mark (.inl (by simpa using foreign))
  value _ _ _ := rfl
  literal _ _ _ _ := rfl
  brackets _ _ _ _ := rfl

theorem operand_variable {symbols : Bindings} {name : String} {add : Pieces → Pieces}
    (stands : variablePieces symbols name = some add) : Operand add := by
  unfold variablePieces at stands
  split at stands
  · cases stands
    exact operand_text (by decide) (List.all_eq_true.mp (by decide))
  · exact operand_literal stands

section

variable (setting : Setting) (shown : String)

theorem stands_substitute (name : String) (work : Workspace) (numbered : Numbered work.slots) :
    Stands (substitute setting shown name) work (variablePieces setting.symbols name) := by
  unfold variablePieces substitute
  cases setting.symbols.get? name with
  | none =>
    refine ⟨_, _, ?_, rfl⟩
    exact ⟨grows_refl work.slots, numbered, fun _ writes => writes_textPieces writes _⟩
  | some bound => exact stands_literalOf _ work numbered

def scanVariables : TextScan := fun quote _ text => substituteVariables setting shown quote 0 text

theorem scanVariables_copies {quote previous : Option Char} {c : Char} {text : List Char}
    (copied : c ≠ '$' ∨ quote.isSome = true) : scanVariables setting shown quote previous (c :: text) =
      pushText [c] (scanVariables setting shown (stepQuote quote c) (some c) text) := by
  unfold scanVariables
  rw [substituteVariables]
  have plain : (c == '$' && quote.isNone) = false := by
    rcases copied with other | within
    · simp [other]
    · cases quote with
      | none => cases within
      | some q => simp
  dsimp only
  rw [plain]
  rfl

theorem passes_variables : Passes (· == '$') (scanVariables setting shown) pushText where
  nothing := pushText_nil
  append := pushText_append
  mark _ foreign := scanVariables_copies setting shown (.inl (by simpa using foreign))
  inside _ wordy := by
    rw [scanVariables_copies setting shown (.inl ?_), stepQuote_word wordy]
    rintro rfl
    revert wordy
    decide
  literal {quote content} _ free previous text := by
    induction content generalizing previous with
    | nil =>
      rw [List.nil_append, scanVariables_copies setting shown (.inr rfl)]
      simp [stepQuote]
    | cons c content ih =>
      have other : c ≠ quote := fun equal => free (equal ▸ List.mem_cons_self)
      have stays : stepQuote (some quote) c = some quote := by simp [stepQuote, other]
      rw [List.cons_append, scanVariables_copies setting shown (.inr rfl), stays,
        ih (fun member => free (List.mem_cons_of_mem c member)), ← pushText_append]
      rfl

theorem scanVariables_wordy {cs : List Char} (wordy : ∀ c ∈ cs, Text.isWord c = true) (previous : Option Char)
    (tail : List Char) (nonempty : cs ≠ []) : scanVariables setting shown none previous (cs ++ tail) =
      pushText cs (scanVariables setting shown none cs.getLast? tail) := by
  obtain ⟨c, cs, rfl⟩ := List.exists_cons_of_ne_nil nonempty
  have this := wordy c List.mem_cons_self
  refine passes_run (passes_variables setting shown) wordy ?_
  rw [scanVariables_copies setting shown (.inl ?_), stepQuote_word this]
  rintro rfl
  revert this
  decide

theorem walks_variables : Walks (· == '$') (scanVariables setting shown) fun _ => substituted setting.symbols where
  toDescends := descends_variables setting.symbols
  passes := passes_variables setting shown
  slot i {previous tail} _ _ := scanVariables_wordy setting shown (slotName_wordy i) previous tail
    (by simp [slotName_toList, slotMark])

theorem substituteVariables_skip {cs : List Char} (wordy : ∀ c ∈ cs, Text.isWord c = true) (tail : List Char) :
    substituteVariables setting shown none cs.length (cs ++ tail) = substituteVariables setting shown none 0 tail := by
  induction cs with
  | nil => rfl
  | cons c cs ih =>
    rw [List.length_cons, List.cons_append, substituteVariables, stepQuote_word (wordy c List.mem_cons_self)]
    exact ih fun d member => wordy d (List.mem_cons_of_mem c member)

theorem isWord_of_isNameStart {c : Char} (starts : isNameStart c = true) : Text.isWord c = true :=
  isWord_of_isNameChar (isNameChar_of_isNameStart starts)

/-- Behind a sign that starts no name of the pieces, the text starts none. -/
theorem cutName_writes {slots : Bindings} {rest : Pieces} {text tail : List Char} (writes : rest.Writes slots text)
    {named : Bool} {callee : Callee} {found : Argument} (fits : rest.orderly named .dollar callee found = true)
    (none : rest.startsName = false) (apart : Apart tail) : cutName? (text ++ tail) = .none := by
  have cut : ∀ c more, isNameStart c = false → cutName? (c :: more) = .none := by
    intro c more other
    rw [cutName?, other]
    rfl
  have noWord : ∀ c, Text.isWord c = false → isNameStart c = false := by
    intro c noWord
    refine Bool.eq_false_iff.mpr fun starts => ?_
    rw [isWord_of_isNameStart starts] at noWord
    cases noWord
  cases writes with
  | nil =>
    cases tail with
    | nil => rfl
    | cons c tail => exact cut c _ (noWord c (apart.head c rfl))
  | mark _ => exact cut _ _ (noWord _ (isMark_spec (orderly_mark.mp fits).1).1)
  | @run cs _ _ nonempty _ =>
    obtain ⟨c, cs, rfl⟩ := List.exists_cons_of_ne_nil nonempty
    exact cut c _ none
  | value _ _ _ => exact absurd rfl (orderly_value.mp fits).2.1
  | literal _ => exact cut _ _ (noWord _ (isWord_of_isQuote (orderly_literal.mp fits).1))
  | @brackets round _ _ _ _ _ _ => exact cut _ _ (by cases round <;> decide)

/-- Behind a sign that starts a name of the pieces, the text starts the same name. -/
theorem cutName_run {cs : List Char} {rest : Pieces} (starts : (Pieces.run cs rest).startsName = true)
    (whole : (Pieces.run cs rest).namesWhole = true) {after : List Char} (apart : ∀ c ∈ after.head?, Text.isWord c = false) :
    cutName? (cs ++ after) = some (cs, after) := by
  cases cs with
  | nil => cases starts
  | cons c cs =>
    have names : ∀ d ∈ cs, isNameChar d = true := fun d member =>
      List.all_eq_true.mp (show (c :: cs).all isNameChar = true from whole) d (List.mem_cons_of_mem c member)
    have stops : ∀ d ∈ after.head?, isNameChar d = false := by
      intro d head
      refine Bool.eq_false_iff.mpr fun name => ?_
      have noWord := apart d head
      rw [isWord_of_isNameChar name] at noWord
      cases noWord
    rw [List.cons_append, cutName?, if_pos (show isNameStart c = true from starts), takeWhile_run names stops, dropWhile_run names stops]

theorem next_after_sign {found : Argument} : (found.after '$').next = found.next := by
  have sign : ('$' = ',') = False ∧ Text.isSpace '$' = false := by decide
  cases found <;> simp [Argument.after, Argument.next, sign]

theorem rewrites_sign {c : Char} {rest : Pieces} (sign : c = '$')
    (ih : ∀ smaller, sizeOf smaller < sizeOf (Pieces.mark c rest) →
      Rewrites true (scanVariables setting shown) (fun _ => substituted setting.symbols) smaller) :
    Rewrites true (scanVariables setting shown) (fun _ => substituted setting.symbols) (.mark c rest) := by
  subst sign
  have further := ih rest (by simp only [mark.sizeOf_spec]; omega)
  cases starts : rest.startsName with
  | false =>
    have stays : substituted setting.symbols (.mark '$' rest) = (substituted setting.symbols rest).map (.mark '$') :=
      substituted_mark (.inr starts)
    constructor
    · intro edge around callee found _ fits result stepped
      obtain ⟨mark, comma, -, fits⟩ := orderly_mark.mp fits
      rw [stays] at stepped
      obtain ⟨inner, same, rfl⟩ := Option.map_eq_some_iff.mp stepped
      obtain ⟨keeps, start⟩ := further.keeps (.inr rfl) fits inner same
      refine ⟨orderly_mark.mpr ⟨mark, comma, fun _ begins => ?_, keeps⟩, fun _ => rfl⟩
      rw [start (by decide), starts] at begins
      cases begins
    · intro edge around callee found _ fits work previous text tail numbered writes _ apart
      obtain ⟨-, -, -, fits⟩ := orderly_mark.mp fits
      cases writes with
      | @mark _ _ text writes =>
        have copied : scanVariables setting shown none previous ('$' :: (text ++ tail)) =
            pushText ['$'] (scanVariables setting shown none (some '$') (text ++ tail)) := by
          unfold scanVariables
          rw [substituteVariables, cutName_writes writes fits starts apart]
          rfl
        rw [List.cons_append, copied, stays]
        exact becomes_push (fun _ written => .mark written)
          (further.becomes (.inr rfl) fits work (some '$') text tail numbered writes (.inr rfl) apart)
  | true =>
    cases rest with
    | run cs rest =>
      have inner := ih rest (by simp only [mark.sizeOf_spec, run.sizeOf_spec]; omega)
      have replaces : substituted setting.symbols (.mark '$' (.run cs rest)) =
          (variablePieces setting.symbols (String.ofList cs)).bind fun add => (substituted setting.symbols rest).map add := by
        rw [substituted, if_pos ⟨rfl, starts⟩]
      constructor
      · intro edge around callee found _ fits result stepped
        obtain ⟨-, -, name, fits⟩ := orderly_mark.mp fits
        obtain ⟨-, noWord, noDollar, -⟩ := name rfl starts
        obtain ⟨-, -, -, -, fits⟩ := orderly_run.mp fits
        rw [show Edge.behind (some '$') = .dollar by decide, Callee.ofWord_dollar] at fits
        rw [replaces] at stepped
        obtain ⟨add, stands, stepped⟩ := Option.bind_eq_some_iff.mp stepped
        obtain ⟨after, same, rfl⟩ := Option.map_eq_some_iff.mp stepped
        rw [next_after_sign] at fits
        have behind : Edge.word = .word ∨ Edge.word = edge := .inl rfl
        exact ⟨(operand_variable stands).orderly noWord noDollar (inner.keeps behind fits after same).1,
          fun dollar => absurd dollar noDollar⟩
      · intro edge around callee found _ fits work previous text tail numbered writes _ apart
        obtain ⟨-, -, name, fits⟩ := orderly_mark.mp fits
        obtain ⟨-, -, -, whole⟩ := name rfl starts
        obtain ⟨-, -, wordy, -, fits⟩ := orderly_run.mp fits
        cases writes with
        | mark writes =>
          cases writes with
          | @run _ _ text nonempty writes =>
            have cut := cutName_run starts whole (writes_apart writes fits apart)
            have replaced : scanVariables setting shown none previous ('$' :: (cs ++ (text ++ tail))) =
                substitute setting shown (String.ofList cs) >>= fun literal =>
                  pushText literal (scanVariables setting shown none cs.getLast? (text ++ tail)) := by
              unfold scanVariables
              rw [substituteVariables, cut, show stepQuote none '$' = none from rfl]
              dsimp only
              rw [substituteVariables_skip setting shown wordy]
              rfl
            rw [List.cons_append, List.append_assoc, replaced, replaces]
            refine becomes_stands (stands_substitute setting shown _ work numbered) fun _ text after _ written => ?_
            exact inner.becomes (show Edge.word = .word ∨ Edge.word = edge from .inl rfl) fits after _ _ tail written.2.1
              (writes_grows written.1 writes) (.inl rfl) apart
    | _ => cases starts

theorem rewrites_variables (pieces : Pieces) :
    Rewrites true (scanVariables setting shown) (fun _ => substituted setting.symbols) pieces := by
  refine rewrites_walks (walks_variables setting shown) (fun _ => rfl) (fun c rest own ih => ?_) (fun cs rest ih => ?_) pieces
  · exact rewrites_sign setting shown (by simpa using own) ih
  · have further := ih rest (by simp only [run.sizeOf_spec]; omega)
    have stays : ∀ edge : Edge, (fun _ => substituted setting.symbols) edge (.run cs rest) =
        ((fun _ => substituted setting.symbols) Edge.word rest).map (.run cs) := fun _ => rfl
    constructor
    · intro edge around callee found _ fits result stepped
      exact @keeps_run _ _ _ _ _ edge _ _ _ (stays edge) further fits _ stepped
    · intro edge around callee found _ fits work previous text tail numbered writes _ apart
      cases writes with
      | @run _ _ text nonempty writes =>
        obtain ⟨-, -, wordy, -, -⟩ := orderly_run.mp fits
        rw [List.append_assoc]
        exact @becomes_run _ _ _ _ _ edge _ _ _ (stays edge) further fits _ numbered _ writes _ apart _
          (scanVariables_wordy setting shown wordy previous (text ++ tail) nonempty)

end

end ProceduralScene.Expression
