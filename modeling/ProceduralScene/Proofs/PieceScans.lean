import ProceduralScene.Proofs.PieceArguments

/-!
A scan that rewrites an expression text rewrites its pieces. What a scan does to pieces depends neither on the numbers
of the slots nor on the text that follows, so it is the same for a text on its own and for the text as a part of
another one.
-/

set_option autoImplicit false

namespace ProceduralScene.Expression

/-- A text that neither goes on with a word nor opens a call of one. -/
structure Apart (tail : List Char) : Prop where
  head : ∀ c ∈ tail.head?, Text.isWord c = false
  noCall : (tail.dropWhile Text.isSpace).head? ≠ some '('

theorem apart_nil : Apart [] := ⟨fun _ head => (nomatch head), nofun⟩

theorem apart_closing (round : Bool) (tail : List Char) : Apart (closing round :: tail) := by
  refine ⟨fun c head => ?_, ?_⟩
  · cases head
    cases round <;> decide
  · rw [List.dropWhile_cons_of_neg (by simp [isSpace_closing])]
    cases round <;> simp [closing]

theorem behind_word {c : Char} (wordy : Text.isWord c = true) : Edge.behind (some c) = .word := by
  simp [Edge.behind, wordy]

theorem behind_quote {c : Char} (quote : isQuote c = true) : Edge.behind (some c) = .plain := by
  simp only [isQuote, Bool.or_eq_true, beq_iff_eq] at quote
  rcases quote with rfl | rfl <;> decide

theorem behind_bracket (round : Bool) : Edge.behind (some (opening round)) = .plain ∧
    Edge.behind (some (closing round)) = .plain := by
  cases round <;> decide

theorem behind_closing (callee : Callee) (round : Bool) :
    callee.edge round = .word ∨ Edge.behind (some (closing round)) = callee.edge round :=
  (callee.edge_cases round).imp id fun plain => (behind_bracket round).2.trans plain.symm

theorem any_isWord_iff (previous : Option Char) : previous.any Text.isWord = true ↔ Edge.behind previous = .word := by
  cases previous with
  | none => simp [Edge.behind]
  | some c =>
    by_cases word : Text.isWord c = true
    · simp [Edge.behind, word]
    · simp only [Option.any_some, word, Edge.behind, Bool.false_eq_true, if_false, false_iff]
      split
      · simp
      · split <;> simp

/-! ### Calls in pieces -/

namespace Pieces

/-- What a parenthesis behind blanks encloses, and what follows it. -/
def callBehind : Pieces → Option (Pieces × Pieces)
  | .mark c rest => if Text.isSpace c then callBehind rest else none
  | .brackets true inside rest => some (inside, rest)
  | _ => none

theorem sizeOf_callBehind {rest inside behind : Pieces} (call : rest.callBehind = some (inside, behind)) :
    sizeOf inside < sizeOf rest ∧ sizeOf behind < sizeOf rest := by
  induction rest with
  | mark c rest ih =>
    rw [callBehind] at call
    split at call
    · obtain ⟨first, second⟩ := ih call
      simp only [mark.sizeOf_spec]
      omega
    · cases call
  | brackets round within rest _ _ =>
    cases round with
    | true =>
      cases call
      simp only [brackets.sizeOf_spec]
      omega
    | false => cases call
  | _ => cases call

section

variable {slots : Bindings} {named : Bool} {rest : Pieces} {text : List Char} {found : Argument}

theorem next_next (found : Argument) : found.next.next = found.next := by cases found <;> rfl

/-- A call behind a word has orderly arguments, and what follows it stands apart. -/
theorem orderly_callBehind {inside behind : Pieces} (call : rest.callBehind = some (inside, behind)) {callee : Callee}
    (calls : callee ≠ .none) : ∀ {edge : Edge}, orderly named edge callee found.next rest = true →
      orderly named .plain .none (callee.opens true) inside = true ∧ orderly named .word .call found.next behind = true := by
  induction rest with
  | mark c rest ih =>
    intro edge fits
    rw [callBehind] at call
    split at call
    · rename_i space
      obtain ⟨-, -, -, fits⟩ := orderly_mark.mp fits
      rw [callee.after_space space, after_space found.next space] at fits
      exact ih call fits
    · cases call
  | brackets round within rest _ _ =>
    intro edge fits
    cases round with
    | true =>
      cases call
      obtain ⟨within, fits⟩ := orderly_brackets.mp fits
      rw [next_next, Callee.edge_call calls] at fits
      exact ⟨within, fits⟩
    | false => cases call
  | _ => cases call

theorem writes_callBehind {inside behind : Pieces} (call : rest.callBehind = some (inside, behind))
    (writes : Writes slots rest text) : ∃ blanks within after, (∀ c ∈ blanks, Text.isSpace c = true) ∧
      text = blanks ++ '(' :: (within ++ ')' :: after) ∧ Writes slots inside within ∧ Writes slots behind after := by
  induction writes with
  | @mark c rest text _ ih =>
    rw [callBehind] at call
    split at call
    · rename_i space
      obtain ⟨blanks, within, after, blank, rfl, first, second⟩ := ih call
      refine ⟨c :: blanks, within, after, fun d member => ?_, rfl, first, second⟩
      rcases List.mem_cons.mp member with rfl | member
      · exact space
      · exact blank d member
    · cases call
  | @brackets round _ _ text after inside further _ _ =>
    cases round with
    | true =>
      cases call
      exact ⟨[], text, after, fun _ member => (nomatch member), rfl, inside, further⟩
    | false => cases call
  | _ => cases call

theorem no_callBehind (call : rest.callBehind = none) (writes : Writes slots rest text) {tail : List Char}
    (apart : Apart tail) : ∀ {edge : Edge} {callee : Callee} {found : Argument}, orderly named edge callee found rest = true →
      ((text ++ tail).dropWhile Text.isSpace).head? ≠ some '(' := by
  induction writes with
  | nil => exact fun _ => apart.noCall
  | @mark c rest text _ ih =>
    intro edge callee found fits
    obtain ⟨mark, -, -, fits⟩ := orderly_mark.mp fits
    rw [callBehind] at call
    rw [List.cons_append, List.dropWhile_cons]
    split
    · rename_i space
      rw [if_pos space] at call
      exact ih call fits
    · intro same
      cases same
      exact (isMark_spec mark).2.opens rfl
  | @run cs _ _ nonempty _ _ =>
    intro edge callee found fits
    obtain ⟨-, -, wordy, -, -⟩ := orderly_run.mp fits
    obtain ⟨c, cs, rfl⟩ := List.exists_cons_of_ne_nil nonempty
    have this := wordy c List.mem_cons_self
    rw [List.cons_append, List.cons_append, List.dropWhile_cons_of_neg (by simp [isSpace_word this])]
    intro same
    cases same
    exact (quiet_word this).opens rfl
  | value i _ _ _ =>
    intro edge callee found fits
    obtain ⟨c, cs, same⟩ : ∃ c cs, (slotName i).toList = c :: cs := ⟨_, _, slotName_toList i⟩
    have this := slotName_wordy i c (by rw [same]; exact List.mem_cons_self)
    rw [same, List.cons_append, List.cons_append, List.dropWhile_cons_of_neg (by simp [isSpace_word this])]
    intro opens
    cases opens
    exact (quiet_word this).opens rfl
  | literal _ _ =>
    intro edge callee found fits
    obtain ⟨quoting, -, -⟩ := orderly_literal.mp fits
    rw [List.cons_append, List.dropWhile_cons_of_neg (by simp [isSpace_quote quoting])]
    intro same
    cases same
    cases quoting
  | @brackets round _ _ _ _ _ _ _ _ =>
    intro edge callee found fits
    cases round with
    | true => cases call
    | false =>
      rw [List.cons_append, List.dropWhile_cons_of_neg (by simp [isSpace_opening])]
      simp [opening]

/-- Where no call follows, any could be open. -/
theorem orderly_noCall (none : rest.callBehind = none) {callee callee' : Callee} {edge : Edge} {found : Argument}
    (fits : orderly named edge callee found rest = true) : orderly named edge callee' found rest = true := by
  induction rest generalizing edge callee callee' found with
  | mark c rest ih =>
    obtain ⟨mark, comma, name, fits⟩ := orderly_mark.mp fits
    refine orderly_mark.mpr ⟨mark, comma, name, ?_⟩
    rw [callBehind] at none
    cases space : Text.isSpace c with
    | true =>
      rw [if_pos space] at none
      exact ih none fits
    | false =>
      rw [Callee.after_solid _ space] at fits ⊢
      exact fits
  | brackets round inside rest _ _ =>
    cases round with
    | true => cases none
    | false => simpa [orderly_brackets, Callee.opens, Callee.edge] using fits
  | nil | run | value | literal => exact fits

/-- Behind a word no word goes on. -/
theorem writes_apart (writes : Writes slots rest text) {callee : Callee} (fits : orderly named .word callee found rest = true)
    {tail : List Char} (apart : Apart tail) : ∀ c ∈ (text ++ tail).head?, Text.isWord c = false := by
  intro c head
  cases writes with
  | nil => exact apart.head c head
  | mark _ =>
    cases head
    exact (isMark_spec (orderly_mark.mp fits).1).1
  | run _ _ => exact absurd rfl (orderly_run.mp fits).1
  | value _ _ _ => exact absurd rfl (orderly_value.mp fits).1
  | literal _ =>
    cases head
    exact isWord_of_isQuote (orderly_literal.mp fits).1
  | @brackets round _ _ _ _ _ _ =>
    cases head
    cases round <;> decide

end

end Pieces

/-! ### Rewriting of pieces -/

abbrev TextScan := Option Char → Option Char → List Char → Reduction (List Char)

/-- The action fails, or it rewrites a text in front of the one that is left for `next`. -/
def Becomes (action : Reduction (List Char)) (work : Workspace) (result : Option Pieces)
    (next : Option Char → Reduction (List Char)) : Prop :=
  match result with
  | none => ∃ failure after, action.run.run work = (.error failure, after)
  | some pieces => ∃ text after last, Grows work.slots after.slots ∧ Numbered after.slots ∧
      pieces.Writes after.slots text ∧ action.run.run work = (pushText text (next last)).run.run after

theorem run_pushText (head : List Char) (action : Reduction (List Char)) (work : Workspace) :
    (pushText head action).run.run work =
      ((action.run.run work).1.map (head ++ ·), (action.run.run work).2) := by
  unfold pushText
  simp only [bind_pure_comp, ExceptT.run_map, StateT.run_map]
  rfl

theorem pushText_append (first second : List Char) (action : Reduction (List Char)) :
    pushText (first ++ second) action = pushText first (pushText second action) := by simp [pushText]

theorem pushText_nil (action : Reduction (List Char)) : pushText [] action = action := by simp [pushText]

theorem run_pushText_congr {head : List Char} {action other : Reduction (List Char)} {work after : Workspace}
    (same : action.run.run work = other.run.run after) :
    (pushText head action).run.run work = (pushText head other).run.run after := by
  rw [run_pushText, run_pushText, same]

section

variable {action : Reduction (List Char)} {work : Workspace} {result : Option Pieces}
  {next : Option Char → Reduction (List Char)}

theorem becomes_nil (numbered : Numbered work.slots) (last : Option Char) (same : action = next last) :
    Becomes action work (some .nil) next :=
  ⟨[], work, last, grows_refl _, numbered, .nil, by rw [pushText_nil, same]⟩

/-- A text that is copied in front of what becomes pieces. -/
theorem becomes_push {copied : List Char} {add : Pieces → Pieces}
    (writes : ∀ {slots : Bindings} {pieces : Pieces} {text : List Char}, Grows work.slots slots →
      pieces.Writes slots text → (add pieces).Writes slots (copied ++ text))
    (becomes : Becomes action work result next) : Becomes (pushText copied action) work (result.map add) next := by
  cases result with
  | none =>
    obtain ⟨failure, after, run⟩ := becomes
    exact ⟨failure, after, by rw [run_pushText, run]; rfl⟩
  | some pieces =>
    obtain ⟨text, after, last, grows, numbered, written, run⟩ := becomes
    exact ⟨copied ++ text, after, last, grows, numbered, writes grows written,
      by rw [pushText_append]; exact run_pushText_congr run⟩

/-- Pieces that two actions become one after the other, with copied texts before and between them. -/
theorem becomes_then {first second : Option Pieces} {between inner : Option Char → Reduction (List Char)}
    {before middle : List Char} {combine : Pieces → Pieces → Pieces}
    (writes : ∀ {slots : Bindings} {pieces others : Pieces} {text after : List Char}, pieces.Writes slots text →
      others.Writes slots after → (combine pieces others).Writes slots (before ++ (text ++ (middle ++ after))))
    (becomes : Becomes action work first between) (glue : ∀ last, between last = pushText middle (inner last))
    (further : ∀ (after : Workspace) (last : Option Char), Grows work.slots after.slots → Numbered after.slots →
      Becomes (inner last) after second next) :
    Becomes (pushText before action) work (first.bind fun pieces => second.map (combine pieces)) next := by
  cases first with
  | none =>
    obtain ⟨failure, after, run⟩ := becomes
    exact ⟨failure, after, by rw [run_pushText, run]; rfl⟩
  | some pieces =>
    obtain ⟨text, after, last, grows, numbered, written, run⟩ := becomes
    have rest := further after last grows numbered
    cases second with
    | none =>
      obtain ⟨failure, ended, run'⟩ := rest
      exact ⟨failure, ended, by rw [run_pushText, run, run_pushText, glue, run_pushText, run']; rfl⟩
    | some others =>
      obtain ⟨text', ended, last', grows', numbered', written', run'⟩ := rest
      refine ⟨before ++ (text ++ (middle ++ text')), ended, last', grows_trans grows grows', numbered',
        writes (Pieces.writes_grows grows' written) written', ?_⟩
      rw [pushText_append, pushText_append, pushText_append]
      refine run_pushText_congr (run.trans (run_pushText_congr ?_))
      rw [glue]
      exact run_pushText_congr run'

end

theorem run_bind_ok {α β : Type} {action : Reduction α} {work after : Workspace} {result : α}
    (run : action.run.run work = (.ok result, after)) (next : α → Reduction β) :
    (action >>= next).run.run work = (next result).run.run after := by
  simp only [ExceptT.run_bind, StateT.run_bind, run]
  rfl

theorem run_bind_error {α β : Type} {action : Reduction α} {work after : Workspace} {failure : Failure}
    (run : action.run.run work = (.error failure, after)) (next : α → Reduction β) :
    (action >>= next).run.run work = (.error failure, after) := by
  simp only [ExceptT.run_bind, StateT.run_bind, run]
  rfl

theorem becomes_from {action other : Reduction (List Char)} {work after : Workspace} {result : Option Pieces}
    {next : Option Char → Reduction (List Char)} (grows : Grows work.slots after.slots)
    (same : action.run.run work = other.run.run after) (becomes : Becomes other after result next) :
    Becomes action work result next := by
  cases result with
  | none =>
    obtain ⟨failure, ended, run⟩ := becomes
    exact ⟨failure, ended, same.trans run⟩
  | some pieces =>
    obtain ⟨text, ended, last, grows', numbered, written, run⟩ := becomes
    exact ⟨text, ended, last, grows_trans grows grows', numbered, written, same.trans run⟩

/-- How a scan rewrites pieces at an edge: what comes out is orderly without `$name` tokens, and the scan of a text of
the pieces fails or writes it. -/
structure Rewrites (named : Bool) (scan : TextScan) (step : Edge → Pieces → Option Pieces) (pieces : Pieces) : Prop where
  keeps : ∀ {edge around : Edge} {callee : Callee} {found : Argument}, around = .word ∨ around = edge →
    pieces.orderly named around callee found = true → ∀ result, step edge pieces = some result →
      result.orderly false around callee found = true ∧ (around = .dollar → result.startsName = pieces.startsName)
  becomes : ∀ {edge around : Edge} {callee : Callee} {found : Argument}, around = .word ∨ around = edge →
    pieces.orderly named around callee found = true → ∀ (work : Workspace) (previous : Option Char) (text tail : List Char),
      Numbered work.slots → pieces.Writes work.slots text → around = .word ∨ Edge.behind previous = edge → Apart tail →
      Becomes (scan none previous (text ++ tail)) work (step edge pieces) fun last => scan none last tail

/-- A step that goes through the pieces that it does not rewrite. -/
structure Descends (own : Char → Bool) (step : Edge → Pieces → Option Pieces) : Prop where
  signs : ∀ c, own c = true → c = '$'
  ended : ∀ edge, step edge .nil = some .nil
  mark : ∀ edge c rest, own c = false → step edge (.mark c rest) = (step (.behind (some c)) rest).map (.mark c)
  value : ∀ edge v rest, step edge (.value v rest) = (step .word rest).map (.value v)
  literal : ∀ edge quote content rest, step edge (.literal quote content rest) =
    (step .plain rest).map (.literal quote content)
  brackets : ∀ edge round inside rest, step edge (.brackets round inside rest) =
    (step .plain inside).bind fun within => (step .plain rest).map (.brackets round within)

/-- What a scan does to pieces that it does not rewrite. -/
structure Walks (own : Char → Bool) (scan : TextScan) (step : Edge → Pieces → Option Pieces) : Prop
    extends Descends own step where
  passes : Passes own scan pushText
  slot : ∀ (i : Nat) {previous : Option Char} {tail : List Char}, Edge.behind previous ≠ .word →
    (∀ c ∈ tail.head?, Text.isWord c = false) →
    scan none previous ((slotName i).toList ++ tail) =
      pushText (slotName i).toList (scan none (slotName i).toList.getLast? tail)

/-- Induction on the size of pieces. -/
theorem smaller_induction {motive : Pieces → Prop}
    (further : ∀ pieces, (∀ smaller, sizeOf smaller < sizeOf pieces → motive smaller) → motive pieces) (pieces : Pieces) :
    motive pieces := (@sizeOfWFRel Pieces _).wf.induction pieces further

section

open Pieces

variable {named : Bool} {own : Char → Bool} {scan : TextScan} {step : Edge → Pieces → Option Pieces} {rest : Pieces}

theorem rewrites_nil (walks : Walks own scan step) : Rewrites named scan step .nil where
  keeps _ fits result stepped := by
    rw [walks.ended] at stepped
    cases stepped
    exact ⟨fits, fun _ => rfl⟩
  becomes _ _ work previous text tail numbered writes _ _ := by
    rw [writes_nil writes, walks.ended]
    exact becomes_nil numbered previous rfl

/-- A mark is copied; a sign that starts no name still starts none. -/
theorem rewrites_mark (walks : Walks own scan step) (names : named = true → own '$' = true) {c : Char}
    (foreign : own c = false) (ih : Rewrites named scan step rest) : Rewrites named scan step (.mark c rest) where
  keeps _ fits result stepped := by
    obtain ⟨mark, comma, name, further⟩ := orderly_mark.mp fits
    rw [walks.mark _ _ _ foreign] at stepped
    obtain ⟨inner, found, rfl⟩ := Option.map_eq_some_iff.mp stepped
    obtain ⟨keeps, starts⟩ := ih.keeps (.inr rfl) further inner found
    refine ⟨orderly_mark.mpr ⟨mark, comma, fun same start => ?_, keeps⟩, fun _ => rfl⟩
    subst same
    obtain ⟨allowed, -⟩ := name rfl ((starts (by decide)).symm.trans start)
    rw [names allowed] at foreign
    cases foreign
  becomes _ fits work previous text tail numbered writes _ apart := by
    obtain ⟨mark, -, -, further⟩ := orderly_mark.mp fits
    obtain ⟨noWord, quiet⟩ := isMark_spec mark
    cases writes with
    | mark writes =>
      rw [List.cons_append, walks.passes.mark noWord foreign, stepQuote_quiet quiet, walks.mark _ _ _ foreign]
      exact becomes_push (fun _ written => .mark written)
        (ih.becomes (.inr rfl) further work (some c) _ tail numbered writes (.inr rfl) apart)

theorem rewrites_value (walks : Walks own scan step) {v : Value} (ih : Rewrites named scan step rest) :
    Rewrites named scan step (.value v rest) where
  keeps _ fits result stepped := by
    obtain ⟨noWord, noDollar, further⟩ := orderly_value.mp fits
    rw [walks.value] at stepped
    obtain ⟨inner, found, rfl⟩ := Option.map_eq_some_iff.mp stepped
    obtain ⟨keeps, -⟩ := ih.keeps (.inl rfl) further inner found
    exact ⟨orderly_value.mpr ⟨noWord, noDollar, keeps⟩, fun dollar => absurd dollar noDollar⟩
  becomes edges fits work previous text tail numbered writes here apart := by
    obtain ⟨noWord, -, further⟩ := orderly_value.mp fits
    cases writes with
    | @value _ _ text i kept writes =>
      have start : Edge.behind previous ≠ .word := by
        rcases here with word | behind
        · exact absurd word noWord
        · rcases edges with word | same
          · exact absurd word noWord
          · rw [behind, ← same]
            exact noWord
      rw [List.append_assoc, walks.slot i start (writes_apart writes further apart), walks.value]
      exact becomes_push (fun grows written => .value i (grows _ _ kept) written)
        (ih.becomes (.inl rfl) further work _ text tail numbered writes (.inl rfl) apart)

theorem rewrites_literal (walks : Walks own scan step) {quote : Char} {content : List Char}
    (ih : Rewrites named scan step rest) : Rewrites named scan step (.literal quote content rest) where
  keeps _ fits result stepped := by
    obtain ⟨quoting, free, further⟩ := orderly_literal.mp fits
    rw [walks.literal] at stepped
    obtain ⟨inner, found, rfl⟩ := Option.map_eq_some_iff.mp stepped
    obtain ⟨keeps, -⟩ := ih.keeps (.inr rfl) further inner found
    exact ⟨orderly_literal.mpr ⟨quoting, free, keeps⟩, fun _ => rfl⟩
  becomes _ fits work previous text tail numbered writes _ apart := by
    obtain ⟨quoting, free, further⟩ := orderly_literal.mp fits
    have foreign : own quote = false := by
      refine Bool.eq_false_iff.mpr fun mine => ?_
      rw [walks.signs quote mine] at quoting
      cases quoting
    cases writes with
    | @literal _ _ _ text writes =>
      rw [List.cons_append, List.append_assoc, List.cons_append,
        passes_quotation walks.passes quoting foreign free, walks.literal]
      refine becomes_push (fun _ written => ?_)
        (ih.becomes (.inr rfl) further work (some quote) text tail numbered writes (.inr (behind_quote quoting)) apart)
      have whole : Writes _ (.literal quote content _) _ := .literal written
      simpa using whole

theorem rewrites_brackets (walks : Walks own scan step) {round : Bool} {inside : Pieces}
    (inner : Rewrites named scan step inside) (ih : Rewrites named scan step rest) :
    Rewrites named scan step (.brackets round inside rest) where
  keeps _ fits result stepped := by
    obtain ⟨within, further⟩ := orderly_brackets.mp fits
    rw [walks.brackets] at stepped
    obtain ⟨first, found, stepped⟩ := Option.bind_eq_some_iff.mp stepped
    obtain ⟨second, found', rfl⟩ := Option.map_eq_some_iff.mp stepped
    exact ⟨orderly_brackets.mpr ⟨(inner.keeps (.inr rfl) within first found).1,
      (ih.keeps (Callee.edge_cases _ round) further second found').1⟩, fun _ => rfl⟩
  becomes _ fits work previous text tail numbered writes _ apart := by
    obtain ⟨within, further⟩ := orderly_brackets.mp fits
    have noWord : ∀ round, Text.isWord (opening round) = false ∧ Text.isWord (closing round) = false := by decide
    have foreign : own (opening round) = false ∧ own (closing round) = false := by
      constructor
      all_goals
        refine Bool.eq_false_iff.mpr fun mine => ?_
        have sign := walks.signs _ mine
        revert sign
        cases round <;> decide
    have noQuote : stepQuote none (opening round) = none ∧ stepQuote none (closing round) = none := by
      cases round <;> exact ⟨rfl, rfl⟩
    cases writes with
    | @brackets _ _ _ text after writes writes' =>
      rw [List.cons_append, List.append_assoc, List.cons_append, walks.passes.mark (noWord round).1 foreign.1, noQuote.1,
        walks.brackets]
      refine becomes_then (fun written written' => ?_)
        (inner.becomes (.inr rfl) within work (some (opening round)) text (closing round :: (after ++ tail)) numbered writes
          (.inr (behind_bracket round).1) (apart_closing round _))
        (fun last => by rw [walks.passes.mark (noWord round).2 foreign.2, noQuote.2]) ?_
      · have whole : Writes _ (.brackets round _ _) _ := .brackets written written'
        simpa using whole
      · intro ended last grows numbered'
        exact ih.becomes (Callee.edge_cases _ round) further ended _ after tail numbered' (writes_grows grows writes')
          (.inr (behind_bracket round).2) apart

/-- A scan that copies what is not its own rewrites all pieces when it rewrites its own ones. -/
theorem rewrites_walks (walks : Walks own scan step) (names : named = true → own '$' = true)
    (marks : ∀ c rest, own c = true → (∀ smaller, sizeOf smaller < sizeOf (mark c rest) → Rewrites named scan step smaller) →
      Rewrites named scan step (.mark c rest))
    (runs : ∀ cs rest, (∀ smaller, sizeOf smaller < sizeOf (run cs rest) → Rewrites named scan step smaller) →
      Rewrites named scan step (.run cs rest)) (pieces : Pieces) : Rewrites named scan step pieces := by
  refine smaller_induction (fun pieces smaller => ?_) pieces
  cases pieces with
  | nil => exact rewrites_nil walks
  | mark c rest =>
    cases mine : own c with
    | true => exact marks c rest mine smaller
    | false => exact rewrites_mark walks names mine (smaller rest (by simp only [mark.sizeOf_spec]; omega))
  | run cs rest => exact runs cs rest smaller
  | value v rest => exact rewrites_value walks (smaller rest (by simp only [value.sizeOf_spec]; omega))
  | literal quote content rest => exact rewrites_literal walks (smaller rest (by simp only [literal.sizeOf_spec]; omega))
  | brackets round inside rest =>
    exact rewrites_brackets walks (smaller inside (by simp only [brackets.sizeOf_spec]; omega))
      (smaller rest (by simp only [brackets.sizeOf_spec]; omega))

end

/-! ### Words that stay -/

section

open Pieces

variable {named : Bool} {own : Char → Bool} {scan : TextScan} {step : Edge → Pieces → Option Pieces} {cs : List Char}
  {rest : Pieces} {edge around : Edge} {callee : Callee} {found : Argument}
  (stays : step edge (.run cs rest) = (step .word rest).map (.run cs)) (ih : Rewrites named scan step rest)
  (fits : (Pieces.run cs rest).orderly named around callee found = true)

include stays ih fits

theorem keeps_run {result : Pieces} (stepped : step edge (.run cs rest) = some result) :
    result.orderly false around callee found = true ∧
      (around = .dollar → result.startsName = (Pieces.run cs rest).startsName) := by
  obtain ⟨noWord, nonempty, wordy, free, further⟩ := orderly_run.mp fits
  rw [stays] at stepped
  obtain ⟨inner, found, rfl⟩ := Option.map_eq_some_iff.mp stepped
  refine ⟨orderly_run.mpr ⟨noWord, nonempty, wordy, free, (ih.keeps (.inl rfl) further inner found).1⟩, fun _ => ?_⟩
  cases cs <;> rfl

theorem becomes_run {work : Workspace} (numbered : Numbered work.slots) {text : List Char}
    (writes : rest.Writes work.slots text) {tail : List Char} (apart : Apart tail) {previous : Option Char}
    (copied : scan none previous (cs ++ (text ++ tail)) = pushText cs (scan none cs.getLast? (text ++ tail))) :
    Becomes (scan none previous (cs ++ (text ++ tail))) work (step edge (.run cs rest)) fun last => scan none last tail := by
  obtain ⟨-, nonempty, -, -, further⟩ := orderly_run.mp fits
  rw [copied, stays]
  exact becomes_push (fun _ written => .run nonempty written)
    (ih.becomes (.inl rfl) further work _ text tail numbered writes (.inl rfl) apart)

end

end ProceduralScene.Expression
