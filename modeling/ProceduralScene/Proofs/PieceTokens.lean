import ProceduralScene.Proofs.AlikeReaders
import ProceduralScene.Proofs.PieceScans
import ProceduralScene.Proofs.TokenSeams

/-!
The tokens of pieces. Two texts of the same pieces differ in the names of their slots alone, so their tokens are alike
where both environments know the values that are kept in the slots.
-/

set_option autoImplicit false

namespace ProceduralScene.Expression

open Pieces

/-! ### Texts that differ in the names of slots -/

/-- Two texts that are the same but for the names of slots that keep one value, where the second goes on with `tail`. -/
inductive Twins (slots slots' : Bindings) (tail : List Char) : Option Char → List Char → List Char → Prop
  | ended {last : Option Char} : Twins slots slots' tail last [] tail
  | char {last : Option Char} {c : Char} {text text' : List Char} : isQuote c = false →
      slotMark.isPrefixOf (c :: text) = false → Twins slots slots' tail (some c) text text' →
      Twins slots slots' tail last (c :: text) (c :: text')
  | literal {last : Option Char} {quote : Char} {content text text' : List Char} : isQuote quote = true → quote ∉ content →
      Twins slots slots' tail (some quote) text text' →
      Twins slots slots' tail last (quote :: (content ++ quote :: text)) (quote :: (content ++ quote :: text'))
  | value {last behind : Option Char} {i j : Nat} {v : Value} {text text' : List Char} : last.any Text.isWord = false →
      slots.get? (slotName i) = some v → slots'.get? (slotName j) = some v → (∀ c ∈ text.head?, Text.isWord c = false) →
      (∀ c ∈ text'.head?, Text.isWord c = false) → Twins slots slots' tail behind text text' →
      Twins slots slots' tail last ((slotName i).toList ++ text) ((slotName j).toList ++ text')

/-- Where a run of characters halts: at the end, or in front of a literal or a slot. -/
def Halts (text : List Char) : Prop :=
  ∀ c rest, text = c :: rest → isQuote c = true ∨ slotMark.isPrefixOf text = true

/-- No slot is named within the characters of a run. -/
def Unslotted (cs rest : List Char) : Prop :=
  ∀ first second, cs = first ++ second → second ≠ [] → slotMark.isPrefixOf (second ++ rest) = false

theorem slotMark_begins (i : Nat) (text : List Char) : slotMark.isPrefixOf ((slotName i).toList ++ text) = true := by
  rw [slotName_toList, List.append_assoc, List.isPrefixOf_iff_prefix]
  exact List.prefix_append _ _

section

variable {slots slots' : Bindings} {tail : List Char} {last : Option Char} {text text' : List Char}

theorem twins_run (twins : Twins slots slots' tail last text text') : ∃ cs rest rest', text = cs ++ rest ∧
    text' = cs ++ rest' ∧ (∀ c ∈ cs, isQuote c = false) ∧ Unslotted cs rest ∧ Halts rest ∧
    Twins slots slots' tail (cs.getLast?.or last) rest rest' := by
  have none : ∀ rest, Unslotted [] rest := by
    intro rest first second same some
    exact absurd (List.append_eq_nil_iff.mp same.symm).2 some
  induction twins with
  | ended => exact ⟨[], [], tail, rfl, rfl, nofun, none _, nofun, .ended⟩
  | literal quoting free twins _ =>
    refine ⟨[], _, _, rfl, rfl, nofun, none _, fun c rest same => ?_, .literal quoting free twins⟩
    cases same
    exact .inl quoting
  | value apart kept kept' ends ends' twins _ =>
    exact ⟨[], _, _, rfl, rfl, nofun, none _, fun _ _ _ => .inr (slotMark_begins _ _),
      .value apart kept kept' ends ends' twins⟩
  | @char last c text text' noQuote free _ ih =>
    obtain ⟨cs, rest, rest', rfl, rfl, quiet, clear, halts, twins⟩ := ih
    refine ⟨c :: cs, rest, rest', rfl, rfl, List.forall_mem_cons.mpr ⟨noQuote, quiet⟩, ?_, halts, ?_⟩
    · intro first second same some
      cases first with
      | nil =>
        rw [List.nil_append] at same
        rw [← same]
        exact free
      | cons d first =>
        injection same with _ same
        exact clear first second same some
    · rwa [last_cons]

/-- Halted twins end, or go on with a literal or with slots. -/
theorem twins_halted (halts : Halts text) (twins : Twins slots slots' tail last text text') : (text = [] ∧ text' = tail) ∨
    (∃ quote content rest rest' behind, isQuote quote = true ∧ quote ∉ content ∧ text = quote :: (content ++ quote :: rest) ∧
      text' = quote :: (content ++ quote :: rest') ∧ Twins slots slots' tail behind rest rest') ∨
    (∃ i j v rest rest' behind, last.any Text.isWord = false ∧ slots.get? (slotName i) = some v ∧
      slots'.get? (slotName j) = some v ∧ (∀ c ∈ rest.head?, Text.isWord c = false) ∧ (∀ c ∈ rest'.head?, Text.isWord c = false) ∧
      text = (slotName i).toList ++ rest ∧ text' = (slotName j).toList ++ rest' ∧ Twins slots slots' tail behind rest rest') := by
  cases twins with
  | ended => exact .inl ⟨rfl, rfl⟩
  | literal quoting free twins => exact .inr (.inl ⟨_, _, _, _, _, quoting, free, rfl, rfl, twins⟩)
  | value apart kept kept' ends ends' twins =>
    exact .inr (.inr ⟨_, _, _, _, _, _, apart, kept, kept', ends, ends', rfl, rfl, twins⟩)
  | char noQuote free _ =>
    rcases halts _ _ rfl with quote | slot
    · rw [noQuote] at quote
      cases quote
    · rw [free] at slot
      cases slot

theorem seam_twins (closed : ∀ c ∈ tail.head?, c = ')' ∨ Text.isSpace c = true)
    (solid : text = [] → last.any Text.isSpace = true → ∀ c ∈ tail.head?, Text.isSpace c = false) (halts : Halts text)
    (twins : Twins slots slots' tail last text text') : Seam last text ∧ Seam last text' := by
  have slot : ∀ {i : Nat} {text : List Char}, last.any Text.isWord = false → Seam last ((slotName i).toList ++ text) := by
    intro i text apart
    refine ⟨fun c head => ?_, fun word => ?_, fun _ c head => ?_⟩
    · rw [slotName_toList] at head
      cases head
      exact .inr (.inr (.inl rfl))
    · rw [apart] at word
      cases word
    · rw [slotName_toList] at head
      cases head
      decide
  rcases twins_halted halts twins with ⟨rfl, rfl⟩ | ⟨quote, content, rest, rest', -, quoting, -, rfl, rfl, -⟩ |
    ⟨i, j, v, rest, rest', -, apart, -, -, -, -, rfl, rfl, -⟩
  · refine ⟨seam_nil last, fun c head => ?_, fun _ c head => ?_, solid rfl⟩
    · rcases closed c head with round | space
      · exact .inl round
      · exact .inr (.inr (.inr space))
    · rcases closed c head with rfl | space
      · decide
      · exact Text.isWord_of_isSpace space
  · have quoted : ∀ text, Seam last (quote :: text) := fun text =>
      ⟨fun c head => by cases head; exact .inr (.inl quoting), fun _ c head => by cases head; exact isWord_of_isQuote quoting,
        fun _ c head => by cases head; exact isSpace_quote quoting⟩
    exact ⟨quoted _, quoted _⟩
  · exact ⟨slot apart, slot apart⟩

/-- Characters that name no slot in front of twins make twins. -/
theorem twins_chars {cs : List Char} (noQuote : ∀ c ∈ cs, isQuote c = false) (clear : Unslotted cs text) :
    ∀ {last : Option Char}, Twins slots slots' tail (cs.getLast?.or last) text text' →
      Twins slots slots' tail last (cs ++ text) (cs ++ text') := by
  induction cs with
  | nil => exact fun twins => twins
  | cons c cs ih =>
    intro last twins
    rw [last_cons] at twins
    refine .char (noQuote c List.mem_cons_self) (clear [] (c :: cs) rfl (List.cons_ne_nil _ _)) ?_
    exact ih (fun d member => noQuote d (List.mem_cons_of_mem c member))
      (fun first second same some => clear (c :: first) second (by rw [same]; rfl) some) twins

theorem twins_allowed (twins : Twins slots slots' tail last text text') (allowed : ∀ c ∈ text, isAllowed c = true)
    (closed : ∀ c ∈ tail, isAllowed c = true) : ∀ c ∈ text', isAllowed c = true := by
  induction twins with
  | ended => exact closed
  | char _ _ _ ih =>
    rw [List.forall_mem_cons] at allowed ⊢
    exact ⟨allowed.1, ih allowed.2⟩
  | literal _ _ _ ih =>
    rw [List.forall_mem_cons, List.forall_mem_append, List.forall_mem_cons] at allowed ⊢
    exact ⟨allowed.1, allowed.2.1, allowed.2.2.1, ih allowed.2.2.2⟩
  | @value _ _ i j _ _ _ _ _ _ _ _ _ ih =>
    rw [List.forall_mem_append] at allowed ⊢
    exact ⟨fun c member => allowed_of_isWord (slotName_wordy j c member), ih allowed.2⟩

end

/-- A text that ends with a blank goes on with none. -/
def Joins (text tail : List Char) : Prop :=
  ∀ c ∈ text.getLast?, Text.isSpace c = true → ∀ d ∈ tail.head?, Text.isSpace d = false

theorem joins_suffix {first second tail : List Char} (joins : Joins (first ++ second) tail) : Joins second tail := by
  intro c last
  refine joins c ?_
  rw [List.getLast?_append, last]
  rfl

/-! ### Alike tokens -/

def slotIdentifier (i : Nat) : Identifier where
  first := '_'
  rest := "_slot".toList ++ (toString i).toList
  starts := by decide
  continues c member := by
    rcases List.mem_append.mp member with mark | digit
    · exact List.all_eq_true.mp (show "_slot".toList.all isNameChar = true by decide) c mark
    · simp [isNameChar, Char.isAlphanum, Number.allDigits_toString i c digit]

theorem slotIdentifier_text (i : Nat) : (slotIdentifier i).text = (slotName i).toList := by
  rw [slotName_toList]
  rfl

theorem cutToken_slot (i : Nat) {rest : List Char} (ends : ∀ c ∈ rest.head?, Text.isWord c = false) :
    cutToken? ((slotName i).toList ++ rest) = some (.ok (some (.name (slotName i))), rest) := by
  have apart : (Word.name (slotIdentifier i)).Apart rest.head? := by
    intro c head
    refine Bool.eq_false_iff.mpr fun name => ?_
    have noWord := ends c head
    rw [isWord_of_isNameChar name] at noWord
    cases noWord
  have cut := cutToken_name apart
  rw [slotIdentifier_text] at cut
  rw [cut]
  show some (Except.ok (some (Token.name (String.ofList (slotIdentifier i).text))), rest) = _
  rw [slotIdentifier_text, String.ofList_toList]

/-- A name that is cut from characters that name no slot is none of a slot. -/
theorem cutToken_unslotted {cs rest : List Char} {s : String} (cut : cutToken? cs = some (.ok (some (.name s)), rest))
    (allowed : ∀ c ∈ cs, isAllowed c = true) {after : List Char} (clear : slotMark.isPrefixOf (cs ++ after) = false) :
    slotMark.isPrefixOf s.toList = false := by
  refine Bool.eq_false_iff.mpr fun starts => ?_
  rcases cutToken_found cut allowed with ⟨word, -, lexed, same⟩ | ⟨_, _, -, -, none, -⟩
  · obtain ⟨token, found, known⟩ : ∃ token, word.lexed = .ok token ∧ Token.name s = token := by
      cases lexes : word.lexed with
      | error failure => rw [lexes] at lexed; cases lexed
      | ok token => rw [lexes] at lexed; cases lexed; exact ⟨_, rfl, rfl⟩
    have token := (lexed_token word token found).2
    cases word with
    | name identifier =>
      rw [← known, Word.token, Token.name.injEq] at token
      rw [token, Identifier.name, String.toList_ofList, List.isPrefixOf_iff_prefix] at starts
      rw [same, List.append_assoc] at clear
      exact Bool.false_ne_true (clear.symm.trans (List.isPrefixOf_iff_prefix.mpr (starts.trans (List.prefix_append _ _))))
    | _ =>
      rw [← known, Word.token] at token
      cases token
  · cases none

section

variable {slots slots' : Bindings} {tail : List Char} {env env' : Environment}
  (known : ∀ name v, slots.get? name = some v → env.lookup name = some v)
  (known' : ∀ name v, slots'.get? name = some v → env'.lookup name = some v)
  (same : ∀ s : String, slotMark.isPrefixOf s.toList = false → env.lookup s = env'.lookup s)
  (closed : ∀ c ∈ tail.head?, c = ')' ∨ Text.isSpace c = true)

include known known' same closed

/-- Twins have alike tokens, in front of the tokens of what follows. -/
theorem lexes_twins {text : List Char} {tokens : List Token} (lexes : Lexes text tokens) : ∀ {last : Option Char}
    {text' : List Char}, (∀ c ∈ text, isAllowed c = true) → Joins text tail → Twins slots slots' tail last text text' →
    ∃ tokens', AllAlike env env' tokens tokens' ∧ ∀ more, Lexes tail more → Lexes text' (tokens' ++ more) := by
  induction lexes with
  | nil =>
    intro last text' _ _ twins
    obtain ⟨cs, rest, rest', empty, rfl, -, -, halts, twins⟩ := twins_run twins
    obtain ⟨rfl, rfl⟩ := List.append_eq_nil_iff.mp empty.symm
    rcases twins_halted halts twins with ⟨-, rfl⟩ | ⟨_, _, _, _, _, -, -, none, -⟩ | ⟨i, _, _, _, _, _, -, -, -, -, -, none, -⟩
    · exact ⟨[], .nil, fun _ lexes => lexes⟩
    · cases none
    · rw [slotName_toList] at none
      cases none
  | @cut c text rest found tokens cut further ih =>
    intro last text' allowed joins twins
    obtain ⟨cs, after, after', split, rfl, quiet, clear, halts, twins⟩ := twins_run twins
    cases cs with
    | nil =>
      rw [List.nil_append] at split
      subst split
      rcases twins_halted halts twins with ⟨none, -⟩ | ⟨quote, content, behind, behind', _, quoting, free, split, rfl, twins⟩ |
        ⟨i, j, v, behind, behind', _, apart, kept, kept', ends, ends', split, rfl, twins⟩
      · cases none
      · have inside : ∀ d ∈ content, isAllowed d = true := fun d member => allowed d (by rw [split]; simp [member])
        have quoted := cutToken_quoted ⟨quote, content, quoting, free, inside⟩
        have text : ∀ rest, Quotation.text ⟨quote, content, quoting, free, inside⟩ ++ rest = quote :: (content ++ quote :: rest) := by
          intro rest
          simp [Quotation.text]
        have here := quoted behind
        rw [text, ← split, cut] at here
        cases here
        have ends : Joins rest tail := by
          rw [split, show quote :: (content ++ quote :: rest) = (quote :: (content ++ [quote])) ++ rest by simp] at joins
          exact joins_suffix joins
        obtain ⟨tokens', alike, lexes⟩ := ih (fun d member => allowed d (by rw [split]; simp [member])) ends twins
        refine ⟨.text (String.ofList content) :: tokens', .cons (.same fun _ same => Token.noConfusion same) alike, fun more behindTail => ?_⟩
        have there := quoted behind'
        rw [text] at there
        exact .cut there (lexes more behindTail)
      · rw [split, cutToken_slot i ends] at cut
        cases cut
        rw [split] at joins
        obtain ⟨tokens', alike, lexes⟩ := ih (fun d member => allowed d (by rw [split]; simp [member])) (joins_suffix joins) twins
        have underscore : ∀ k : Nat, (slotName k).toList.head? = some '_' := fun k => by rw [slotName_toList]; rfl
        refine ⟨.name (slotName j) :: tokens', .cons (.kept (known _ _ kept) (known' _ _ kept') (underscore i) (underscore j)) alike,
          fun more behindTail => ?_⟩
        have there := cutToken_slot j ends'
        obtain ⟨d, ds, cons⟩ : ∃ d ds, (slotName j).toList = d :: ds := ⟨_, _, slotName_toList j⟩
        rw [cons] at there ⊢
        exact .cut there (lexes more behindTail)
    | cons d cs =>
      have last' : (d :: cs).getLast?.or last = (d :: cs).getLast? := by
        rw [List.getLast?_cons]
        rfl
      obtain ⟨seam, seam'⟩ := seam_twins closed (fun none => by
        subst none
        rw [split, List.append_nil] at joins
        rw [last', List.getLast?_eq_some_getLast (List.cons_ne_nil d cs), Option.any_some]
        exact joins _ (List.getLast?_eq_some_getLast _)) halts twins
      rw [last'] at seam seam'
      have here := cutToken_append (List.cons_ne_nil d cs) quiet seam
      have there := cutToken_append (List.cons_ne_nil d cs) quiet seam'
      rw [← split, cut] at here
      cases whole : cutToken? (d :: cs) with
      | none =>
        rw [whole] at here
        cases here
      | some parts =>
        obtain ⟨found', left⟩ := parts
        rw [whole] at here there
        cases here
        have allowed' : ∀ e ∈ d :: cs, isAllowed e = true := fun e member =>
          allowed e (by rw [split]; exact List.mem_append_left _ member)
        obtain ⟨consumed, -, cons⟩ := cutToken_shorter whole allowed'
        have rebuilt : Twins slots slots' tail (consumed.getLast?.or last) (left ++ after) (left ++ after') := by
          refine twins_chars (fun e member => quiet e (by rw [cons]; exact List.mem_append_right _ member))
            (fun first second same some => clear (consumed ++ first) second (by rw [cons, same, List.append_assoc]) some) ?_
          rw [cons, List.getLast?_append, Option.or_assoc] at twins
          exact twins
        obtain ⟨tokens', alike, lexes⟩ := ih (fun e member => allowed e (by
          rw [split, cons, List.append_assoc]
          exact List.mem_append_right _ member)) (by
            rw [split, cons, List.append_assoc] at joins
            exact joins_suffix joins) rebuilt
        refine ⟨found.toList ++ tokens', ?_, fun more behindTail => ?_⟩
        · cases found with
          | none => exact alike
          | some token =>
            refine .cons (.same fun s named => same s ?_) alike
            subst named
            exact cutToken_unslotted whole allowed' (clear [] (d :: cs) rfl (List.cons_ne_nil _ _))
        · rw [List.append_assoc]
          exact .cut there (lexes more behindTail)

end

/-! ### Texts of the same pieces -/

theorem holdsSlot_of_append (first : List Char) {second : List Char} (holds : holdsSlot second = true) :
    holdsSlot (first ++ second) = true := by
  induction first with
  | nil => exact holds
  | cons c first ih => rw [List.cons_append, holdsSlot, ih, Bool.or_true]

/-- A word that names no slot does not start one in front of what goes on with no word. -/
theorem unslotted_word {cs after : List Char} (free : holdsSlot cs = false) (ends : ∀ c ∈ after.head?, Text.isWord c = false) :
    Unslotted cs after := by
  intro first second same some
  refine Bool.eq_false_iff.mpr fun starts => ?_
  have holds : slotMark <+: second := by
    have starts := List.isPrefixOf_iff_prefix.mp starts
    rcases Nat.le_total slotMark.length second.length with short | long
    · exact List.prefix_of_prefix_length_le starts (List.prefix_append _ _) short
    · obtain ⟨more, whole⟩ := List.prefix_of_prefix_length_le (List.prefix_append second after) starts long
      cases more with
      | nil =>
        rw [List.append_nil] at whole
        exact whole ▸ List.prefix_rfl
      | cons c more =>
        rw [← whole, List.prefix_append_right_inj] at starts
        obtain ⟨rest, rfl⟩ := starts
        have wordy : ∀ d ∈ slotMark, Text.isWord d = true := List.all_eq_true.mp (by decide)
        have noWord := ends c rfl
        rw [wordy c (by rw [← whole]; simp)] at noWord
        cases noWord
  obtain ⟨c, second, rfl⟩ := List.exists_cons_of_ne_nil some
  have found : holdsSlot (c :: second) = true := by
    rw [holdsSlot, List.isPrefixOf_iff_prefix.mpr holds, Bool.true_or]
  rw [same, holdsSlot_of_append first found] at free
  cases free

section

variable {slots slots' : Bindings} {tail : List Char} {pieces : Pieces} {text text' : List Char}

theorem twins_mark {c : Char} (noWord : Text.isWord c = false) (noQuote : isQuote c = false) {last : Option Char}
    (twins : Twins slots slots' tail (some c) text text') : Twins slots slots' tail last (c :: text) (c :: text') := by
  refine .char noQuote (Bool.eq_false_iff.mpr fun starts => ?_) twins
  obtain ⟨rest, same⟩ := List.isPrefixOf_iff_prefix.mp starts
  cases same
  revert noWord
  decide

/-- Texts of the same pieces are twins, in front of twins that stand apart. -/
theorem twins_writes (writes : pieces.Writes slots text) : ∀ {text' : List Char}, pieces.Writes slots' text' →
    ∀ {named : Bool} {edge : Edge} {callee : Callee} {found : Argument}, pieces.orderly named edge callee found = true →
    ∀ {last : Option Char} {after after' : List Char}, edge = .word ∨ Edge.behind last = edge → Apart after → Apart after' →
    (∀ last, Twins slots slots' tail last after after') → Twins slots slots' tail last (text ++ after) (text' ++ after') := by
  have start : ∀ {last : Option Char} {edge : Edge}, edge ≠ .word → edge = .word ∨ Edge.behind last = edge →
      last.any Text.isWord = false := by
    intro last edge noWord here
    refine Bool.eq_false_iff.mpr fun word => noWord ?_
    exact here.elim id fun behind => behind.symm.trans ((any_isWord_iff last).mp word)
  induction writes with
  | nil =>
    intro text' writes' named edge callee found fits last after after' _ _ _ twins
    rw [writes_nil writes']
    exact twins last
  | @mark c rest text _ ih =>
    intro text' writes' named edge callee found fits last after after' _ apart apart' twins
    obtain ⟨mark, -, -, fits⟩ := orderly_mark.mp fits
    obtain ⟨noWord, quiet⟩ := isMark_spec mark
    cases writes' with
    | mark writes' => exact twins_mark noWord quiet.quote (ih writes' fits (.inr rfl) apart apart' twins)
  | @run cs rest text nonempty writes ih =>
    intro text' writes' named edge callee found fits last after after' _ apart apart' twins
    obtain ⟨-, -, wordy, free, fits⟩ := orderly_run.mp fits
    cases writes' with
    | run _ writes' =>
      rw [List.append_assoc, List.append_assoc]
      exact twins_chars (fun c member => (quiet_word (wordy c member)).quote)
        (unslotted_word free (writes_apart writes fits apart)) (ih writes' fits (.inl rfl) apart apart' twins)
  | @value v rest text i kept writes ih =>
    intro text' writes' named edge callee found fits last after after' here apart apart' twins
    obtain ⟨noWord, -, fits⟩ := orderly_value.mp fits
    cases writes' with
    | value j kept' writes' =>
      rw [List.append_assoc, List.append_assoc]
      exact .value (start noWord here) kept kept' (writes_apart writes fits apart) (writes_apart writes' fits apart')
        (@ih _ writes' _ _ _ _ fits none _ _ (.inl rfl) apart apart' twins)
  | @literal quote content rest text _ ih =>
    intro text' writes' named edge callee found fits last after after' _ apart apart' twins
    obtain ⟨quoting, free, fits⟩ := orderly_literal.mp fits
    cases writes' with
    | literal writes' =>
      simp only [List.cons_append, List.append_assoc]
      exact .literal quoting free (ih writes' fits (.inr (behind_quote quoting)) apart apart' twins)
  | @brackets round inside rest text beyond _ _ inner ih =>
    intro text' writes' named edge callee found fits last after after' _ apart apart' twins
    obtain ⟨within, fits⟩ := orderly_brackets.mp fits
    have noWord : Text.isWord (opening round) = false ∧ Text.isWord (closing round) = false := by cases round <;> decide
    have noQuote : isQuote (opening round) = false ∧ isQuote (closing round) = false := by cases round <;> decide
    cases writes' with
    | brackets inside' writes' =>
      simp only [List.cons_append, List.append_assoc]
      refine twins_mark noWord.1 noQuote.1 (inner inside' within (.inr (behind_bracket round).1) (apart_closing round _)
        (apart_closing round _) fun last => ?_)
      exact twins_mark noWord.2 noQuote.2 (ih writes' fits (behind_closing callee round) apart apart' twins)

end

end ProceduralScene.Expression
