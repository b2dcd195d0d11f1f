import ProceduralScene.Proofs.CanonicalText
import ProceduralScene.Proofs.PieceScans

/-!
The pieces that stand for values: the words of numbers, the names of booleans, a negative number between parentheses,
and a slot for what has no literal text.
-/

set_option autoImplicit false

namespace ProceduralScene.Expression

open Json (isBare)

namespace Pieces

def consChar (c : Char) : Pieces → Pieces
  | .run cs rest => if Text.isWord c then .run (c :: cs) rest else .mark c (.run cs rest)
  | pieces => if Text.isWord c then .run [c] pieces else .mark c pieces

theorem consChar_mark {c : Char} (noWord : Text.isWord c = false) (rest : Pieces) : consChar c rest = .mark c rest := by
  cases rest <;> simp [consChar, noWord]

/-- The words and marks of a text in front of other pieces. -/
def textPieces (text : List Char) (rest : Pieces) : Pieces := text.foldr consChar rest

def startsRun : Pieces → Bool
  | .run _ _ => true
  | _ => false

section

variable {slots : Bindings} {rest : Pieces} {text : List Char}

theorem writes_consChar (c : Char) (writes : Writes slots rest text) : Writes slots (consChar c rest) (c :: text) := by
  cases rest with
  | run cs rest =>
    rw [consChar]
    cases writes with
    | run nonempty writes =>
      split
      · exact @Writes.run slots (c :: cs) _ _ (List.cons_ne_nil _ _) writes
      · exact .mark (.run nonempty writes)
  | _ =>
    rw [consChar]
    · split
      · exact @Writes.run slots [c] _ _ (List.cons_ne_nil _ _) writes
      · exact .mark writes
    · exact nofun

theorem writes_textPieces (writes : Writes slots rest text) (before : List Char) :
    Writes slots (textPieces before rest) (before ++ text) := by
  induction before with
  | nil => exact writes
  | cons c before ih => exact writes_consChar c ih

end

end Pieces

/-! ### Bare characters -/

theorem isBare_spec {c : Char} (bare : isBare c = true) : c ≠ '_' ∧ c ≠ '$' ∧ c ≠ ',' ∧ Text.isSpace c = false ∧
    (Text.isWord c = false → isMark c = true) := by
  have differs : ∀ d : Char, isBare d = false → c ≠ d := by
    rintro d other rfl
    rw [other] at bare
    cases bare
  have noSpace : Text.isSpace c = false := by
    refine Bool.eq_false_iff.mpr fun space => ?_
    have noName := isNameChar_of_isSpace space
    simp only [isNameChar, Bool.or_eq_false_iff] at noName
    simp only [isBare, noName.1, Bool.false_or, Bool.or_eq_true, beq_iff_eq] at bare
    rcases bare with (rfl | rfl) | rfl <;> exact absurd space (by decide)
  refine ⟨differs _ (by decide), differs _ (by decide), differs _ (by decide), noSpace, fun noWord => ?_⟩
  simp [isMark, noWord, isQuote, differs '\'' (by decide), differs '"' (by decide), differs '(' (by decide),
    differs ')' (by decide), differs '[' (by decide), differs ']' (by decide)]

theorem holdsSlot_cons {c : Char} {cs : List Char} (other : c ≠ '_') (free : holdsSlot cs = false) :
    holdsSlot (c :: cs) = false := by
  have head : ('_' == c) = false := by simp [Ne.symm other]
  rw [holdsSlot, free, slotMark, show "__slot".toList = '_' :: ['_', 's', 'l', 'o', 't'] from rfl, List.isPrefixOf, head]
  rfl

namespace Pieces

variable {found : Argument} {rest : Pieces}

/-- Bare words and marks are orderly in front of what stands behind a word. -/
theorem orderly_textPieces {text : List Char} (bare : ∀ c ∈ text, isBare c = true) (settled : found.next = found)
    (fits : orderly false .word .call found rest = true) :
    (∀ {edge : Edge} {callee : Callee}, ((textPieces text rest).startsRun = true → edge ≠ .word) → edge ≠ .dollar →
      orderly false edge callee found (textPieces text rest) = true) ∧
      ∀ cs others, textPieces text rest = .run cs others → orderly false .word .call found others = true := by
  have after : ∀ c : Char, c ≠ ',' → Text.isSpace c = false → found.after c = found := by
    intro c comma space
    cases found <;> simp [Argument.after, comma, space] <;> simpa using settled
  induction text with
  | nil =>
    refine ⟨fun _ _ => orderly_weaken (fun named => named) (.inl rfl) (Callee.weaker_call _) (.inr rfl) fits, ?_⟩
    intro cs others same
    rw [show rest = .run cs others from same] at fits
    exact absurd rfl (orderly_run.mp fits).1
  | cons c text ih =>
    obtain ⟨inner, behind⟩ := ih fun d member => bare d (List.mem_cons_of_mem c member)
    obtain ⟨noUnderscore, noSign, comma, space, mark⟩ := isBare_spec (bare c List.mem_cons_self)
    have step : textPieces (c :: text) rest = consChar c (textPieces text rest) := rfl
    rw [step]
    cases word : Text.isWord c with
    | false =>
      have edge : Edge.behind (some c) ≠ .word ∧ Edge.behind (some c) ≠ .dollar := by
        simp only [Edge.behind, word, noSign, Bool.false_eq_true, if_false]
        split <;> simp
      rw [consChar_mark word]
      refine ⟨fun _ _ => ?_, by simp⟩
      refine orderly_mark.mpr ⟨mark word, fun same => absurd same comma, fun same => absurd same noSign, ?_⟩
      rw [after c comma space]
      exact inner (fun _ => edge.1) edge.2
    | true =>
      -- the character joins the word behind it, or starts one
      obtain ⟨cs, others, same, wordy, free, further⟩ : ∃ cs others, consChar c (textPieces text rest) = .run (c :: cs) others ∧
          (∀ d ∈ cs, Text.isWord d = true) ∧ holdsSlot cs = false ∧ orderly false .word .call found others = true := by
        cases made : textPieces text rest with
        | run cs others =>
          rw [made] at inner
          obtain ⟨-, -, wordy, free, -⟩ := orderly_run.mp (@inner .plain .none (by simp) (by simp))
          exact ⟨cs, others, by rw [consChar, if_pos word], wordy, free, behind cs others made⟩
        | _ =>
          rw [made] at inner
          exact ⟨[], _, by rw [consChar, if_pos word]; simp, by simp, rfl, inner (by simp [startsRun]) (by simp)⟩
      rw [same]
      refine ⟨fun starts _ => ?_, fun _ _ found => by cases found; exact further⟩
      refine orderly_run.mpr ⟨starts rfl, List.cons_ne_nil _ _, ?_, holdsSlot_cons noUnderscore free, ?_⟩
      · intro d member
        rcases List.mem_cons.mp member with rfl | member
        · exact word
        · exact wordy d member
      · rw [settled]
        exact orderly_weaken (fun named => named) (.inr rfl) (Callee.weaker_call _) (.inr rfl) further

end Pieces

/-! ### Literals of values -/

/-- The pieces of a number; a negative one stands between parentheses. -/
def signedPieces (negative : Bool) (text : List Char) (rest : Pieces) : Pieces :=
  if negative then .brackets true (.textPieces text .nil) rest else .textPieces text rest

/-- What stands for a value in front of other pieces; nothing for an integer that has no floating form. -/
def literalPieces (value : Value) : Option (Pieces → Pieces) :=
  match value with
  | .bool b => some (.textPieces (if b then "true".toList else "false".toList))
  | .int n =>
    if (Number.ofInt n).isNone then none
    else (showInt n).toOption.map fun text => signedPieces (n < 0) text.toList
  | .float x =>
    if Number.isFinite x then some (signedPieces (x < 0.0) (Number.shortestText x).toList) else some (.value (.float x))
  | value => some (.value value)

/-- Pieces in front of others that start and end with neither a blank nor a comma. -/
structure Solid (add : Pieces → Pieces) : Prop where
  dropBlanks : ∀ rest, (add rest).dropBlanks = add rest
  trimEnd : ∀ rest, (add rest).trimEnd = add rest.trimEnd
  isNil : ∀ rest, (add rest).isNil = false
  commaFree : ∀ rest, (add rest).commaFree = rest.commaFree
  append : ∀ rest c other, add (rest.append (.mark c other)) = (add rest).append (.mark c other)

/-- Pieces that stand for one operand: they may take the place of a word or a call. -/
structure Operand (add : Pieces → Pieces) : Prop extends Solid add where
  orderly : ∀ {edge : Edge} {callee : Callee} {found : Argument} {rest : Pieces}, edge ≠ .word → edge ≠ .dollar →
    rest.orderly false .word .call found.next = true → (add rest).orderly false edge callee found = true

theorem complete_next {found : Argument} : found.next.complete = true := by cases found <;> rfl

theorem solid_value (v : Value) : Solid (.value v) :=
  ⟨fun _ => rfl, fun _ => rfl, fun _ => rfl, fun _ => rfl, fun _ _ _ => rfl⟩

theorem solid_brackets (round : Bool) (inside : Pieces) : Solid (.brackets round inside) :=
  ⟨fun _ => rfl, fun _ => rfl, fun _ => rfl, fun _ => rfl, fun _ _ _ => rfl⟩

theorem solid_run (cs : List Char) : Solid (.run cs) :=
  ⟨fun _ => rfl, fun _ => rfl, fun _ => rfl, fun _ => rfl, fun _ _ _ => rfl⟩

theorem solid_quotation (quote : Char) (content : List Char) : Solid (.literal quote content) :=
  ⟨fun _ => rfl, fun _ => rfl, fun _ => rfl, fun _ => rfl, fun _ _ _ => rfl⟩

theorem solid_mark {c : Char} (space : Text.isSpace c = false) (comma : c ≠ ',') : Solid (.mark c) where
  dropBlanks rest := by simp [Pieces.dropBlanks, space]
  trimEnd rest := by simp [Pieces.trimEnd, space]
  isNil _ := rfl
  commaFree rest := by simp [Pieces.commaFree, comma]
  append _ _ _ := rfl

theorem solid_consChar {c : Char} (space : Text.isSpace c = false) (comma : c ≠ ',') : Solid (Pieces.consChar c) where
  dropBlanks rest := by
    cases rest <;> cases word : Text.isWord c <;> simp [Pieces.consChar, word, Pieces.dropBlanks, space]
  trimEnd rest := by
    cases word : Text.isWord c with
    | false => rw [Pieces.consChar_mark word, Pieces.consChar_mark word, Pieces.trimEnd, space, Bool.false_and, if_neg (by simp)]
    | true =>
      cases rest with
      | mark d rest =>
        simp only [Pieces.consChar, word, if_true, Pieces.trimEnd]
        split <;> simp
      | _ => simp [Pieces.consChar, word, Pieces.trimEnd]
  isNil rest := by cases rest <;> cases word : Text.isWord c <;> simp [Pieces.consChar, word, Pieces.isNil]
  commaFree rest := by
    cases rest <;> cases word : Text.isWord c <;> simp [Pieces.consChar, word, Pieces.commaFree, comma]
  append rest d other := by
    cases rest <;> cases word : Text.isWord c <;> simp [Pieces.consChar, word, Pieces.append]

theorem solid_comp {add further : Pieces → Pieces} (first : Solid add) (second : Solid further) :
    Solid fun rest => add (further rest) where
  dropBlanks _ := first.dropBlanks _
  trimEnd rest := by rw [first.trimEnd, second.trimEnd]
  isNil _ := first.isNil _
  commaFree rest := by rw [first.commaFree, second.commaFree]
  append rest c other := by rw [second.append, first.append]

theorem solid_text {text : List Char} (nonempty : text ≠ []) (bare : ∀ c ∈ text, isBare c = true) :
    Solid (.textPieces text) := by
  induction text with
  | nil => exact absurd rfl nonempty
  | cons c text ih =>
    obtain ⟨-, -, comma, space, -⟩ := isBare_spec (bare c List.mem_cons_self)
    cases text with
    | nil => exact solid_consChar space comma
    | cons d text =>
      show Solid fun rest => Pieces.consChar c (.textPieces (d :: text) rest)
      exact solid_comp (solid_consChar space comma)
        (ih (List.cons_ne_nil _ _) fun e member => bare e (List.mem_cons_of_mem c member))

theorem operand_text {text : List Char} (nonempty : text ≠ []) (bare : ∀ c ∈ text, isBare c = true) :
    Operand (.textPieces text) where
  toSolid := solid_text nonempty bare
  orderly {edge callee found rest} noWord noDollar fits := by
    have inner := @(@Pieces.orderly_textPieces found.next rest text bare (Pieces.next_next found) fits).1 edge callee
      (fun _ => noWord) noDollar
    -- a first word or mark leaves nothing of what stood before it in the argument
    obtain ⟨c, text, rfl⟩ := List.exists_cons_of_ne_nil nonempty
    obtain ⟨-, -, comma, space, -⟩ := isBare_spec (bare c List.mem_cons_self)
    have after : found.next.after c = found.after c := by
      cases found <;> simp [Argument.after, Argument.next, comma, space]
    have made : (∃ cs others, Pieces.textPieces (c :: text) rest = .run cs others) ∨
        ∃ others, Pieces.textPieces (c :: text) rest = .mark c others := by
      show (∃ cs others, Pieces.consChar c (Pieces.textPieces text rest) = .run cs others) ∨
        ∃ others, Pieces.consChar c (Pieces.textPieces text rest) = .mark c others
      cases word : Text.isWord c with
      | true => cases Pieces.textPieces text rest <;> simp [Pieces.consChar, word]
      | false => exact .inr ⟨_, Pieces.consChar_mark word _⟩
    rcases made with ⟨cs, others, same⟩ | ⟨others, same⟩
    · rw [same] at inner ⊢
      obtain ⟨noWord, some, wordy, free, further⟩ := Pieces.orderly_run.mp inner
      rw [Pieces.next_next] at further
      exact Pieces.orderly_run.mpr ⟨noWord, some, wordy, free, further⟩
    · rw [same] at inner ⊢
      obtain ⟨mark, -, name, further⟩ := Pieces.orderly_mark.mp inner
      rw [after] at further
      exact Pieces.orderly_mark.mpr ⟨mark, fun same => absurd same comma, name, further⟩

theorem operand_signed (negative : Bool) {text : List Char} (nonempty : text ≠ []) (bare : ∀ c ∈ text, isBare c = true) :
    Operand (signedPieces negative text) := by
  cases negative with
  | false => exact operand_text nonempty bare
  | true =>
    refine ⟨solid_brackets true _, fun {edge callee found rest} noWord noDollar fits => Pieces.orderly_brackets.mpr ⟨?_, ?_⟩⟩
    · refine (operand_text nonempty bare).orderly nofun nofun ?_
      exact complete_next
    · refine Pieces.orderly_weaken (fun named => named) (.inl rfl) (Callee.weaker_call _) (.inr rfl) fits

theorem operand_value (v : Value) : Operand (.value v) :=
  ⟨solid_value v, fun noWord noDollar fits => Pieces.orderly_value.mpr ⟨noWord, noDollar, fits⟩⟩

theorem bare_showInt {n : Int} {text : String} (shown : showInt n = .ok text) :
    text.toList ≠ [] ∧ ∀ c ∈ text.toList, isBare c = true := by
  cases Json.showInt_text shown
  constructor
  · intro empty
    have kind := Json.HasWord.nonempty (.int n)
    exact kind empty
  · exact (Json.HasWord.int n).bare.2

theorem bare_shortestText (x : Float) : (Number.shortestText x).toList ≠ [] ∧
    ∀ c ∈ (Number.shortestText x).toList, isBare c = true := by
  cases decoded : Number.decode x with
  | finite d =>
    obtain ⟨numeral, marked⟩ := Json.shortestText_chars decoded
    refine ⟨fun empty => ?_, fun c member => Json.isBare_numeral (numeral c member)⟩
    rw [empty] at marked
    rcases marked with point | mark
    · cases point
    · cases mark
  | infinite negative =>
    rw [Number.shortestText, decoded]
    cases negative <;> exact ⟨by decide, List.all_eq_true.mp (by decide)⟩
  | notANumber =>
    rw [Number.shortestText, decoded]
    exact ⟨by decide, List.all_eq_true.mp (by decide)⟩

theorem operand_literal {value : Value} {add : Pieces → Pieces} (stands : literalPieces value = some add) : Operand add := by
  unfold literalPieces at stands
  split at stands
  · rename_i b
    cases stands
    cases b
    · exact operand_text (by decide) (List.all_eq_true.mp (by decide))
    · exact operand_text (by decide) (List.all_eq_true.mp (by decide))
  · split at stands
    · cases stands
    · obtain ⟨text, shown, rfl⟩ := Option.map_eq_some_iff.mp stands
      rename_i n _
      cases found : showInt n with
      | error failure => rw [found] at shown; cases shown
      | ok shownText =>
        rw [found] at shown
        cases shown
        obtain ⟨nonempty, bare⟩ := bare_showInt found
        exact operand_signed _ nonempty bare
  · split at stands
    · cases stands
      rename_i x _
      obtain ⟨nonempty, bare⟩ := bare_shortestText x
      exact operand_signed _ nonempty bare
    · cases stands
      exact operand_value _
  · cases stands
    exact operand_value _

/-! ### Writing literals -/

theorem writes_signed {slots : Bindings} {rest : Pieces} {after : List Char} (writes : rest.Writes slots after)
    (negative : Bool) (text : String) :
    (signedPieces negative text.toList rest).Writes slots (signedLiteral negative text ++ after) := by
  cases negative with
  | false => exact Pieces.writes_textPieces writes _
  | true =>
    have whole : Pieces.Writes slots (.brackets true (.textPieces text.toList .nil) rest) _ :=
      .brackets (Pieces.writes_textPieces .nil text.toList) writes
    simpa [signedPieces, signedLiteral, opening, closing] using whole

theorem numbered_keep {slots : Bindings} (numbered : Numbered slots) (v : Value) :
    Numbered (slots ++ [(slotName slots.length, v)]) := by
  unfold Numbered
  rw [List.map_append, List.length_append, List.length_singleton, List.range_succ, List.map_append, numbered]
  rfl

theorem get_new {slots : Bindings} (numbered : Numbered slots) (v : Value) :
    Bindings.get? (slotName slots.length) (slots ++ [(slotName slots.length, v)]) = some v := by
  have unknown : slots.lookup (slotName slots.length) = none := by
    rw [List.lookup_eq_none_iff]
    intro entry member
    have name : entry.1 ∈ slots.map Prod.fst := List.mem_map_of_mem member
    rw [numbered] at name
    obtain ⟨i, small, same⟩ := List.mem_map.mp name
    rw [bne_iff_ne]
    intro equal
    have index := slotName_injective (same.trans equal.symm)
    rw [List.mem_range, index] at small
    exact absurd small (Nat.lt_irrefl _)
  rw [Bindings.get?, List.lookup_append, unknown]
  simp

theorem grows_keep (slots : Bindings) (entry : String × Value) : Grows slots (slots ++ [entry]) := by
  intro name v kept
  rw [Bindings.get?] at kept ⊢
  rw [List.lookup_append, kept]
  rfl

/-- The text of a literal writes the pieces that stand for the value, in the slots as they are afterwards. -/
def LiteralWritten (add : Pieces → Pieces) (work after : Workspace) (text : List Char) : Prop :=
  Grows work.slots after.slots ∧ Numbered after.slots ∧
    ∀ {slots : Bindings} {rest : Pieces} {tail : List Char}, Grows after.slots slots → rest.Writes slots tail →
      (add rest).Writes slots (text ++ tail)

/-- The action fails, or it gives a text that writes the pieces that stand for its result. -/
def Stands (action : Reduction (List Char)) (work : Workspace) : Option (Pieces → Pieces) → Prop
  | none => ∃ failure after, action.run.run work = (.error failure, after)
  | some add => ∃ text after, LiteralWritten add work after text ∧ action.run.run work = (.ok text, after)

theorem stands_literalOf (value : Value) (work : Workspace) (numbered : Numbered work.slots) :
    Stands (literalOf value) work (literalPieces value) := by
  have kept : ∀ v : Value, ∃ text after, LiteralWritten (.value v) work after text ∧
      (keepInSlot v).run.run work = (.ok text, after) := by
    intro v
    refine ⟨(slotName work.slots.length).toList, { work with slots := work.slots ++ [(slotName work.slots.length, v)] },
      ⟨grows_keep _ _, numbered_keep numbered v, fun grows writes => ?_⟩, rfl⟩
    exact .value _ (grows _ _ (get_new numbered v)) writes
  have signed : ∀ (negative : Bool) (text : String),
      LiteralWritten (signedPieces negative text.toList) work work (signedLiteral negative text) :=
    fun negative text => ⟨grows_refl _, numbered, fun _ writes => writes_signed writes negative text⟩
  unfold literalPieces literalOf Stands
  cases value with
  | bool b =>
    cases b
    · exact ⟨"false".toList, work, ⟨grows_refl _, numbered, fun _ writes => Pieces.writes_textPieces writes _⟩, rfl⟩
    · exact ⟨"true".toList, work, ⟨grows_refl _, numbered, fun _ writes => Pieces.writes_textPieces writes _⟩, rfl⟩
  | int n =>
    dsimp only
    cases Number.ofInt n with
    | none => exact ⟨_, _, rfl⟩
    | some _ =>
      cases shown : showInt n with
      | error failure => exact ⟨_, _, rfl⟩
      | ok text => exact ⟨_, _, signed (n < 0) text, rfl⟩
  | float x =>
    dsimp only
    cases Number.isFinite x with
    | true => exact ⟨_, _, signed (x < 0.0) _, rfl⟩
    | false => exact kept (.float x)
  | _ => exact kept _

/-- A text that stands for a value, in front of what becomes pieces. -/
theorem becomes_stands {action : Reduction (List Char)} {work : Workspace} {stands : Option (Pieces → Pieces)}
    (written : Stands action work stands) {further : List Char → Reduction (List Char)} {result : Option Pieces}
    {next : Option Char → Reduction (List Char)} (rest : ∀ add text after, stands = some add →
      LiteralWritten add work after text → Becomes (further text) after result next) :
    Becomes (action >>= fun text => pushText text (further text)) work (stands.bind fun add => result.map add) next := by
  cases stands with
  | none =>
    obtain ⟨failure, after, run⟩ := written
    exact ⟨failure, after, run_bind_error run _⟩
  | some add =>
    obtain ⟨text, after, literal, run⟩ := written
    exact becomes_from literal.1 (run_bind_ok run _)
      (becomes_push (fun grows written => literal.2.2 grows written) (rest add text after rfl literal))

end ProceduralScene.Expression
