import ProceduralScene.Proofs.PieceCalls

/-!
Words on pieces: the constants and the bare variables of a text. A word is replaced where it stands as an operand of its
own; a word in a literal, the name of a call, and a name behind a point or a `$` stay.
-/

set_option autoImplicit false

namespace ProceduralScene.Expression

open Pieces

/-! ### An operand at the start of a text -/

theorem continuesName_iff {previous : Option Char} : continuesName previous = false ↔ Edge.behind previous = .plain := by
  cases previous with
  | none => simp [continuesName, Edge.behind]
  | some c =>
    by_cases word : Text.isWord c = true
    · simp [continuesName, Edge.behind, word]
    · by_cases point : c = '.'
      · subst point
        decide
      · by_cases dollar : c = '$'
        · subst dollar
          decide
        · simp [continuesName, Edge.behind, word, point, dollar]

section

variable {word : List Char}

theorem matchOperand_found {previous : Option Char} {text rest : List Char}
    (found : matchOperand? word previous text = some rest) : text = word ++ rest ∧ Edge.behind previous = .plain := by
  unfold matchOperand? at found
  split at found
  · cases found
  · rename_i apart
    refine ⟨?_, continuesName_iff.mp (Bool.eq_false_iff.mpr apart)⟩
    split at found
    · rename_i behind matched
      split at found
      · cases found
      · cases found
        unfold matchWord? at matched
        split at matched
        · rename_i dropped
          dsimp only at matched
          split at matched
          · cases matched
            exact dropWord_some.mp dropped
          · cases matched
        · cases matched
    · cases found

variable (name : IsName word)

include name

theorem matchWord_word {previous : Option Char} (start : previous.any Text.isWord = false) {rest : List Char}
    (ends : ∀ c ∈ rest.head?, Text.isWord c = false) : matchWord? word previous (word ++ rest) = some rest := by
  obtain ⟨c, more, rfl, wordy⟩ := isName_cons name
  have dropped : dropWord? (c :: more) (c :: more ++ rest) = some rest := dropWord_some.mpr rfl
  have last : Text.isWord ((c :: more).getLast (List.cons_ne_nil _ _)) = true := name.whole _ (List.getLast_mem _)
  have ended : rest.head?.any Text.isWord = false := by
    cases rest with
    | nil => rfl
    | cons d rest => exact ends d rfl
  rw [matchWord?, dropped]
  simp only [List.cons_append, List.head?_cons, isBoundary, start, Option.any_some, wordy, Bool.false_bne,
    List.getLast?_eq_getLast_of_ne_nil (List.cons_ne_nil c more), Option.some_or, last, ended, Bool.true_and,
    Bool.bne_false, if_true]

theorem matchWord_whole {cs after rest : List Char} {previous : Option Char} (wordy : ∀ c ∈ cs, Text.isWord c = true)
    (ends : ∀ c ∈ after.head?, Text.isWord c = false) (matched : matchWord? word previous (cs ++ after) = some rest) :
    cs = word ∧ after = rest := by
  unfold matchWord? at matched
  split at matched
  · rename_i behind dropped
    dsimp only at matched
    split at matched
    · rename_i boundaries
      cases matched
      rw [Bool.and_eq_true] at boundaries
      have last : word.getLast?.or previous = some (word.getLast name.nonempty) := by
        rw [List.getLast?_eq_getLast_of_ne_nil name.nonempty, Option.some_or]
      have stops : rest.head?.any Text.isWord = false := by
        have second := boundaries.2
        rw [last, isBoundary, Option.any_some, name.whole _ (List.getLast_mem _)] at second
        simpa using second
      refine same_word name.whole wordy (fun c head => ?_) ends (dropWord_some.mp dropped)
      rw [show rest.head? = some c from head] at stops
      exact stops
    · cases matched
  · cases matched

theorem matchWord_mark {c : Char} (mark : Text.isWord c = false) (previous : Option Char) (text : List Char) :
    matchWord? word previous (c :: text) = none := by
  obtain ⟨d, more, rfl, wordy⟩ := isName_cons name
  have other : d ≠ c := by
    rintro rfl
    rw [mark] at wordy
    cases wordy
  simp [matchWord?, dropWord?, other]

theorem matchOperand_mark {c : Char} (mark : Text.isWord c = false) (previous : Option Char) (text : List Char) :
    matchOperand? word previous (c :: text) = none := by
  rw [matchOperand?, matchWord_mark name mark]
  simp

theorem matchOperand_nil (previous : Option Char) : matchOperand? word previous [] = none := by
  obtain ⟨d, more, rfl, wordy⟩ := isName_cons name
  simp [matchOperand?, matchWord?, dropWord?]

omit name in
theorem matchOperand_inside {previous : Option Char} (inside : previous.any Text.isWord = true) (text : List Char) :
    matchOperand? word previous text = none := by
  have continues : continuesName previous = true := by
    refine Bool.not_eq_false _ ▸ fun apart => ?_
    have plain := continuesName_iff.mp apart
    rw [(any_isWord_iff previous).mp inside] at plain
    cases plain
  rw [matchOperand?, if_pos continues]

end

/-! ### Replacing in a text -/

section

variable {word literal : List Char}

theorem replaceOperand_skip (cs : List Char) : ∀ (quote previous : Option Char) (rest : List Char),
    replaceOperand word literal quote previous cs.length (cs ++ rest) =
      replaceOperand word literal (quoteAfter quote cs) (cs.getLast?.or previous) 0 rest := by
  induction cs with
  | nil => exact fun _ _ _ => rfl
  | cons c cs ih =>
    intro quote previous rest
    rw [List.length_cons, List.cons_append, replaceOperand, ih, List.getLast?_cons]
    congr 1
    cases cs.getLast? <;> rfl

theorem replaceOperand_copy {quote previous : Option Char} {c : Char} {text : List Char}
    (none : matchOperand? word previous (c :: text) = none) : replaceOperand word literal quote previous 0 (c :: text) =
      c :: replaceOperand word literal (stepQuote quote c) (some c) 0 text := by
  rw [replaceOperand, none]

theorem replaceOperand_word (name : IsName word) {quote previous : Option Char} {rest : List Char}
    (found : matchOperand? word previous (word ++ rest) = some rest) :
    replaceOperand word literal quote previous 0 (word ++ rest) =
      (if quote.isSome then word else literal) ++ replaceOperand word literal (quoteAfter quote word) word.getLast? 0 rest := by
  obtain ⟨c, more, rfl, wordy⟩ := isName_cons name
  have skip := @replaceOperand_skip (c :: more) literal more (stepQuote quote c) (some c) rest
  have last : (c :: more).getLast? = more.getLast?.or (some c) := by
    rw [List.getLast?_cons]
    cases more.getLast? <;> rfl
  rw [List.cons_append] at found ⊢
  rw [replaceOperand, found]
  simp only [List.length_cons, skip, (quiet_word wordy).quote, Bool.or_false, last]
  rfl

/-- The scan for a word as a rewriting of text. -/
def scanWord (word literal : List Char) : TextScan :=
  fun quote previous text => pure (replaceOperand word literal quote previous 0 text)

theorem pushText_pure (head text : List Char) : pushText head (pure text : Reduction (List Char)) = pure (head ++ text) := by
  simp [pushText]

theorem scanWord_copy {quote previous : Option Char} {c : Char} {text : List Char}
    (none : matchOperand? word previous (c :: text) = none) : scanWord word literal quote previous (c :: text) =
      pushText [c] (scanWord word literal (stepQuote quote c) (some c) text) := by
  rw [scanWord, replaceOperand_copy none, scanWord, pushText_pure]
  rfl

theorem scanWord_quoted (name : IsName word) {quote : Char} (quoting : isQuote quote = true) (text : List Char) (length : Nat) :
    ∀ (content : List Char) (previous : Option Char), content.length = length → quote ∉ content →
      scanWord word literal (some quote) previous (content ++ quote :: text) =
        pushText (content ++ [quote]) (scanWord word literal none (some quote) text) := by
  induction length using Nat.strongRecOn with
  | _ length ih =>
  intro content previous same free
  cases content with
  | nil =>
    rw [List.nil_append, scanWord_copy (matchOperand_mark name (isWord_of_isQuote quoting) previous text)]
    simp [stepQuote]
  | cons c content =>
    have other : quote ≠ c := fun equal => free (equal ▸ List.mem_cons_self)
    have stays : stepQuote (some quote) c = some quote := by simp [stepQuote, other.symm]
    cases matched : matchOperand? word previous (c :: content ++ quote :: text) with
    | none =>
      have shorter : content.length < length := by rw [← same]; exact Nat.lt_succ_self _
      rw [List.cons_append] at matched ⊢
      rw [scanWord_copy matched, stays,
        ih content.length shorter content (some c) rfl (fun member => free (List.mem_cons_of_mem c member)), ← pushText_append]
      rfl
    | some rest =>
      obtain ⟨split, -⟩ := matchOperand_found matched
      have noQuote : quote ∉ word := by
        intro member
        have wordy := name.whole quote member
        rw [isWord_of_isQuote quoting] at wordy
        cases wordy
      obtain ⟨behind, inner, outer⟩ := split_content noQuote split
      have shorter : behind.length < length := by
        rw [← same, inner, List.length_append]
        have := List.length_pos_iff.mpr name.nonempty
        omega
      rw [split] at matched
      rw [inner, List.append_assoc, ← outer, scanWord, replaceOperand_word name matched,
        if_pos (show (some quote).isSome = true from rfl), quoteAfter_open noQuote, ← pushText_pure, outer]
      have further := ih behind.length shorter behind word.getLast? rfl
        (fun member => free (by rw [inner]; exact List.mem_append_right _ member))
      rw [scanWord] at further
      rw [further, ← pushText_append, ← List.append_assoc]

theorem passes_words (name : IsName word) : Passes (fun _ => false) (scanWord word literal) pushText where
  nothing := pushText_nil
  append := pushText_append
  mark noWord _ := scanWord_copy (matchOperand_mark name noWord _ _)
  inside within wordy := by rw [scanWord_copy (matchOperand_inside within _), stepQuote_word wordy]
  literal quoting free previous text := scanWord_quoted name quoting text _ _ previous rfl free

end

/-! ### Replacing in pieces -/

namespace Pieces

def replaceWord (name : List Char) (add : Pieces → Pieces) : Edge → Pieces → Option Pieces
  | _, .nil => some .nil
  | _, .mark c rest => (replaceWord name add (.behind (some c)) rest).map (.mark c)
  | edge, .run cs rest =>
    (replaceWord name add .word rest).map (if cs = name ∧ edge = .plain ∧ rest.callBehind = none then add else .run cs)
  | _, .value v rest => (replaceWord name add .word rest).map (.value v)
  | _, .literal quote content rest => (replaceWord name add .plain rest).map (.literal quote content)
  | _, .brackets round inside rest =>
    (replaceWord name add .plain inside).bind fun within => (replaceWord name add .plain rest).map (.brackets round within)

end Pieces

theorem descends_words (name : List Char) (add : Pieces → Pieces) : Descends (fun _ => false) (replaceWord name add) where
  signs _ own := nomatch own
  ended _ := rfl
  mark _ _ _ _ := rfl
  value _ _ _ := rfl
  literal _ _ _ _ := rfl
  brackets _ _ _ _ := rfl

/-- A word and the text that is written for it, with the pieces of that text. -/
structure ReplacesWord (word literal : List Char) (add : Pieces → Pieces) : Prop where
  isName : IsName word
  free : holdsSlot word = false
  operand : Operand add
  writes : ∀ {slots : Bindings} {rest : Pieces} {text : List Char}, rest.Writes slots text →
    (add rest).Writes slots (literal ++ text)

section

variable {word literal : List Char} {add : Pieces → Pieces} (replaces : ReplacesWord word literal add)

include replaces

theorem copied_other {cs after : List Char} {previous : Option Char} (nonempty : cs ≠ [])
    (wordy : ∀ c ∈ cs, Text.isWord c = true) (other : matchOperand? word previous (cs ++ after) = none) :
    scanWord word literal none previous (cs ++ after) = pushText cs (scanWord word literal none cs.getLast? after) := by
  obtain ⟨c, cs, rfl⟩ := List.exists_cons_of_ne_nil nonempty
  refine passes_run (passes_words replaces.isName) wordy ?_
  rw [List.cons_append] at other
  rw [scanWord_copy other, stepQuote_word (wordy c List.mem_cons_self)]

theorem matchOperand_whole {cs after rest : List Char} {previous : Option Char} (wordy : ∀ c ∈ cs, Text.isWord c = true)
    (ends : ∀ c ∈ after.head?, Text.isWord c = false) (matched : matchOperand? word previous (cs ++ after) = some rest) :
    cs = word ∧ after = rest ∧ (after.dropWhile Text.isSpace).head? ≠ some '(' := by
  unfold matchOperand? at matched
  split at matched
  · cases matched
  · split at matched
    · rename_i behind found
      split at matched
      · cases matched
      · rename_i closed
        cases matched
        obtain ⟨rfl, rfl⟩ := matchWord_whole replaces.isName wordy ends found
        exact ⟨rfl, rfl, by simpa using closed⟩
    · cases matched

theorem walks_words : Walks (fun _ => false) (scanWord word literal) (replaceWord word add) where
  toDescends := descends_words word add
  passes := passes_words replaces.isName
  slot i {previous tail} _ ends := by
    refine copied_other replaces (by simp [slotName_toList, slotMark]) (slotName_wordy i) ?_
    cases matched : matchOperand? word previous ((slotName i).toList ++ tail) with
    | none => rfl
    | some rest =>
      obtain ⟨same, -⟩ := matchOperand_whole replaces (slotName_wordy i) ends matched
      have free := replaces.free
      rw [← same, holdsSlot_slotName] at free
      cases free

theorem rewrites_word {cs : List Char} {rest : Pieces} (ih : Rewrites false (scanWord word literal) (replaceWord word add) rest) :
    Rewrites false (scanWord word literal) (replaceWord word add) (.run cs rest) := by
  constructor
  · intro edge around callee found edges fits result stepped
    rcases edges with rfl | rfl
    · exact absurd rfl (orderly_run.mp fits).1
    obtain ⟨noWord, -, -, -, further⟩ := orderly_run.mp fits
    by_cases hit : cs = word ∧ around = .plain ∧ rest.callBehind = none
    · rw [replaceWord, if_pos hit] at stepped
      obtain ⟨inner, same, rfl⟩ := Option.map_eq_some_iff.mp stepped
      -- what stands for the word might be called; no call follows, so that asks for nothing more
      have called : inner.orderly false .word .call found.next = true :=
        (ih.keeps (.inl rfl) (orderly_noCall hit.2.2 further) inner same).1
      refine ⟨replaces.operand.orderly noWord (by rw [hit.2.1]; nofun) called, ?_⟩
      rw [hit.2.1]
      exact nofun
    · exact keeps_run (by rw [replaceWord, if_neg hit]) ih fits stepped
  · intro edge around callee found edges fits work previous text tail numbered writes here apart
    rcases edges with rfl | rfl
    · exact absurd rfl (orderly_run.mp fits).1
    rcases here with rfl | here
    · exact absurd rfl (orderly_run.mp fits).1
    obtain ⟨noWord, -, wordy, -, further⟩ := orderly_run.mp fits
    cases writes with
    | @run _ _ text nonempty writes =>
    have ends := writes_apart writes further apart
    rw [List.append_assoc]
    by_cases hit : cs = word ∧ around = .plain ∧ rest.callBehind = none
    · obtain ⟨rfl, plain, noCall⟩ := hit
      have closed := no_callBehind noCall writes apart further
      have start : previous.any Text.isWord = false := by
        refine Bool.eq_false_iff.mpr fun word => noWord ?_
        exact here.symm.trans ((any_isWord_iff previous).mp word)
      have matched : matchOperand? cs previous (cs ++ (text ++ tail)) = some (text ++ tail) := by
        rw [matchOperand?, continuesName_iff.mpr (here.trans plain), matchWord_word replaces.isName start ends]
        simp [closed]
      have written : scanWord cs literal none previous (cs ++ (text ++ tail)) =
          pushText literal (scanWord cs literal none cs.getLast? (text ++ tail)) := by
        rw [scanWord, replaceOperand_word replaces.isName matched, scanWord, pushText_pure,
          quoteAfter_quiet fun c member => quiet_word (wordy c member)]
        rfl
      rw [written, replaceWord, if_pos ⟨rfl, plain, noCall⟩]
      exact becomes_push (fun _ written => replaces.writes written)
        (ih.becomes (show Edge.word = .word ∨ Edge.word = .word from .inl rfl) further work _ text tail numbered writes
          (.inl rfl) apart)
    · refine becomes_run (by rw [replaceWord, if_neg hit]) ih fits numbered writes apart
        (copied_other replaces nonempty wordy ?_)
      cases matched : matchOperand? word previous (cs ++ (text ++ tail)) with
      | none => rfl
      | some behind =>
        obtain ⟨same, -, closed⟩ := matchOperand_whole replaces wordy ends matched
        refine absurd ⟨same, here.symm.trans (matchOperand_found matched).2, ?_⟩ hit
        cases called : rest.callBehind with
        | none => rfl
        | some parts =>
          obtain ⟨inside, beyond⟩ := parts
          obtain ⟨blanks, within, after, blank, rfl, -, -⟩ := writes_callBehind called writes
          rw [List.append_assoc, List.cons_append, dropWhile_blanks blank] at closed
          exact absurd rfl closed

theorem rewrites_words (pieces : Pieces) : Rewrites false (scanWord word literal) (replaceWord word add) pieces :=
  rewrites_walks (walks_words replaces) (fun off => absurd off Bool.false_ne_true) (fun _ _ own => nomatch own)
    (fun _ rest ih => rewrites_word replaces (ih rest (by simp only [run.sizeOf_spec]; omega))) pieces

end

end ProceduralScene.Expression
