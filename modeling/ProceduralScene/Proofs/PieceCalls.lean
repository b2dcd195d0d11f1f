import ProceduralScene.Proofs.PieceLiterals
import ProceduralScene.Proofs.Spelling

/-!
Calls on pieces. A scan for the calls of a name replaces each call by what stands for its result, and copies what is
left; a name behind a point or a `$` is no call.
-/

set_option autoImplicit false

namespace ProceduralScene.Expression

open Pieces

/-! ### A word in a text -/

section

variable {word cs after : List Char}

/-- Two words of one text, none of which goes on behind it, are the same. -/
theorem same_word {rest : List Char} (wordy : ∀ c ∈ word, Text.isWord c = true) (wordy' : ∀ c ∈ cs, Text.isWord c = true)
    (ends : ∀ c ∈ rest.head?, Text.isWord c = false) (ends' : ∀ c ∈ after.head?, Text.isWord c = false)
    (same : cs ++ after = word ++ rest) : cs = word ∧ after = rest := by
  have first := takeWhile_run wordy ends
  have second := takeWhile_run wordy' ends'
  rw [same, first] at second
  subst second
  exact ⟨rfl, List.append_cancel_left same⟩

theorem blocksCall_iff {previous : Option Char} (noWord : Edge.behind previous ≠ .word) :
    blocksCall previous = false ↔ Edge.behind previous = .plain := by
  cases previous with
  | none => simp [blocksCall, Edge.behind]
  | some c =>
    have other : Text.isWord c = false := by
      refine Bool.eq_false_iff.mpr fun word => noWord ?_
      exact behind_word word
    have underscore : c ≠ '_' := by
      rintro rfl
      revert other
      decide
    by_cases point : c = '.'
    · subst point
      decide
    · by_cases dollar : c = '$'
      · subst dollar
        decide
      · simp [blocksCall, Edge.behind, other, underscore, point, dollar]

end

theorem holdsSlot_slotName (i : Nat) : holdsSlot (slotName i).toList = true := by
  rw [slotName_toList]
  rfl

/-- The text of what stands for a result leaves no quote open. -/
theorem quoteAfter_literal_text {add : Pieces → Pieces} (operand : Operand add) {work after : Workspace} {text : List Char}
    (written : LiteralWritten add work after text) : quoteAfter none text = none := by
  have whole := written.2.2 (grows_refl _) Writes.nil
  rw [List.append_nil] at whole
  have fits : (add .nil).orderly false .plain .none .outside = true := operand.orderly nofun nofun rfl
  exact quoteAfter_writes whole fits

/-! ### Replacing calls -/

namespace Pieces

/-- What stands for a call that starts with a word, and the pieces behind it. -/
def callAt (name : List Char) (result : Pieces → Option (Option (Pieces → Pieces))) (edge : Edge) (cs : List Char)
    (rest : Pieces) : Option (Option (Pieces → Pieces) × Pieces) :=
  if cs = name ∧ edge = .plain then
    rest.callBehind.bind fun call => (result call.1).map fun stands => (stands, call.2)
  else none

theorem callAt_spec {name cs : List Char} {result : Pieces → Option (Option (Pieces → Pieces))} {edge : Edge}
    {rest behind : Pieces} {stands : Option (Pieces → Pieces)} (call : callAt name result edge cs rest = some (stands, behind)) :
    cs = name ∧ edge = .plain ∧ ∃ inside, rest.callBehind = some (inside, behind) ∧ result inside = some stands := by
  unfold callAt at call
  split at call
  · rename_i both
    obtain ⟨⟨inside, behind'⟩, found, call⟩ := Option.bind_eq_some_iff.mp call
    obtain ⟨stands', known, same⟩ := Option.map_eq_some_iff.mp call
    cases same
    exact ⟨both.1, both.2, inside, found, known⟩
  · cases call

/-- The pieces with the calls of a name replaced, where `result` tells for the arguments whether the call is replaced and
by what; nothing when a result has no literal. -/
def replaceCalls (name : List Char) (result : Pieces → Option (Option (Pieces → Pieces))) : Edge → Pieces → Option Pieces
  | _, .nil => some .nil
  | _, .mark c rest => (replaceCalls name result (.behind (some c)) rest).map (.mark c)
  | edge, .run cs rest =>
    match call : callAt name result edge cs rest with
    | some (stands, behind) =>
      have := (callAt_spec call).2.2.elim fun _ both => (sizeOf_callBehind both.1).2
      stands.bind fun add => (replaceCalls name result .word behind).map add
    | none => (replaceCalls name result .word rest).map (.run cs)
  | _, .value v rest => (replaceCalls name result .word rest).map (.value v)
  | _, .literal quote content rest => (replaceCalls name result .plain rest).map (.literal quote content)
  | _, .brackets round inside rest =>
    (replaceCalls name result .plain inside).bind fun within =>
      (replaceCalls name result .plain rest).map (.brackets round within)
termination_by _ pieces => sizeOf pieces

section

variable {name cs : List Char} {result : Pieces → Option (Option (Pieces → Pieces))} {edge : Edge} {rest : Pieces}

theorem replaceCalls_call {stands : Option (Pieces → Pieces)} {behind : Pieces}
    (call : callAt name result edge cs rest = some (stands, behind)) : replaceCalls name result edge (.run cs rest) =
      stands.bind fun add => (replaceCalls name result .word behind).map add := by
  rw [replaceCalls]
  split
  · rename_i same
    rw [call] at same
    cases same
    rfl
  · rename_i none
    rw [call] at none
    cases none

theorem replaceCalls_run (none : callAt name result edge cs rest = none) : replaceCalls name result edge (.run cs rest) =
    (replaceCalls name result .word rest).map (.run cs) := by
  rw [replaceCalls]
  split
  · rename_i same
    rw [none] at same
    cases same
  · rfl

end

end Pieces

theorem descends_calls (name : List Char) (result : Pieces → Option (Option (Pieces → Pieces))) :
    Descends (fun _ => false) (replaceCalls name result) where
  signs _ own := nomatch own
  ended _ := by rw [replaceCalls]
  mark _ _ _ _ := by rw [replaceCalls]
  value _ _ _ := by rw [replaceCalls]
  literal _ _ _ _ := by rw [replaceCalls]
  brackets _ _ _ _ := by rw [replaceCalls]

/-- A scan that replaces the calls of a name by what `result` tells. -/
structure ReplacesCalls (name : List Char) (scan : TextScan) (result : Pieces → Option (Option (Pieces → Pieces))) : Prop where
  isName : IsName name
  free : holdsSlot name = false
  copies : Copies name scan pushText
  operand : ∀ {inside : Pieces} {add : Pieces → Pieces}, result inside = some (some add) →
    inside.orderly false .plain .none (.ofCall name) = true → Operand add
  call : ∀ {inside : Pieces} {stands : Option (Pieces → Pieces)}, result inside = some stands →
    inside.orderly false .plain .none (.ofCall name) = true → ∀ {work : Workspace} {within : List Char}, Numbered work.slots →
    inside.Writes work.slots within →
      ∃ (action : Reduction (List Char)) (last : List Char → Option Char), Stands action work stands ∧
      ∀ {head behind : List Char} {previous : Option Char}, head ≠ [] →
        matchCall? name previous (head ++ (within ++ ')' :: behind)) = some (within ++ ')' :: behind) →
        (head.head?.any isQuote || blocksCall previous) = false →
        scan none previous (head ++ (within ++ ')' :: behind)) =
          action >>= fun text => pushText text (scan (quoteAfter none text) (last text) behind)
  skip : ∀ {inside : Pieces}, result inside = none → inside.orderly false .plain .none (.ofCall name) = true →
    ∀ {slots : Bindings} {within : List Char}, inside.Writes slots within →
      ∀ {head behind : List Char} {previous : Option Char}, head ≠ [] →
        matchCall? name previous (head ++ (within ++ ')' :: behind)) = some (within ++ ')' :: behind) →
        (head.head?.any isQuote || blocksCall previous) = false →
        scan none previous (head ++ (within ++ ')' :: behind)) =
          pushText head (scan (quoteAfter none head) (some '(') (within ++ ')' :: behind))

section

variable {name : List Char} {scan : TextScan} {result : Pieces → Option (Option (Pieces → Pieces))}
  (calls : ReplacesCalls name scan result)

include calls

/-- A word is copied where it is no call that is replaced. -/
theorem copied_word {cs : List Char} (nonempty : cs ≠ []) (wordy : ∀ c ∈ cs, Text.isWord c = true) {previous : Option Char}
    {after : List Char} (ends : ∀ c ∈ after.head?, Text.isWord c = false)
    (kept : ∀ blanks rest, cs = name → (∀ c ∈ blanks, Text.isSpace c = true) → after = blanks ++ '(' :: rest →
      matchCall? name previous (name ++ blanks ++ ['('] ++ rest) = some rest →
      scan none previous (name ++ blanks ++ ['('] ++ rest) =
        pushText (name ++ blanks ++ ['(']) (scan (quoteAfter none (name ++ blanks ++ ['('])) (some '(') rest)) :
    scan none previous (cs ++ after) = pushText cs (scan none cs.getLast? after) := by
  have passes := passes_copies calls.isName calls.copies
  obtain ⟨c, cs, rfl⟩ := List.exists_cons_of_ne_nil nonempty
  cases matched : matchCall? name previous (c :: cs ++ after) with
  | none =>
    refine passes_run passes wordy ?_
    rw [List.cons_append] at matched
    rw [calls.copies.other matched, stepQuote_word (wordy c List.mem_cons_self)]
  | some rest =>
    obtain ⟨blanks, blank, split⟩ := matchCall_found matched
    have solid : ∀ d ∈ (blanks ++ '(' :: rest).head?, Text.isWord d = false := by
      intro d head
      cases blanks with
      | nil =>
        cases head
        decide
      | cons b blanks =>
        cases head
        exact Text.isWord_of_isSpace (blank _ List.mem_cons_self)
    have text : name ++ blanks ++ ['('] ++ rest = name ++ (blanks ++ '(' :: rest) := by simp
    rw [text] at split
    obtain ⟨same, rfl⟩ := same_word calls.isName.whole wordy solid ends split
    rw [same] at matched ⊢
    have quiet : quoteAfter none (name ++ blanks ++ ['(']) = none := by
      rw [quoteAfter_append, quoteAfter_quiet fun d member => ?_]
      · rfl
      · rcases List.mem_append.mp member with inName | inBlanks
        · exact quiet_word (calls.isName.whole d inName)
        · exact (isMark_spec (isMark_space (blank d inBlanks))).2
    rw [← text] at matched ⊢
    rw [kept blanks rest same blank rfl matched, quiet, passes_blanks passes blank (fun _ _ => rfl),
      passes.mark (show Text.isWord '(' = false by decide) rfl, calls.copies.append, calls.copies.append]
    rfl

theorem walks_calls : Walks (fun _ => false) scan (replaceCalls name result) where
  toDescends := descends_calls name result
  passes := passes_copies calls.isName calls.copies
  slot i {previous tail} _ ends := by
    refine copied_word calls (by simp [slotName_toList, slotMark]) (slotName_wordy i) ends fun _ _ same => ?_
    have free := calls.free
    rw [← same, holdsSlot_slotName] at free
    cases free

section

variable {cs : List Char} {rest : Pieces} {edge : Edge} {callee : Callee} {found : Argument}
  (fits : (Pieces.run cs rest).orderly false edge callee found = true)

include fits

theorem keeps_call (ih : ∀ smaller, sizeOf smaller < sizeOf (Pieces.run cs rest) →
    Rewrites false scan (replaceCalls name result) smaller) {after : Pieces}
    (stepped : replaceCalls name result edge (.run cs rest) = some after) :
    after.orderly false edge callee found = true ∧
      (edge = .dollar → after.startsName = (Pieces.run cs rest).startsName) := by
  obtain ⟨noWord, -, -, -, further⟩ := orderly_run.mp fits
  cases call : callAt name result edge cs rest with
  | none =>
    exact keeps_run (replaceCalls_run call) (ih rest (by simp only [run.sizeOf_spec]; omega)) fits stepped
  | some found' =>
    obtain ⟨stands, behind⟩ := found'
    obtain ⟨rfl, rfl, inside, called, known⟩ := callAt_spec call
    obtain ⟨within, beyond⟩ := orderly_callBehind called (Callee.ofWord_ne _ _) further
    have smaller := (sizeOf_callBehind called).2
    rw [replaceCalls_call call] at stepped
    obtain ⟨add, rfl, stepped⟩ := Option.bind_eq_some_iff.mp stepped
    obtain ⟨others, same, rfl⟩ := Option.map_eq_some_iff.mp stepped
    refine ⟨(calls.operand known within).orderly nofun nofun ?_, nofun⟩
    exact ((ih behind (by simp only [run.sizeOf_spec]; omega)).keeps (.inl rfl) beyond others same).1

variable {work : Workspace} (numbered : Numbered work.slots) {text tail : List Char} (writes : rest.Writes work.slots text)
  (apart : Apart tail) {previous : Option Char} (here : Edge.behind previous = edge)

include writes apart here

/-- Where a word is no call that is replaced, the scan copies it. -/
theorem copied_kept (kept : callAt name result edge cs rest = none) :
    scan none previous (cs ++ (text ++ tail)) = pushText cs (scan none cs.getLast? (text ++ tail)) := by
  obtain ⟨noWord, nonempty, wordy, -, further⟩ := orderly_run.mp fits
  refine copied_word calls nonempty wordy (writes_apart writes further apart) fun blanks behind same blank split matched => ?_
  have some : name ++ blanks ++ ['('] ≠ [] := by simp
  have noQuote : (name ++ blanks ++ ['(']).head?.any isQuote = false := by
    obtain ⟨c, more, rfl, wordy⟩ := isName_cons calls.isName
    exact (quiet_word wordy).quote
  by_cases plain : edge = .plain
  · have free : blocksCall previous = false := (blocksCall_iff (by rw [here]; exact noWord)).mpr (here.trans plain)
    have opens := dropWhile_blanks blank behind
    cases called : rest.callBehind with
    | none =>
      rw [← split] at opens
      exact absurd (by rw [opens]; rfl) (no_callBehind called writes apart further)
    | some parts =>
      obtain ⟨inside, beyond⟩ := parts
      have keeps : result inside = none := by
        rw [callAt, if_pos ⟨same, plain⟩, called] at kept
        simpa using kept
      obtain ⟨blanks', within, after, blank', rfl, writesInside, -⟩ := writes_callBehind called writes
      have opens' := dropWhile_blanks blank' (within ++ ')' :: (after ++ tail))
      have whole : blanks' ++ '(' :: (within ++ ')' :: (after ++ tail)) = blanks ++ '(' :: behind := by
        rw [← split]
        simp
      rw [whole, opens] at opens'
      injection opens' with _ ended
      subst ended
      subst same plain
      exact calls.skip keeps (orderly_callBehind called (Callee.ofWord_ne _ _) further).1 writesInside some matched
        (by rw [noQuote, free]; rfl)
  · have blocks : blocksCall previous = true := by
      refine Bool.not_eq_false _ ▸ fun free => plain ?_
      exact here.symm.trans ((blocksCall_iff (by rw [here]; exact noWord)).mp free)
    exact calls.copies.blocked some matched (by rw [blocks]; simp)

include numbered

theorem becomes_call (ih : ∀ smaller, sizeOf smaller < sizeOf (Pieces.run cs rest) →
    Rewrites false scan (replaceCalls name result) smaller) :
    Becomes (scan none previous (cs ++ (text ++ tail))) work (replaceCalls name result edge (.run cs rest))
      fun last => scan none last tail := by
  obtain ⟨noWord, nonempty, wordy, -, further⟩ := orderly_run.mp fits
  cases call : callAt name result edge cs rest with
  | none =>
    exact becomes_run (replaceCalls_run call) (ih rest (by simp only [run.sizeOf_spec]; omega)) fits numbered writes apart
      (copied_kept calls fits writes apart here call)
  | some found' =>
    obtain ⟨stands, behind⟩ := found'
    obtain ⟨rfl, rfl, inside, called, known⟩ := callAt_spec call
    obtain ⟨within, beyond⟩ := orderly_callBehind called (Callee.ofWord_ne _ _) further
    have smaller := (sizeOf_callBehind called).2
    obtain ⟨blanks, enclosed, after, blank, rfl, writesInside, writesBehind⟩ := writes_callBehind called writes
    obtain ⟨action, last, stand, replaced⟩ := calls.call known within numbered writesInside
    have start : previous.any Text.isWord = false := by
      refine Bool.eq_false_iff.mpr fun word => ?_
      rw [any_isWord_iff, here] at word
      cases word
    have noQuote : (cs ++ blanks ++ ['(']).head?.any isQuote = false := by
      obtain ⟨c, more, rfl, start⟩ := isName_cons calls.isName
      exact (quiet_word start).quote
    have free : blocksCall previous = false := (blocksCall_iff (by rw [here]; nofun)).mpr here
    have split : cs ++ (blanks ++ '(' :: (enclosed ++ ')' :: after) ++ tail) =
        (cs ++ blanks ++ ['(']) ++ (enclosed ++ ')' :: (after ++ tail)) := by simp
    rw [split, replaced (by simp) (matchCall_call calls.isName start blank _) (by rw [noQuote, free]; rfl),
      replaceCalls_call call]
    refine becomes_stands stand fun add text ended same written => ?_
    subst same
    rw [quoteAfter_literal_text (calls.operand known within) written]
    exact (ih behind (by simp only [run.sizeOf_spec]; omega)).becomes (.inl rfl) beyond ended _ after tail written.2.1
      (writes_grows written.1 writesBehind) (.inl rfl) apart

end

/-- Such a scan rewrites the pieces of a text as the calls are replaced in them. -/
theorem rewrites_calls (pieces : Pieces) : Rewrites false scan (replaceCalls name result) pieces := by
  refine rewrites_walks (walks_calls calls) (fun off => absurd off Bool.false_ne_true) (fun _ _ own => nomatch own)
    (fun cs rest ih => ?_) pieces
  constructor
  · intro edge around callee found edges fits after stepped
    rcases edges with rfl | rfl
    · exact absurd rfl (orderly_run.mp fits).1
    · exact keeps_call calls fits ih stepped
  · intro edge around callee found edges fits work previous text tail numbered writes here apart
    rcases edges with rfl | rfl
    · exact absurd rfl (orderly_run.mp fits).1
    rcases here with rfl | here
    · exact absurd rfl (orderly_run.mp fits).1
    cases writes with
    | run _ writes =>
      rw [List.append_assoc]
      exact becomes_call calls fits numbered writes apart here ih

end

end ProceduralScene.Expression
