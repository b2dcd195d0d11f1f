import ProceduralScene.Proofs.PieceFunctions
import ProceduralScene.Proofs.PieceVariables
import ProceduralScene.Proofs.PieceWords

/-!
The reduction of pieces: the steps of the reduction one after the other. Reducing a text of pieces fails, or it gives a
text of the reduced pieces.
-/

set_option autoImplicit false

namespace ProceduralScene.Expression

open Pieces

/-! ### Rewriting a whole text -/

/-- A text of orderly pieces without `$name` tokens. -/
structure TextOf (slots : Bindings) (pieces : Pieces) (text : List Char) : Prop where
  numbered : Numbered slots
  writes : pieces.Writes slots text
  orderly : pieces.orderly false .plain .none .outside = true

/-- The action fails, or it gives a text of the pieces. -/
def Rewritten (action : Reduction (List Char)) (work : Workspace) : Option Pieces → Prop
  | none => ∃ failure after, action.run.run work = (.error failure, after)
  | some pieces => ∃ text after, Grows work.slots after.slots ∧ TextOf after.slots pieces text ∧
      action.run.run work = (.ok text, after)

theorem rewritten_bind {action : Reduction (List Char)} {next : List Char → Reduction (List Char)} {work : Workspace}
    {first : Option Pieces} {second : Pieces → Option Pieces} (rewritten : Rewritten action work first)
    (further : ∀ pieces text after, TextOf after.slots pieces text → Rewritten (next text) after (second pieces)) :
    Rewritten (action >>= next) work (first.bind second) := by
  cases first with
  | none =>
    obtain ⟨failure, after, run⟩ := rewritten
    exact ⟨failure, after, run_bind_error run _⟩
  | some pieces =>
    obtain ⟨text, after, grows, spells, run⟩ := rewritten
    have rest := further pieces text after spells
    rw [Option.bind_some]
    cases same : second pieces with
    | none =>
      rw [same] at rest
      obtain ⟨failure, ended, run'⟩ := rest
      exact ⟨failure, ended, (run_bind_ok run _).trans run'⟩
    | some others =>
      rw [same] at rest
      obtain ⟨text', ended, grows', spells', run'⟩ := rest
      exact ⟨text', ended, grows_trans grows grows', spells', (run_bind_ok run _).trans run'⟩

theorem rewritten_pure {pieces : Pieces} {text : List Char} {work : Workspace} (spells : TextOf work.slots pieces text) :
    Rewritten (pure text) work (some pieces) :=
  ⟨text, work, grows_refl _, spells, rfl⟩

theorem rewritten_scan {named : Bool} {scan : TextScan} {step : Edge → Pieces → Option Pieces} {pieces : Pieces}
    (rewrites : Rewrites named scan step pieces) (fits : pieces.orderly named .plain .none .outside = true)
    (ended : ∀ last, scan none last [] = pure []) {work : Workspace} (numbered : Numbered work.slots)
    {text : List Char} (writes : pieces.Writes work.slots text) :
    Rewritten (scan none none text) work (step .plain pieces) := by
  have becomes := rewrites.becomes (.inr rfl) fits work none text [] numbered writes (.inr rfl) apart_nil
  rw [List.append_nil] at becomes
  cases same : step .plain pieces with
  | none =>
    rw [same] at becomes
    exact becomes
  | some result =>
    rw [same] at becomes
    obtain ⟨text', after, last, grows, numbered', writes', run⟩ := becomes
    refine ⟨text', after, grows, ⟨numbered', writes', (rewrites.keeps (.inr rfl) fits result same).1⟩, run.trans ?_⟩
    dsimp only
    rw [ended, run_pushText]
    show (Except.ok (text' ++ []), after) = _
    rw [List.append_nil]

/-! ### The assignment sign -/

namespace Pieces

/-- Without surrounding blanks and without a single leading `=`. -/
def dropSign (pieces : Pieces) : Pieces :=
  match pieces.trim with
  | .mark '=' (.mark '=' rest) => .mark '=' (.mark '=' rest)
  | .mark '=' rest => rest
  | trimmed => trimmed

variable {slots : Bindings} {named : Bool} {pieces : Pieces} {text : List Char} {found : Argument}

theorem orderly_dropSign (fits : pieces.orderly named .plain .none found = true) :
    pieces.dropSign.orderly named .plain .none .outside = true := by
  have trimmed := orderly_trim fits
  have outside : ∀ {inner : Pieces} {found : Argument}, inner.orderly named .plain .none found = true →
      inner.orderly named .plain .none .outside = true :=
    fun fits => orderly_weaken (fun named => named) (.inr rfl) (Callee.weaker_refl _) (.inl rfl) fits
  unfold dropSign
  split
  · rename_i same
    rw [same] at trimmed
    exact outside trimmed
  · rename_i rest _ same
    rw [same] at trimmed
    exact outside (orderly_mark.mp trimmed).2.2.2
  · exact outside trimmed

/-- A text of pieces starts with an `=` where the pieces do. -/
theorem writes_sign (writes : Writes slots pieces text) {edge : Edge} {callee : Callee}
    (fits : pieces.orderly named edge callee found = true) :
    (∃ rest text', pieces = .mark '=' rest ∧ text = '=' :: text' ∧ Writes slots rest text' ∧
      ∃ edge callee found, rest.orderly named edge callee found = true) ∨
    ((∀ rest, pieces ≠ .mark '=' rest) ∧ ∀ text', text ≠ '=' :: text') := by
  have word : ∀ {cs after : List Char} {text' : List Char}, cs ≠ [] → (∀ c ∈ cs, Text.isWord c = true) →
      cs ++ after ≠ '=' :: text' := by
    intro cs after text' nonempty wordy same
    obtain ⟨c, cs, rfl⟩ := List.exists_cons_of_ne_nil nonempty
    cases same
    exact absurd (wordy '=' List.mem_cons_self) (by decide)
  cases writes with
  | nil => exact .inr (by simp)
  | @mark c rest text' writes =>
    by_cases sign : c = '='
    · subst sign
      exact .inl ⟨rest, text', rfl, rfl, writes, _, _, _, (orderly_mark.mp fits).2.2.2⟩
    · exact .inr ⟨fun rest same => by cases same; exact sign rfl, fun text' same => by cases same; exact sign rfl⟩
  | run nonempty _ => exact .inr ⟨by simp, fun _ => word nonempty (orderly_run.mp fits).2.2.1⟩
  | value i _ _ => exact .inr ⟨by simp, fun _ => word (by simp [slotName_toList, slotMark]) (slotName_wordy i)⟩
  | literal _ =>
    refine .inr ⟨by simp, fun _ same => ?_⟩
    cases same
    exact absurd (orderly_literal.mp fits).1 (by decide)
  | @brackets round _ _ _ _ _ _ =>
    refine .inr ⟨by simp, fun _ same => ?_⟩
    cases round <;> cases same

theorem writes_dropSign (writes : Writes slots pieces text) (fits : pieces.orderly named .plain .none found = true) :
    Writes slots pieces.dropSign (dropAssignment text) := by
  have trimmed := writes_trim writes fits
  have orderly := orderly_trim fits
  unfold dropSign dropAssignment
  generalize Text.trim text = shown at trimmed
  generalize pieces.trim = inner at trimmed orderly
  rcases writes_sign trimmed orderly with ⟨rest, shown', rfl, rfl, writes', edge, callee, found', fits'⟩ | ⟨none, none'⟩
  · rcases writes_sign writes' fits' with ⟨rest, shown', rfl, rfl, -⟩ | ⟨none, none'⟩
    · exact trimmed
    · split
      · rename_i same
        cases same
        exact absurd rfl (none _)
      · split
        · rename_i same
          cases same
          exact absurd rfl (none' _)
        · rename_i same _ _ _ same'
          cases same
          cases same'
          exact writes'
        · rename_i other
          exact absurd rfl (other _)
      · rename_i other
        exact absurd rfl (other _)
  · split
    · exact absurd rfl (none _)
    · exact absurd rfl (none _)
    · split
      · exact absurd rfl (none' _)
      · exact absurd rfl (none' _)
      · exact trimmed

end Pieces

/-! ### The passes that convert conditionals -/

theorem convertPass_unchanged (bound : Nat) : ∀ {quote previous : Option Char} {text : List Char},
    (convertPass bound quote previous text).1 = false → (convertPass bound quote previous text).2 = text := by
  induction bound with
  | zero => exact fun _ => rfl
  | succ bound ih =>
    intro quote previous text unchanged
    rw [convertPass] at unchanged ⊢
    cases found : findCall? conditionalName previous text with
    | none => rfl
    | some site =>
      obtain ⟨split, -⟩ := findCall_split text found
      rw [found] at unchanged
      dsimp only at unchanged ⊢
      split at unchanged
      · rename_i blocked
        rw [if_pos blocked]
        dsimp only at unchanged ⊢
        rw [ih unchanged, List.append_assoc, ← split]
      · rename_i free
        rw [if_neg free]
        cases cut : cutAtClosing site.rest with
        | none => rfl
        | some parts =>
          rw [cut] at unchanged
          dsimp only at unchanged ⊢
          split at unchanged
          · cases unchanged
          · dsimp only at unchanged ⊢
            rw [ih unchanged, List.append_assoc, ← split]

theorem convertConditionals_unchanged {text : List Char} (unchanged : (scanConditionals none none text).1 = false) :
    ∀ passes, convertConditionals passes text = text := by
  intro passes
  cases passes with
  | zero => rfl
  | succ passes =>
    have same := convertPass_unchanged _ unchanged
    unfold scanConditionals at unchanged
    rw [convertConditionals]
    dsimp only
    rw [unchanged]
    exact same

namespace Pieces

def passed (pieces : Pieces) : Option Pieces := replaceCalls conditionalName conditionalResult .plain pieces

def converted : Nat → Pieces → Option Pieces
  | 0, pieces => some pieces
  | passes + 1, pieces => pieces.passed.bind (converted passes)

end Pieces

theorem scanConditionals_nil (last : Option Char) : passConditionals none last [] = pure [] := rfl

theorem rewritten_converted (passes : Nat) : ∀ {pieces : Pieces} {text : List Char} {work : Workspace},
    TextOf work.slots pieces text → Rewritten (pure (convertConditionals passes text)) work (converted passes pieces) := by
  induction passes with
  | zero => exact rewritten_pure
  | succ passes ih =>
    intro pieces text work spells
    have once := rewritten_scan (rewrites_calls replaces_conditionals pieces) spells.orderly scanConditionals_nil spells.numbered
      spells.writes
    -- after a pass that changes nothing the others change nothing either
    have stop : convertConditionals (passes + 1) text = convertConditionals passes (scanConditionals none none text).2 := by
      rw [convertConditionals]
      show (if (scanConditionals none none text).1 = true then _ else (scanConditionals none none text).2) = _
      split
      · rfl
      · rename_i unchanged
        rw [Bool.not_eq_true] at unchanged
        have same : (scanConditionals none none text).2 = text := convertPass_unchanged _ unchanged
        rw [same, convertConditionals_unchanged unchanged]
    have whole := rewritten_bind once fun after text' ended spells' => ih spells'
    rw [stop]
    exact whole

/-! ### Functions, constants and bare variables -/

/-- A name that is a word of its own and none of a slot. -/
structure GivenName (name : String) : Prop where
  isName : IsName name.toList
  free : holdsSlot name.toList = false

namespace Pieces

def inlinedFunctions (value : Pieces → Option Value) : List (String × Function) → Pieces → Option Pieces
  | [], pieces => some pieces
  | (name, function) :: others, pieces =>
    (replaceCalls name.toList (callResult value function) .plain pieces).bind (inlinedFunctions value others)

def inlinedConstants (nodeText : NodeText) : Bindings → Pieces → Option Pieces
  | [], pieces => some pieces
  | (name, constant) :: others, pieces =>
    (constant.display nodeText).toOption.bind fun text =>
      (replaceWord name.toList (.textPieces text.toList) .plain pieces).bind (inlinedConstants nodeText others)

end Pieces

/-- Functions with names other than that of the conditional, whose results depend on their arguments alone. -/
def NamedFunctions (functions : List (String × Function)) : Prop :=
  ∀ entry ∈ functions, GivenName entry.1 ∧ entry.1.toList ≠ conditionalName ∧ entry.2.IsPure

theorem rewritten_functions {setting : Setting} {value : Pieces → Option Value} {evaluate : List Char → Reduction Value}
    (evaluates : Evaluates evaluate value) {functions : List (String × Function)} (plain : NamedFunctions functions) :
    ∀ {pieces : Pieces} {text : List Char} {work : Workspace}, TextOf work.slots pieces text →
      Rewritten (inlineFunctions setting evaluate functions text) work (inlinedFunctions value functions pieces) := by
  induction functions with
  | nil => exact rewritten_pure
  | cons entry others ih =>
    intro pieces text work spells
    obtain ⟨name, function⟩ := entry
    obtain ⟨given, other, isPure⟩ := plain _ List.mem_cons_self
    have rewrites := rewrites_calls (replaces_functions evaluates setting given.isName given.free other isPure) pieces
    exact rewritten_bind (rewritten_scan rewrites spells.orderly (fun _ => rfl) spells.numbered spells.writes)
      fun after text' ended spells' => ih (fun other member => plain other (List.mem_cons_of_mem _ member)) spells'

/-- The value is shown as a bare word. -/
def IsNumeric : Value → Prop
  | .bool _ | .int _ | .float _ => True
  | _ => False

theorem bare_display {constant : Value} (numeric : IsNumeric constant) {nodeText : NodeText} {text : String}
    (shown : constant.display nodeText = .ok text) : text.toList ≠ [] ∧ ∀ c ∈ text.toList, Json.isBare c = true := by
  cases constant with
  | bool b =>
    rw [Value.display] at shown
    cases shown
    cases b <;> exact ⟨by decide, List.all_eq_true.mp (by decide)⟩
  | int n =>
    rw [Value.display] at shown
    exact bare_showInt shown
  | float x =>
    rw [Value.display] at shown
    cases shown
    exact bare_shortestText x
  | _ => cases numeric

def NamedConstants (constants : Bindings) : Prop := ∀ entry ∈ constants, GivenName entry.1 ∧ IsNumeric entry.2

theorem rewritten_word {word literal : List Char} {add : Pieces → Pieces} (replaces : ReplacesWord word literal add)
    {pieces : Pieces} {text : List Char} {work : Workspace} (shows : TextOf work.slots pieces text) :
    Rewritten (pure (replaceOperand word literal none none 0 text)) work (replaceWord word add .plain pieces) := by
  refine rewritten_scan (rewrites_words replaces pieces) shows.orderly (fun last => ?_) shows.numbered shows.writes
  rw [scanWord, replaceOperand, matchOperand_nil replaces.isName]
  rfl

theorem rewritten_constants (nodeText : NodeText) {constants : Bindings} (plain : NamedConstants constants) :
    ∀ {pieces : Pieces} {text : List Char} {work : Workspace}, TextOf work.slots pieces text →
      Rewritten (liftResult (inlineConstants nodeText constants text)) work (inlinedConstants nodeText constants pieces) := by
  induction constants with
  | nil => exact rewritten_pure
  | cons entry others ih =>
    intro pieces text work shows
    obtain ⟨name, constant⟩ := entry
    obtain ⟨given, numeric⟩ := plain _ List.mem_cons_self
    rw [inlineConstants, inlinedConstants]
    cases shown : constant.display nodeText with
    | error failure => exact ⟨failure, work, rfl⟩
    | ok literal =>
      obtain ⟨nonempty, bare⟩ := bare_display numeric shown
      have replaces : ReplacesWord name.toList literal.toList (.textPieces literal.toList) :=
        ⟨given.isName, given.free, operand_text nonempty bare, fun writes => writes_textPieces writes _⟩
      exact rewritten_bind (rewritten_word replaces shows)
        fun after text' ended shows' => ih (fun other member => plain other (List.mem_cons_of_mem _ member)) shows'

/-! ### Mentioned words -/

namespace Pieces

/-- Whether the word stands in the pieces as a whole, be it in a literal. -/
def mentions (name : List Char) : Pieces → Bool
  | .nil => false
  | .mark _ rest | .value _ rest => mentions name rest
  | .run cs rest => cs == name || mentions name rest
  | .literal quote content rest => hasWord name (some quote) (content ++ [quote]) || mentions name rest
  | .brackets _ inside rest => mentions name inside || mentions name rest

end Pieces

section

variable {word : List Char} (name : IsName word)

include name

theorem hasWord_mark {c : Char} (mark : Text.isWord c = false) (previous : Option Char) (text : List Char) :
    hasWord word previous (c :: text) = hasWord word (some c) text := by
  rw [hasWord, matchWord_mark name mark]
  rfl

omit name in
theorem hasWord_inside {cs : List Char} (wordy : ∀ c ∈ cs, Text.isWord c = true) (after : List Char) :
    ∀ {previous : Option Char}, previous.any Text.isWord = true →
      hasWord word previous (cs ++ after) = hasWord word (cs.getLast?.or previous) after := by
  induction cs with
  | nil => exact fun _ => rfl
  | cons c cs ih =>
    intro previous inside
    have this := wordy c List.mem_cons_self
    have noBoundary : isBoundary previous (some c) = false := by simp [isBoundary, inside, this]
    have none : matchWord? word previous (c :: (cs ++ after)) = none := by
      unfold matchWord?
      split
      · simp [noBoundary]
      · rfl
    rw [List.cons_append, hasWord, none,
      ih (fun d member => wordy d (List.mem_cons_of_mem c member)) (show (some c).any Text.isWord = true from this),
      List.getLast?_cons]
    cases cs.getLast? <;> rfl

theorem hasWord_run {cs : List Char} (nonempty : cs ≠ []) (wordy : ∀ c ∈ cs, Text.isWord c = true) {previous : Option Char}
    (start : previous.any Text.isWord = false) {after : List Char} (ends : ∀ c ∈ after.head?, Text.isWord c = false) :
    hasWord word previous (cs ++ after) = (cs == word || hasWord word cs.getLast? after) := by
  have first : (matchWord? word previous (cs ++ after)).isSome = (cs == word) := by
    by_cases same : cs = word
    · subst same
      rw [matchWord_word name start ends]
      simp
    · cases matched : matchWord? word previous (cs ++ after) with
      | none => simp [same]
      | some rest => exact absurd (matchWord_whole name wordy ends matched).1 same
  obtain ⟨c, cs, rfl⟩ := List.exists_cons_of_ne_nil nonempty
  have inside := @hasWord_inside word cs (fun d member => wordy d (List.mem_cons_of_mem c member)) after (some c)
    (wordy c List.mem_cons_self)
  rw [List.cons_append] at first ⊢
  rw [hasWord, first, inside, List.getLast?_cons]
  cases cs.getLast? <;> rfl

/-- A character that is in no word ends the search in what stands before it. -/
theorem hasWord_upto {mark : Char} (noWord : Text.isWord mark = false) (text : List Char) : ∀ (cs : List Char) (previous : Option Char),
    hasWord word previous (cs ++ mark :: text) =
      (hasWord word previous (cs ++ [mark]) || hasWord word (some mark) text) := by
  have free : mark ∉ word := fun member => by
    have wordy := name.whole mark member
    rw [noWord] at wordy
    cases wordy
  have ended : hasWord word (some mark) [] = false := by
    obtain ⟨c, more, rfl, -⟩ := isName_cons name
    simp [hasWord, matchWord?, dropWord?]
  have local' : ∀ (cs : List Char) (previous : Option Char),
      (matchWord? word previous (cs ++ mark :: text)).isSome = (matchWord? word previous (cs ++ [mark])).isSome := by
    intro cs previous
    have dropped : ∀ {rest : List Char} (behind : List Char), cs = word ++ rest →
        dropWord? word (cs ++ mark :: behind) = some (rest ++ mark :: behind) := by
      rintro rest behind rfl
      rw [List.append_assoc]
      exact dropWord_some.mpr rfl
    have heads : ∀ (rest behind behind' : List Char), (rest ++ mark :: behind).head? = (rest ++ mark :: behind').head? := by
      intro rest behind behind'
      cases rest <;> rfl
    by_cases starts : ∃ rest, cs = word ++ rest
    · obtain ⟨rest, same⟩ := starts
      rw [matchWord?, matchWord?, dropped text same, dropped [] same]
      dsimp only
      rw [heads rest text [], heads cs text []]
      split <;> rfl
    · have none : ∀ behind, dropWord? word (cs ++ mark :: behind) = none := by
        intro behind
        cases found : dropWord? word (cs ++ mark :: behind) with
        | none => rfl
        | some rest =>
          obtain ⟨further, inner, -⟩ := split_content free (dropWord_some.mp found)
          exact absurd ⟨further, inner⟩ starts
      rw [matchWord?, matchWord?, none text, none []]
  intro cs
  induction cs with
  | nil =>
    intro previous
    rw [List.nil_append, List.nil_append, hasWord_mark name noWord, hasWord_mark name noWord, ended, Bool.false_or]
  | cons c cs ih =>
    intro previous
    have first := local' (c :: cs) previous
    rw [List.cons_append, List.cons_append] at first ⊢
    rw [hasWord, hasWord, first, ih, Bool.or_assoc]

/-- A word is found in a text where the pieces mention it. -/
theorem hasWord_writes (given : holdsSlot word = false) {slots : Bindings} {pieces : Pieces} {text : List Char}
    (writes : pieces.Writes slots text) : ∀ {named : Bool} {edge : Edge} {callee : Callee} {found : Argument},
    pieces.orderly named edge callee found = true → ∀ (previous : Option Char) {tail : List Char},
    edge = .word ∨ Edge.behind previous = edge → Apart tail →
    ∃ last, hasWord word previous (text ++ tail) = (pieces.mentions word || hasWord word last tail) := by
  have start : ∀ {previous : Option Char} {edge : Edge}, edge ≠ .word → edge = .word ∨ Edge.behind previous = edge →
      previous.any Text.isWord = false := by
    intro previous edge noWord here
    refine Bool.eq_false_iff.mpr fun word => noWord ?_
    exact here.elim id fun behind => behind.symm.trans ((any_isWord_iff previous).mp word)
  induction writes with
  | nil => exact fun _ previous _ _ _ => ⟨previous, rfl⟩
  | @mark c rest text _ ih =>
    intro named edge callee found fits previous tail _ apart
    obtain ⟨mark, -, -, fits⟩ := orderly_mark.mp fits
    obtain ⟨last, same⟩ := ih fits (some c) (.inr rfl) apart
    exact ⟨last, by rw [List.cons_append, hasWord_mark name (isMark_spec mark).1, same]; rfl⟩
  | @run cs rest text nonempty writes ih =>
    intro named edge callee found fits previous tail here apart
    obtain ⟨noWord, -, wordy, -, fits⟩ := orderly_run.mp fits
    obtain ⟨last, same⟩ := ih fits cs.getLast? (.inl rfl) apart
    refine ⟨last, ?_⟩
    rw [List.append_assoc, hasWord_run name nonempty wordy (start noWord here) (writes_apart writes fits apart), same, mentions,
      Bool.or_assoc]
  | @value v rest text i kept writes ih =>
    intro named edge callee found fits previous tail here apart
    obtain ⟨noWord, -, fits⟩ := orderly_value.mp fits
    obtain ⟨last, same⟩ := ih fits (slotName i).toList.getLast? (.inl rfl) apart
    have other : ((slotName i).toList == word) = false := by
      refine beq_eq_false_iff_ne.mpr fun same => ?_
      rw [← same, holdsSlot_slotName] at given
      cases given
    refine ⟨last, ?_⟩
    rw [List.append_assoc, hasWord_run name (by simp [slotName_toList, slotMark]) (slotName_wordy i) (start noWord here)
      (writes_apart writes fits apart), other, same]
    rfl
  | @literal quote content rest text _ ih =>
    intro named edge callee found fits previous tail here apart
    obtain ⟨quoting, -, fits⟩ := orderly_literal.mp fits
    obtain ⟨last, same⟩ := ih fits (some quote) (.inr (behind_quote quoting)) apart
    refine ⟨last, ?_⟩
    rw [List.cons_append, List.append_assoc, List.cons_append, hasWord_mark name (isWord_of_isQuote quoting),
      hasWord_upto name (isWord_of_isQuote quoting), same, mentions, Bool.or_assoc]
  | @brackets round inside rest text after _ _ inner ih =>
    intro named edge callee found fits previous tail here apart
    obtain ⟨within, fits⟩ := orderly_brackets.mp fits
    obtain ⟨middle, first⟩ := @inner _ _ _ _ within (some (opening round)) (closing round :: (after ++ tail))
      (.inr (behind_bracket round).1) (apart_closing round _)
    obtain ⟨last, second⟩ := ih fits (some (closing round)) (behind_closing callee round) apart
    have noWord : Text.isWord (opening round) = false ∧ Text.isWord (closing round) = false := by cases round <;> decide
    refine ⟨last, ?_⟩
    rw [List.cons_append, List.append_assoc, List.cons_append, hasWord_mark name noWord.1, first, hasWord_mark name noWord.2,
      second, mentions, Bool.or_assoc]

end

/-! ### Bare variables -/

/-- What stands for a bare variable; nothing for a value that is no number. -/
def bareResult : Value → Option (Option (Pieces → Pieces))
  | .int n => some ((showInt n).toOption.map fun text => signedPieces (n < 0) text.toList)
  | .float x => some (some (signedPieces (!(0.0 ≤ x)) (Number.shortestText x).toList))
  | _ => none

namespace Pieces

def inlinedVariables : Bindings → Pieces → Option Pieces
  | [], pieces => some pieces
  | (name, bound) :: others, pieces =>
    match bareResult bound with
    | none => inlinedVariables others pieces
    | some stands =>
      if pieces.mentions name.toList then
        (stands.bind fun add => replaceWord name.toList add .plain pieces).bind (inlinedVariables others)
      else inlinedVariables others pieces

end Pieces

/-- The numeric variables have names. -/
def NamedVariables (symbols : Bindings) : Prop := ∀ entry ∈ symbols, (bareResult entry.2).isSome = true → GivenName entry.1

theorem rewritten_variables {symbols : Bindings} (plain : NamedVariables symbols) :
    ∀ {pieces : Pieces} {text : List Char} {work : Workspace}, TextOf work.slots pieces text →
      Rewritten (liftResult (inlineBareVariables symbols text)) work (inlinedVariables symbols pieces) := by
  induction symbols with
  | nil => exact rewritten_pure
  | cons entry others ih =>
    intro pieces text work shows
    obtain ⟨name, bound⟩ := entry
    have further := @ih fun other member => plain other (List.mem_cons_of_mem _ member)
    have named := plain (name, bound) List.mem_cons_self
    have mentioned : GivenName name → hasWord name.toList none text = pieces.mentions name.toList := by
      intro given
      obtain ⟨last, same⟩ := hasWord_writes given.isName given.free shows.writes shows.orderly none (.inr rfl) apart_nil
      obtain ⟨c, more, split, -⟩ := isName_cons given.isName
      rw [List.append_nil] at same
      rw [same, split]
      simp [hasWord, matchWord?, dropWord?]
    have replaced : ∀ {literal : List Char} {add : Pieces → Pieces}, GivenName name → Operand add →
        (∀ {slots : Bindings} {rest : Pieces} {text : List Char}, rest.Writes slots text →
          (add rest).Writes slots (literal ++ text)) →
        Rewritten (liftResult (inlineBareVariables others (replaceOperand name.toList literal none none 0 text))) work
          ((replaceWord name.toList add .plain pieces).bind (inlinedVariables others)) := by
      intro literal add given operand writes
      exact rewritten_bind (rewritten_word ⟨given.isName, given.free, operand, writes⟩ shows)
        fun after text' ended shows' => further shows'
    rw [inlineBareVariables, inlinedVariables]
    cases bound with
    | int n =>
      have given := named rfl
      simp only [bareLiteral?, bareResult, mentioned given]
      split
      · cases shown : showInt n with
        | error failure => exact ⟨failure, work, rfl⟩
        | ok literal =>
          obtain ⟨nonempty, bare⟩ := bare_showInt shown
          exact replaced given (operand_signed _ nonempty bare) fun writes => writes_signed writes _ _
      · exact further shows
    | float x =>
      have given := named rfl
      simp only [bareLiteral?, bareResult, mentioned given]
      obtain ⟨nonempty, bare⟩ := bare_shortestText x
      split
      · exact replaced given (operand_signed _ nonempty bare) fun writes => writes_signed writes _ _
      · exact further shows
    | _ => exact further shows

end ProceduralScene.Expression
