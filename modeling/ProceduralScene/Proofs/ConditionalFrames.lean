import ProceduralScene.Proofs.PieceValue

/-!
Ternaries of pieces. Each step of the reduction goes through the three parts of a ternary, and the ternary that is left
has the value of the part that the condition chooses.
-/

set_option autoImplicit false

namespace ProceduralScene.Expression

open Pieces

namespace Pieces

def gap (spaced : Bool) (rest : Pieces) : Pieces := if spaced then .mark ' ' rest else rest

/-- A ternary of three parts between parentheses, with or without blanks around its signs. -/
def branches (spaced : Bool) (condition whenTrue whenFalse : Pieces) : Pieces :=
  .brackets true condition (gap spaced (.mark '?' (gap spaced (.brackets true whenTrue (gap spaced (.mark ':'
    (gap spaced (.brackets true whenFalse .nil))))))))

end Pieces

/-- What a step makes of three parts stands in the frame as it does on its own. -/
def Carries (frame : Pieces → Pieces → Pieces → Pieces) (step : Pieces → Option Pieces) : Prop :=
  ∀ {first second third first' second' third' : Pieces}, step first = some first' → step second = some second' →
    step third = some third' → step (frame first second third) = some (frame first' second' third')

/-- A frame that every step carries its parts through. -/
structure Frame (frame : Pieces → Pieces → Pieces → Pieces) : Prop where
  carries : ∀ {own : Char → Bool} {step : Edge → Pieces → Option Pieces}, Descends own step → Carries frame (step .plain)
  mentions : ∀ name first second third, (frame first second third).mentions name =
    (first.mentions name || second.mentions name || third.mentions name)

theorem frame_branches (spaced : Bool) : Frame (branches spaced) where
  carries {own step} descends {first second third first' second' third'} stepped stepped' stepped'' := by
    have foreign : ∀ c, c ≠ '$' → own c = false := fun c other => Bool.eq_false_iff.mpr fun mine => other (descends.signs c mine)
    have mark : ∀ c, c = ' ' ∨ c = '?' ∨ c = ':' → ∀ rest, step .plain (.mark c rest) = (step .plain rest).map (.mark c) := by
      intro c sign rest
      have plain : c ≠ '$' ∧ Edge.behind (some c) = .plain := by rcases sign with rfl | rfl | rfl <;> decide
      rw [descends.mark .plain c rest (foreign c plain.1), plain.2]
    have through : ∀ rest, step .plain (gap spaced rest) = (step .plain rest).map (gap spaced) := by
      intro rest
      cases spaced with
      | false => exact Option.map_id'.symm
      | true => exact mark ' ' (.inl rfl) rest
    simp only [branches, descends.brackets, through, mark '?' (by simp), mark ':' (by simp), descends.ended, stepped, stepped',
      stepped'', Option.map_some, Option.bind_some]
  mentions name first second third := by
    cases spaced <;> simp [branches, gap, Pieces.mentions, Bool.or_assoc]

theorem frame_ternary : Frame fun first second third => ternaryPieces first second third .nil where
  carries {own step} descends {first second third first' second' third'} stepped stepped' stepped'' := by
    have inner := (frame_branches false).carries descends stepped stepped' stepped''
    show step .plain (.brackets true (branches false first second third) .nil) = _
    rw [descends.brackets, inner, descends.ended]
    rfl
  mentions name first second third := by
    show ((branches false first second third).mentions name || false) = _
    rw [Bool.or_false, (frame_branches false).mentions]

theorem carries_bind {frame : Pieces → Pieces → Pieces → Pieces} {step next : Pieces → Option Pieces}
    (carries : Carries frame step) (further : Carries frame next) : Carries frame fun pieces => (step pieces).bind next := by
  intro first second third first' second' third' stepped stepped' stepped''
  obtain ⟨inner, same, rest⟩ := Option.bind_eq_some_iff.mp stepped
  obtain ⟨inner', same', rest'⟩ := Option.bind_eq_some_iff.mp stepped'
  obtain ⟨inner'', same'', rest''⟩ := Option.bind_eq_some_iff.mp stepped''
  exact Option.bind_eq_some_iff.mpr ⟨_, carries same same' same'', further rest rest' rest''⟩

theorem replaceWord_unmentioned {name : List Char} {add : Pieces → Pieces} {pieces : Pieces}
    (none : pieces.mentions name = false) : ∀ edge, replaceWord name add edge pieces = some pieces := by
  induction pieces with
  | nil => exact fun _ => rfl
  | mark c rest ih =>
    intro edge
    rw [replaceWord, ih none]
    rfl
  | run cs rest ih =>
    intro edge
    rw [mentions, Bool.or_eq_false_iff, beq_eq_false_iff_ne] at none
    rw [replaceWord, ih none.2, if_neg fun hit => none.1 hit.1]
    rfl
  | value v rest ih =>
    intro edge
    rw [replaceWord, ih none]
    rfl
  | literal quote content rest ih =>
    intro edge
    rw [mentions, Bool.or_eq_false_iff] at none
    rw [replaceWord, ih none.2]
    rfl
  | brackets round inside rest inner ih =>
    intro edge
    rw [mentions, Bool.or_eq_false_iff] at none
    rw [replaceWord, inner none.1, ih none.2]
    rfl

section

variable {frame : Pieces → Pieces → Pieces → Pieces} (framed : Frame frame)

include framed

theorem carries_converted (passes : Nat) : Carries frame (converted passes) := by
  induction passes with
  | zero =>
    intro first second third first' second' third' same same' same''
    cases same
    cases same'
    cases same''
    rfl
  | succ passes ih => exact carries_bind (framed.carries (descends_calls _ _)) ih

theorem carries_functions (evaluate : Pieces → Option Value) (functions : List (String × Function)) :
    Carries frame (inlinedFunctions evaluate functions) := by
  induction functions with
  | nil =>
    intro first second third first' second' third' same same' same''
    cases same
    cases same'
    cases same''
    rfl
  | cons entry others ih => exact carries_bind (framed.carries (descends_calls _ _)) ih

theorem carries_constants (nodeText : NodeText) (constants : Bindings) : Carries frame (inlinedConstants nodeText constants) := by
  induction constants with
  | nil =>
    intro first second third first' second' third' same same' same''
    cases same
    cases same'
    cases same''
    rfl
  | cons entry others ih =>
    intro first second third first' second' third' stepped stepped' stepped''
    rw [inlinedConstants] at stepped stepped' stepped'' ⊢
    cases shown : (entry.2.display nodeText).toOption with
    | none =>
      rw [shown, Option.bind_none] at stepped
      cases stepped
    | some text =>
      rw [shown, Option.bind_some] at stepped stepped' stepped''
      exact carries_bind (framed.carries (descends_words _ (.textPieces text.toList))) ih stepped stepped' stepped''

/-- A variable is replaced in the parts that mention it, and the others stay. -/
theorem carries_variables (symbols : Bindings) : Carries frame (inlinedVariables symbols) := by
  induction symbols with
  | nil =>
    intro first second third first' second' third' same same' same''
    cases same
    cases same'
    cases same''
    rfl
  | cons entry others ih =>
    intro first second third first' second' third' stepped stepped' stepped''
    obtain ⟨name, bound⟩ := entry
    rw [inlinedVariables] at stepped stepped' stepped'' ⊢
    cases standing : bareResult bound with
    | none =>
      rw [standing] at stepped stepped' stepped''
      exact ih stepped stepped' stepped''
    | some stands =>
      rw [standing] at stepped stepped' stepped''
      dsimp only at stepped stepped' stepped'' ⊢
      cases stands with
      | none =>
        have unmentioned : ∀ {pieces result : Pieces}, (if pieces.mentions name.toList = true then
            ((none : Option (Pieces → Pieces)).bind fun add => replaceWord name.toList add .plain pieces).bind
              (inlinedVariables others) else inlinedVariables others pieces) = some result →
            pieces.mentions name.toList = false ∧ inlinedVariables others pieces = some result := by
          intro pieces result stepped
          split at stepped
          · cases stepped
          · rename_i other
            exact ⟨Bool.not_eq_true _ ▸ other, stepped⟩
        obtain ⟨free, stepped⟩ := unmentioned stepped
        obtain ⟨free', stepped'⟩ := unmentioned stepped'
        obtain ⟨free'', stepped''⟩ := unmentioned stepped''
        rw [framed.mentions, free, free', free'']
        exact ih stepped stepped' stepped''
      | some add =>
        have replaced : ∀ pieces : Pieces, (if pieces.mentions name.toList = true then
            ((some add).bind fun add => replaceWord name.toList add .plain pieces).bind (inlinedVariables others)
            else inlinedVariables others pieces) = (replaceWord name.toList add .plain pieces).bind (inlinedVariables others) := by
          intro pieces
          split
          · rfl
          · rename_i other
            rw [replaceWord_unmentioned (Bool.not_eq_true _ ▸ other)]
            rfl
        rw [replaced] at stepped stepped' stepped'' ⊢
        exact carries_bind (framed.carries (descends_words _ _)) ih stepped stepped' stepped''

theorem carries_inlined (setting : Setting) (evaluate : Pieces → Option Value) : Carries frame (inlined setting evaluate) :=
  carries_bind (carries_functions framed _ _) <|
    carries_bind (carries_constants framed _ _) (carries_variables framed _)

theorem carries_simplified (setting : Setting) (evaluate : Pieces → Option Value) :
    Carries frame (simplified setting evaluate) :=
  carries_bind (framed.carries (descends_variables setting.symbols)) <|
    carries_bind (carries_converted framed _) (carries_inlined framed setting evaluate)

end

/-! ### The value of a ternary -/

theorem lexes_gap (spaced : Bool) {text : List Char} {tokens : List Token} (lexes : Lexes text tokens) :
    Lexes ((if spaced then [' '] else []) ++ text) tokens := by
  cases spaced with
  | false => exact lexes
  | true => exact lexes_blanks (List.all_eq_true.mp (by decide)) lexes

theorem writes_gap {spaced : Bool} {slots : Bindings} {rest : Pieces} {text : List Char}
    (writes : (gap spaced rest).Writes slots text) :
    ∃ text', rest.Writes slots text' ∧ text = (if spaced then [' '] else []) ++ text' := by
  cases spaced with
  | false => exact ⟨text, writes, rfl⟩
  | true =>
    cases writes with
    | mark writes => exact ⟨_, writes, rfl⟩

theorem writes_parenthesized {slots : Bindings} {inside rest : Pieces} {text : List Char}
    (writes : (Pieces.brackets true inside rest).Writes slots text) :
    ∃ within after, inside.Writes slots within ∧ rest.Writes slots after ∧ text = parenthesized within ++ after := by
  cases writes with
  | @brackets _ _ _ within after inner outer =>
    exact ⟨within, after, inner, outer, by simp [parenthesized, opening, closing]⟩

/-- The texts of a ternary. -/
theorem writes_branches {spaced : Bool} {slots : Bindings} {condition whenTrue whenFalse : Pieces} {text : List Char}
    (writes : (branches spaced condition whenTrue whenFalse).Writes slots text) : ∃ first second third,
      condition.Writes slots first ∧ whenTrue.Writes slots second ∧ whenFalse.Writes slots third ∧
      text = parenthesized first ++ ((if spaced then [' '] else []) ++ '?' :: ((if spaced then [' '] else []) ++
        (parenthesized second ++ ((if spaced then [' '] else []) ++ ':' :: ((if spaced then [' '] else []) ++
          parenthesized third))))) := by
  obtain ⟨first, _, inner, behind, rfl⟩ := writes_parenthesized writes
  obtain ⟨_, question, rfl⟩ := writes_gap behind
  cases question with
  | mark spaced' =>
  obtain ⟨_, between, rfl⟩ := writes_gap spaced'
  obtain ⟨second, _, inner', behind', rfl⟩ := writes_parenthesized between
  obtain ⟨_, colon, rfl⟩ := writes_gap behind'
  cases colon with
  | mark spaced'' =>
  obtain ⟨_, last, rfl⟩ := writes_gap spaced''
  obtain ⟨third, _, inner'', none, rfl⟩ := writes_parenthesized last
  rw [writes_nil none, List.append_nil]
  exact ⟨first, second, third, inner, inner', inner'', rfl⟩

/-- A ternary of three operands is read as the one that the condition chooses. -/
theorem evaluateReduced_branches {env : Environment} {first second third : List Char} {test yes no : Value}
    (read : ReadsAtom env first test) (read' : ReadsAtom env second yes) (read'' : ReadsAtom env third no) (spaced : Bool)
    (allowed : ∀ c ∈ first ++ (second ++ third), isAllowed c = true) :
    evaluateReduced env (first ++ ((if spaced then [' '] else []) ++ '?' :: ((if spaced then [' '] else []) ++
        (second ++ ((if spaced then [' '] else []) ++ ':' :: ((if spaced then [' '] else []) ++ third)))))) =
      .ok (if test.truthy then yes else no) := by
  obtain ⟨tokens'', lexes'', atom'', unsigned''⟩ := read'' .nil
  rw [List.append_nil, List.append_nil] at lexes''
  rw [List.append_nil] at atom'' unsigned''
  have colon : Lexes ((if spaced then [' '] else []) ++ ':' :: ((if spaced then [' '] else []) ++ third)) (.symbol ":" :: tokens'') :=
    lexes_gap spaced (lexes_symbol rfl (by decide) (by decide) (lexes_gap spaced lexes''))
  obtain ⟨tokens', lexes', atom', unsigned'⟩ := read' colon
  have question := lexes_gap spaced
    (@lexes_symbol "?" _ rfl (by decide) (by decide) _ _ (lexes_gap spaced lexes'))
  obtain ⟨tokens, lexes, atom, unsigned⟩ := read question
  refine evaluateReduced_ok.mpr ⟨fun c member => ?_, _, lexes, ?_⟩
  · simp only [List.mem_append, List.mem_cons] at member
    have blank : c ∈ (if spaced then [' '] else []) → isAllowed c = true := by
      cases spaced with
      | false => exact nofun
      | true => simp only [if_true, List.mem_singleton]; rintro rfl; decide
    have inside : c ∈ first ∨ c ∈ second ∨ c ∈ third → isAllowed c = true := fun inside => allowed c (by simpa using inside)
    rcases member with part | space | rfl | space | part | space | rfl | space | part
    · exact inside (.inl part)
    · exact blank space
    · decide
    · exact blank space
    · exact inside (.inr (.inl part))
    · exact blank space
    · decide
    · exact blank space
    · exact inside (.inr (.inr part))
  · have condition : Read.level env .disjunction (tokens ++ .symbol "?" :: (tokens' ++ .symbol ":" :: tokens'')) =
        pure (test, .symbol "?" :: (tokens' ++ .symbol ":" :: tokens'')) :=
      read_atom unsigned atom (.level .disjunction) fun inner deeper _ =>
        atSymbol_symbol (question_no_operator (Nat.le_trans (by decide) deeper)) _
    have whenTrue : Read.ternary env (tokens' ++ .symbol ":" :: tokens'') = pure (yes, .symbol ":" :: tokens'') :=
      read_atom unsigned' atom' .ternary fun inner _ _ => atSymbol_symbol (closer_no_operator (by decide) inner) _
    have whenFalse : Read.ternary env tokens'' = pure (no, []) :=
      read_atom unsigned'' atom'' .ternary fun inner _ _ => rfl
    have at' : atSymbol? ["?"] (Token.symbol "?" :: (tokens' ++ .symbol ":" :: tokens'')) =
        some ("?", tokens' ++ .symbol ":" :: tokens'') := rfl
    rw [Read.ternary_eq, condition]
    simp only [pure_bind, at', whenTrue, expect_same, whenFalse]
    rfl

theorem orderly_gap {spaced named : Bool} {edge : Edge} {callee : Callee} {found : Argument} {rest : Pieces}
    (fits : (gap spaced rest).orderly named edge callee found = true) :
    ∃ edge callee found, rest.orderly named edge callee found = true := by
  cases spaced with
  | false => exact ⟨_, _, _, fits⟩
  | true => exact ⟨_, _, _, (orderly_mark.mp fits).2.2.2⟩

theorem orderly_branches {spaced named : Bool} {edge : Edge} {callee : Callee} {found : Argument}
    {condition whenTrue whenFalse : Pieces}
    (fits : (branches spaced condition whenTrue whenFalse).orderly named edge callee found = true) :
    (∃ found, condition.orderly named .plain .none found = true) ∧ (∃ found, whenTrue.orderly named .plain .none found = true) ∧
      ∃ found, whenFalse.orderly named .plain .none found = true := by
  obtain ⟨first, behind⟩ := orderly_brackets.mp fits
  obtain ⟨_, _, _, question⟩ := orderly_gap behind
  obtain ⟨_, _, _, between⟩ := orderly_gap (orderly_mark.mp question).2.2.2
  obtain ⟨second, behind'⟩ := orderly_brackets.mp between
  obtain ⟨_, _, _, colon⟩ := orderly_gap behind'
  obtain ⟨_, _, _, last⟩ := orderly_gap (orderly_mark.mp colon).2.2.2
  exact ⟨⟨_, first⟩, ⟨_, second⟩, ⟨_, (orderly_brackets.mp last).1⟩⟩

theorem trim_branches (spaced : Bool) (condition whenTrue whenFalse : Pieces) :
    (branches spaced condition whenTrue whenFalse).trim = branches spaced condition whenTrue whenFalse := by
  have solid : Text.isSpace '?' = false ∧ Text.isSpace ':' = false := by decide
  cases spaced <;> simp [branches, gap, trim, dropBlanks, trimEnd, isNil, solid]

theorem allowed_parenthesized {text : List Char} (allowed : ∀ c ∈ text, isAllowed c = true) :
    ∀ c ∈ parenthesized text, isAllowed c = true := by
  intro c member
  simp only [parenthesized, List.mem_cons, List.mem_append, List.not_mem_nil, or_false] at member
  rcases member with rfl | inside | rfl
  · decide
  · exact allowed c inside
  · decide

section

variable {setting : Setting}

/-- The value of pieces, from a text of them. -/
theorem read_of_spelled {pieces : Pieces} (fits : pieces.orderly false .plain .none .outside = true) {v : Value}
    (evaluated : ∀ {slots : Bindings} {text : List Char}, Numbered slots → pieces.Writes slots text →
      evaluateReduced (setting.environment slots) text = .ok v) : pieces.read setting = some v := by
  have start : Numbered [] := rfl
  obtain ⟨-, numbered, writes⟩ := writes_spelled fits start
  rw [Pieces.read, evaluated numbered writes]
  rfl

theorem read_branches {spaced : Bool} {condition whenTrue whenFalse : Pieces} {test yes no : Value}
    (fits : (branches spaced condition whenTrue whenFalse).orderly false .plain .none .outside = true)
    (read : condition.trim.read setting = some test) (read' : whenTrue.trim.read setting = some yes)
    (read'' : whenFalse.trim.read setting = some no) :
    (branches spaced condition whenTrue whenFalse).read setting = some (if test.truthy then yes else no) := by
  refine read_of_spelled fits fun {slots text} numbered whole => ?_
  obtain ⟨⟨_, inner⟩, ⟨_, inner'⟩, _, inner''⟩ := orderly_branches fits
  obtain ⟨first, second, third, writes, writes', writes'', rfl⟩ := writes_branches whole
  obtain ⟨allowed, atom⟩ := reads_parenthesized numbered writes inner read
  obtain ⟨allowed', atom'⟩ := reads_parenthesized numbered writes' inner' read'
  obtain ⟨allowed'', atom''⟩ := reads_parenthesized numbered writes'' inner'' read''
  refine evaluateReduced_branches atom atom' atom'' spaced ?_
  rw [List.forall_mem_append, List.forall_mem_append]
  exact ⟨allowed_parenthesized allowed, allowed_parenthesized allowed', allowed_parenthesized allowed''⟩

theorem read_brackets {pieces : Pieces} {v : Value} (fits : (Pieces.brackets true pieces .nil).orderly false .plain .none .outside = true)
    (read : pieces.trim.read setting = some v) : (Pieces.brackets true pieces .nil).read setting = some v := by
  refine read_of_spelled fits fun {slots text} numbered whole => ?_
  obtain ⟨inner, -⟩ := orderly_brackets.mp fits
  obtain ⟨within, after, writes, none, rfl⟩ := writes_parenthesized whole
  rw [writes_nil none, List.append_nil]
  obtain ⟨allowed, atom⟩ := reads_parenthesized numbered writes inner read
  obtain ⟨tokens, lexes, reads, unsigned⟩ := atom .nil
  rw [List.append_nil, List.append_nil] at lexes
  rw [List.append_nil] at reads unsigned
  exact evaluateReduced_ok.mpr ⟨allowed_parenthesized allowed, tokens, lexes,
    read_atom unsigned reads .ternary fun _ _ _ => rfl⟩

theorem read_ternaryPieces {condition whenTrue whenFalse : Pieces} {test yes no : Value}
    (fits : (ternaryPieces condition whenTrue whenFalse .nil).orderly false .plain .none .outside = true)
    (read : condition.trim.read setting = some test) (read' : whenTrue.trim.read setting = some yes)
    (read'' : whenFalse.trim.read setting = some no) :
    (ternaryPieces condition whenTrue whenFalse .nil).read setting = some (if test.truthy then yes else no) := by
  have inner : (branches false condition whenTrue whenFalse).orderly false .plain .none .outside = true :=
    (orderly_brackets.mp fits).1
  have value := read_branches inner read read' read''
  rw [← trim_branches] at value
  exact read_brackets fits value

end

end ProceduralScene.Expression
