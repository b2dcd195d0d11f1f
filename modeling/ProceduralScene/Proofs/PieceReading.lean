import ProceduralScene.Proofs.GrammarReaders
import ProceduralScene.Proofs.PieceTokens
import ProceduralScene.Proofs.PieceTrims
import ProceduralScene.Proofs.ReducedLanguage

/-!
The reading of reduced pieces. Texts of the same pieces have the same value, whatever the numbers of their slots, and
pieces between parentheses are read as they are on their own.
-/

set_option autoImplicit false

namespace ProceduralScene.Expression

open Pieces

/-! ### Slots by their numbers -/

theorem slot_of_get {slots : Bindings} (numbered : Numbered slots) {name : String} {v : Value} (kept : slots.get? name = some v) :
    ∃ i, name = slotName i := by
  have member : name ∈ slots.map Prod.fst := by
    refine Classical.by_contradiction fun other => ?_
    have unknown : slots.lookup name = none := by
      rw [List.lookup_eq_none_iff]
      intro entry member
      rw [bne_iff_ne]
      rintro rfl
      exact other (List.mem_map_of_mem member)
    rw [Bindings.get?, unknown] at kept
    cases kept
  rw [numbered] at member
  obtain ⟨i, -, same⟩ := List.mem_map.mp member
  exact ⟨i, same.symm⟩

theorem get_unslotted {slots : Bindings} (numbered : Numbered slots) {name : String}
    (other : slotMark.isPrefixOf name.toList = false) : slots.get? name = none := by
  cases kept : slots.get? name with
  | none => rfl
  | some v =>
    obtain ⟨i, rfl⟩ := slot_of_get numbered kept
    have starts := slotMark_begins i []
    rw [List.append_nil, other] at starts
    cases starts

/-- The names that a reduced text may use: the slots, and the symbols behind them. -/
def Setting.environment (setting : Setting) (slots : Bindings) : Environment :=
  ⟨fun name => (slots.get? name).or (setting.symbols.get? name), setting.nodeText⟩

/-! ### The value of a text -/

theorem evaluateReduced_ok {env : Environment} {text : List Char} {v : Value} : evaluateReduced env text = .ok v ↔
    (∀ c ∈ text, isAllowed c = true) ∧ ∃ tokens, Lexes text tokens ∧ Read.ternary env tokens = .ok (v, []) := by
  constructor
  · intro evaluated
    unfold evaluateReduced at evaluated
    split at evaluated
    · rename_i all
      have allowed := List.all_eq_true.mp all
      refine ⟨allowed, ?_⟩
      cases tokenized : tokenize text with
      | error failure => rw [tokenized] at evaluated; cases evaluated
      | ok tokens =>
        refine ⟨tokens, (tokenize_lexes allowed).mp tokenized, ?_⟩
        rw [tokenized] at evaluated
        replace evaluated : evaluateTokens env tokens = .ok v := evaluated
        unfold evaluateTokens at evaluated
        split at evaluated
        · cases evaluated
        · show readTernary env (readingFuel tokens.length) tokens = _
          cases read : readTernary env (readingFuel tokens.length) tokens with
          | error failure => rw [read] at evaluated; cases evaluated
          | ok found =>
            obtain ⟨value, rest⟩ := found
            rw [read] at evaluated
            cases rest with
            | nil => cases evaluated; rfl
            | cons token rest =>
              replace evaluated : (do throw (.expression (.trailingToken (← Token.shown (some token)))) : Except Failure Value) = .ok v :=
                evaluated
              cases shown : Token.shown (some token) <;> rw [shown] at evaluated <;> cases evaluated
    · cases evaluated
  · rintro ⟨allowed, tokens, lexes, read⟩
    have taken := (taking_readers env _).ternary tokens _ read
    rw [evaluateReduced_allowed env allowed, (tokenize_lexes allowed).mpr lexes]
    show evaluateTokens env tokens = .ok v
    have nonempty : ¬ tokens.isEmpty = true := by
      rw [List.isEmpty_iff]
      rintro rfl
      exact absurd taken (Nat.not_lt_zero _)
    rw [evaluateTokens, if_neg nonempty, show readTernary env _ tokens = _ from read]
    rfl

/-! ### Texts of the same pieces -/

section

variable {setting : Setting} {slots slots' : Bindings} (numbered : Numbered slots) (numbered' : Numbered slots')
  {pieces : Pieces} {text text' : List Char} (writes : pieces.Writes slots text) (writes' : pieces.Writes slots' text')
  {found : Argument} (fits : pieces.orderly false .plain .none found = true)

include writes writes' fits in
theorem allowed_alike (allowed : ∀ c ∈ text, isAllowed c = true) : ∀ c ∈ text', isAllowed c = true := by
  have twins := @twins_writes slots slots' [] pieces text writes text' writes' _ _ _ _ fits none [] [] (.inr rfl) apart_nil
    apart_nil fun _ => .ended
  rw [List.append_nil, List.append_nil] at twins
  exact twins_allowed twins allowed nofun

include numbered numbered' writes writes' fits

/-- Another text of the same pieces is read alike, in front of what closes it. -/
theorem reads_alike {v : Value} (evaluated : evaluateReduced (setting.environment slots) text = .ok v) {tail : List Char}
    (closed : ∀ c ∈ tail.head?, c = ')' ∨ Text.isSpace c = true) (apart : Apart tail) (joins : Joins text tail) :
    ∃ tokens, (∀ more, Lexes tail more → Lexes (text' ++ tail) (tokens ++ more)) ∧
      ∀ more, Closes more → Read.ternary (setting.environment slots') (tokens ++ more) = .ok (v, more) := by
  obtain ⟨allowed, tokens, lexes, read⟩ := evaluateReduced_ok.mp evaluated
  have twins := @twins_writes slots slots' tail pieces text writes text' writes' _ _ _ _ fits none [] tail (.inr rfl)
    apart_nil apart fun _ => .ended
  rw [List.append_nil] at twins
  have known : ∀ slots : Bindings, ∀ name v, slots.get? name = some v → (setting.environment slots).lookup name = some v := by
    intro slots name v kept
    show (slots.get? name).or _ = some v
    rw [kept]
    rfl
  have same : ∀ s : String, slotMark.isPrefixOf s.toList = false →
      (setting.environment slots).lookup s = (setting.environment slots').lookup s := by
    intro s other
    show (slots.get? s).or _ = (slots'.get? s).or _
    rw [get_unslotted numbered other, get_unslotted numbered' other]
  obtain ⟨tokens', alike, lexes'⟩ := lexes_twins (known slots) (known slots') same closed lexes allowed joins twins
  refine ⟨tokens', lexes', fun more closes => ?_⟩
  have enough : readingFuel tokens.length ≤ readingFuel (tokens' ++ more).length := by
    have lengths := alike.length_eq
    rw [List.length_append]
    unfold readingFuel
    omega
  have shown : (setting.environment slots).nodeText = (setting.environment slots').nodeText := rfl
  obtain ⟨rest, none, read'⟩ := (simulates_readers closes shown _).ternary enough alike v [] read
  cases none
  exact read'

theorem evaluated_alike {v : Value} (evaluated : evaluateReduced (setting.environment slots) text = .ok v) :
    evaluateReduced (setting.environment slots') text' = .ok v := by
  have closed : ∀ c ∈ ([] : List Char).head?, c = ')' ∨ Text.isSpace c = true := nofun
  have joins : Joins text [] := fun _ _ _ => nofun
  obtain ⟨tokens, lexes, reads⟩ := reads_alike numbered numbered' writes writes' fits evaluated closed apart_nil joins
  refine evaluateReduced_ok.mpr ⟨allowed_alike writes writes' fits (evaluateReduced_ok.mp evaluated).1, tokens, ?_, ?_⟩
  · have whole := lexes [] .nil
    rwa [List.append_nil, List.append_nil] at whole
  · have whole := reads [] (.inl rfl)
    rwa [List.append_nil] at whole

end

/-! ### Pieces that are read -/

namespace Pieces

/-- A text of pieces, with the values kept in further slots. -/
def spelled : Bindings → Pieces → Bindings × List Char
  | slots, .nil => (slots, [])
  | slots, .mark c rest => ((spelled slots rest).1, c :: (spelled slots rest).2)
  | slots, .run cs rest => ((spelled slots rest).1, cs ++ (spelled slots rest).2)
  | slots, .value v rest =>
    let after := spelled (slots ++ [(slotName slots.length, v)]) rest
    (after.1, (slotName slots.length).toList ++ after.2)
  | slots, .literal quote content rest => ((spelled slots rest).1, quote :: (content ++ quote :: (spelled slots rest).2))
  | slots, .brackets round inside rest =>
    let within := spelled slots inside
    let after := spelled within.1 rest
    (after.1, opening round :: (within.2 ++ closing round :: after.2))

/-- The value of a text of reduced pieces. -/
def read (setting : Setting) (pieces : Pieces) : Option Value :=
  (evaluateReduced (setting.environment (pieces.spelled []).1) (pieces.spelled []).2).toOption

theorem writes_spelled {pieces : Pieces} : ∀ {named : Bool} {edge : Edge} {callee : Callee} {found : Argument},
    pieces.orderly named edge callee found = true → ∀ {slots : Bindings}, Numbered slots →
    Grows slots (pieces.spelled slots).1 ∧ Numbered (pieces.spelled slots).1 ∧
      pieces.Writes (pieces.spelled slots).1 (pieces.spelled slots).2 := by
  induction pieces with
  | nil => exact fun _ _ numbered => ⟨grows_refl _, numbered, .nil⟩
  | mark c rest ih =>
    intro named edge callee found fits slots numbered
    obtain ⟨grows, numbered, writes⟩ := ih (orderly_mark.mp fits).2.2.2 numbered
    exact ⟨grows, numbered, .mark writes⟩
  | run cs rest ih =>
    intro named edge callee found fits slots numbered
    obtain ⟨-, nonempty, -, -, fits⟩ := orderly_run.mp fits
    obtain ⟨grows, numbered, writes⟩ := ih fits numbered
    exact ⟨grows, numbered, .run nonempty writes⟩
  | value v rest ih =>
    intro named edge callee found fits slots numbered
    have kept := get_new numbered v
    obtain ⟨grows, numbered', writes⟩ := ih (orderly_value.mp fits).2.2 (numbered_keep numbered v)
    exact ⟨grows_trans (grows_keep slots _) grows, numbered', .value _ (grows _ _ kept) writes⟩
  | literal quote content rest ih =>
    intro named edge callee found fits slots numbered
    obtain ⟨grows, numbered, writes⟩ := ih (orderly_literal.mp fits).2.2 numbered
    exact ⟨grows, numbered, .literal writes⟩
  | brackets round inside rest inner ih =>
    intro named edge callee found fits slots numbered
    obtain ⟨within, fits⟩ := orderly_brackets.mp fits
    obtain ⟨grows, numbered, writes⟩ := inner within numbered
    obtain ⟨grows', numbered', writes'⟩ := ih fits numbered
    exact ⟨grows_trans grows grows', numbered', .brackets (writes_grows grows' writes) writes'⟩

end Pieces

/-- A text of pieces has the value of the pieces, or fails when they have none. -/
theorem read_text {setting : Setting} {slots : Bindings} {pieces : Pieces} {text : List Char} (numbered : Numbered slots)
    (writes : pieces.Writes slots text) {found : Argument} (fits : pieces.orderly false .plain .none found = true) :
    (evaluateReduced (setting.environment slots) text).toOption = pieces.read setting := by
  have start : Numbered [] := rfl
  obtain ⟨-, numbered', writes'⟩ := writes_spelled fits start
  unfold Pieces.read
  cases evaluated : evaluateReduced (setting.environment slots) text with
  | ok v => rw [evaluated_alike numbered numbered' writes writes' fits evaluated]
  | error failure =>
    cases evaluated' : evaluateReduced (setting.environment (pieces.spelled []).1) (pieces.spelled []).2 with
    | ok v =>
      rw [evaluated_alike numbered' numbered writes' writes fits evaluated'] at evaluated
      cases evaluated
    | error failure' => rfl

/-! ### Blanks and symbols -/

theorem lexes_dropWhile {text : List Char} {tokens : List Token} (lexes : Lexes text tokens) :
    Lexes (text.dropWhile Text.isSpace) tokens := by
  cases lexes with
  | nil => exact .nil
  | @cut c text rest found tokens cut further =>
    rw [List.dropWhile_cons]
    split
    · rename_i space
      rw [cutToken_blank space] at cut
      cases cut
      exact further
    · exact .cut cut further

theorem lexes_blanks {blanks : List Char} (blank : ∀ c ∈ blanks, Text.isSpace c = true) {text : List Char}
    {tokens : List Token} (lexes : Lexes text tokens) : Lexes (blanks ++ text) tokens := by
  cases blanks with
  | nil => exact lexes
  | cons c blanks =>
    have cut := cutToken_blank (blank c List.mem_cons_self) (blanks ++ text)
    rw [List.dropWhile_append_of_pos fun d member => blank d (List.mem_cons_of_mem c member)] at cut
    exact .cut cut (lexes_dropWhile lexes)

/-- A symbol that no following character goes on with. -/
theorem lexes_symbol {s : String} {c : Char} (one : s.toList = [c]) (known : s ∈ allSymbols)
    (alone : s ∉ ["!", "<", ">", "==", "!="] ∧ s ≠ "*") {text : List Char} {tokens : List Token} (lexes : Lexes text tokens) :
    Lexes (c :: text) (.symbol s :: tokens) := by
  have apart : (Word.symbol s).Apart text.head? := fun _ _ => ⟨fun _ => alone.1, fun _ => alone.2⟩
  have cut := cutToken_symbol known apart
  rw [one] at cut
  exact .cut cut lexes

/-! ### Readings between parentheses -/

/-- What the reader of a tighter rank reads, the reader of a looser one reads too where no operator of its own stands. -/
theorem read_looser {env : Environment} {tokens rest : List Token} {v : Value} (unsigned : atSymbol? signs tokens = none)
    {rank inner : Rank} (tighter : rank.tighter = some inner) (ended : atSymbol? rank.operators rest = none)
    (read : inner.read env tokens = .ok (v, rest)) : rank.read env tokens = .ok (v, rest) := by
  cases rank with
  | ternary =>
    cases tighter
    have level : Read.level env .disjunction tokens = pure (v, rest) := read
    have at' : atSymbol? ["?"] rest = none := ended
    show Read.ternary env tokens = _
    rw [Read.ternary_eq, level]
    simp only [pure_bind, at']
    rfl
  | level l =>
    cases tighter
    have operand : Read.operand env l tokens = .ok (v, rest) := by
      rw [Read.operand_eq, ← read]
      cases l <;> rfl
    show Read.level env l tokens = _
    rw [Read.level_eq, operand]
    show Read.levelRest env l v rest = _
    rw [Read.levelRest_eq, show atSymbol? l.symbols rest = none from ended]
  | signed =>
    cases tighter
    show Read.signed env tokens = _
    rw [Read.signed_eq, show atSymbol? ["-", "+", "!", "not"] tokens = none from unsigned]
    exact read
  | power =>
    cases tighter
    have indexed : Read.indexed env tokens = pure (v, rest) := read
    have at' : atSymbol? ["**"] rest = none := ended
    show Read.power env tokens = _
    rw [Read.power_eq, indexed]
    simp only [pure_bind, at']
    rfl
  | indexed =>
    cases tighter
    have atom : Read.atom env tokens = .ok (v, rest) := read
    show Read.indexed env tokens = _
    rw [Read.indexed_eq, atom]
    show Read.indexes env v rest = _
    rw [Read.indexes_eq, show atSymbol? ["["] rest = none from ended]
  | atom => cases tighter

/-- What is read as an atom is read by every rank where no operator follows. -/
theorem read_atom {env : Environment} {tokens rest : List Token} {v : Value} (unsigned : atSymbol? signs tokens = none)
    (read : Read.atom env tokens = .ok (v, rest)) (rank : Rank)
    (ended : ∀ inner : Rank, rank.depth ≤ inner.depth → inner ≠ .atom → atSymbol? inner.operators rest = none) :
    rank.read env tokens = .ok (v, rest) := by
  -- one rank looser at a time
  cases tighter : rank.tighter with
  | none =>
    cases rank <;> first | exact read | cases tighter
  | some inner =>
    have deeper := Rank.depth_tighter tighter
    have within := read_atom unsigned read inner fun further less => ended further (by omega)
    refine read_looser unsigned tighter (ended rank (Nat.le_refl _) ?_) within
    rintro rfl
    cases tighter
termination_by 10 - rank.depth
decreasing_by
  have bound : rank.depth < 10 := by
    cases rank with
    | level l => cases l <;> decide
    | atom => cases tighter
    | _ => decide
  omega

theorem question_no_operator {rank : Rank} (inner : 1 ≤ rank.depth) : "?" ∉ rank.operators := by
  cases rank with
  | ternary => cases inner
  | level l => cases l <;> decide
  | _ => decide

section

variable {setting : Setting} {slots : Bindings} (numbered : Numbered slots)

include numbered

/-- A text that is the name of a slot between blanks has the value that is kept. -/
theorem evaluateReduced_slot {text : List Char} {v : Value} (kept : slots.get? (String.ofList (Text.trim text)) = some v) :
    evaluateReduced (setting.environment slots) text = .ok v := by
  obtain ⟨before, after, blank, blank', same, -⟩ := trim_split text
  obtain ⟨i, name⟩ := slot_of_get numbered kept
  have own : Text.trim text = (slotName i).toList := by rw [← name, String.toList_ofList]
  have ends : ∀ c ∈ after.head?, Text.isWord c = false := by
    intro c head
    exact Text.isWord_of_isSpace (blank' c (List.mem_of_mem_head? head))
  have last : Lexes after [] := by
    have whole := lexes_blanks blank' .nil
    rwa [List.append_nil] at whole
  have lexes : Lexes ((slotName i).toList ++ after) [.name (slotName i)] := by
    have cut := cutToken_slot i ends
    rw [slotName_toList] at cut ⊢
    exact .cut cut last
  refine evaluateReduced_ok.mpr ⟨fun c member => ?_, [.name (slotName i)], ?_, ?_⟩
  · rw [same, own, List.mem_append, List.mem_append] at member
    rcases member with space | word | space
    · simp [isAllowed, blank c space]
    · exact allowed_of_isWord (slotName_wordy i c word)
    · simp [isAllowed, blank' c space]
  · rw [same, own]
    exact lexes_blanks blank lexes
  · have found : (setting.environment slots).lookup (slotName i) = some v := by
      show (slots.get? (slotName i)).or _ = some v
      rw [← name, kept]
      rfl
    have unsigned : atSymbol? signs [.name (slotName i)] = none := by
      have operators : Operators signs := by unfold Operators; decide
      have other := no_operator operators (show (slotName i).toList.head? = some '_' by rw [slotName_toList]; rfl)
      rw [atSymbol?, if_neg (by rw [other]; exact Bool.false_ne_true)]
    refine read_atom unsigned ?_ .ternary fun inner _ _ => rfl
    rw [Read.atom_name, readName, found]

def parenthesized (text : List Char) : List Char := '(' :: (text ++ [')'])

/-- A text that is read as one operand, whatever follows it. -/
def ReadsAtom (env : Environment) (text : List Char) (v : Value) : Prop :=
  ∀ {after : List Char} {more : List Token}, Lexes after more → ∃ tokens, Lexes (text ++ after) (tokens ++ more) ∧
    Read.atom env (tokens ++ more) = .ok (v, more) ∧ atSymbol? signs (tokens ++ more) = none

variable {pieces : Pieces} {text : List Char} (writes : pieces.Writes slots text) {found : Argument}
  (fits : pieces.orderly false .plain .none found = true)

include writes fits

/-- Between parentheses pieces have the value that they have on their own without blanks around them. -/
theorem reads_parenthesized {v : Value} (read : pieces.trim.read setting = some v) :
    (∀ c ∈ text, isAllowed c = true) ∧ ReadsAtom (setting.environment slots) (parenthesized text) v := by
  have trimmed := writes_trim writes fits
  have fits' := orderly_trim fits
  obtain ⟨before, behind, blank, blank', same, solid⟩ := trim_split text
  have evaluated : evaluateReduced (setting.environment slots) (Text.trim text) = .ok v := by
    have own := @read_text setting _ _ _ numbered trimmed _ fits'
    rw [read] at own
    cases evaluated : evaluateReduced (setting.environment slots) (Text.trim text) with
    | ok found => rw [evaluated] at own; cases own; rfl
    | error failure => rw [evaluated] at own; cases own
  refine ⟨fun c member => ?_, fun {after more} lexes => ?_⟩
  · rw [same, List.mem_append, List.mem_append] at member
    rcases member with space | inside | space
    · simp [isAllowed, blank c space]
    · exact (evaluateReduced_ok.mp evaluated).1 c inside
    · simp [isAllowed, blank' c space]
  · have closed : ∀ c ∈ (behind ++ ')' :: after).head?, c = ')' ∨ Text.isSpace c = true := by
      intro c head
      cases behind with
      | nil => cases head; exact .inl rfl
      | cons d behind => cases head; exact .inr (blank' _ List.mem_cons_self)
    have apart : Apart (behind ++ ')' :: after) := by
      refine ⟨fun c head => ?_, ?_⟩
      · rcases closed c head with rfl | space
        · decide
        · exact Text.isWord_of_isSpace space
      · rw [List.dropWhile_append_of_pos blank', List.dropWhile_cons_of_neg (by decide)]
        simp
    have joins : Joins (Text.trim text) (behind ++ ')' :: after) := by
      intro c last space
      rw [solid c last] at space
      cases space
    obtain ⟨tokens, lexes', reads⟩ := reads_alike numbered numbered trimmed trimmed fits' evaluated closed apart joins
    have closing : Lexes (behind ++ ')' :: after) (.symbol ")" :: more) :=
      lexes_blanks blank' (lexes_symbol rfl (by decide) (by decide) lexes)
    have inner : Lexes (text ++ ')' :: after) (tokens ++ .symbol ")" :: more) := by
      have whole := lexes_blanks blank (lexes' _ closing)
      rw [same]
      simpa using whole
    refine ⟨.symbol "(" :: (tokens ++ [.symbol ")"]), ?_, ?_, ?_⟩
    · have whole : Lexes ('(' :: (text ++ ')' :: after)) (.symbol "(" :: (tokens ++ .symbol ")" :: more)) :=
        lexes_symbol rfl (by decide) (by decide) inner
      simpa [parenthesized] using whole
    · have closes := reads (.symbol ")" :: more) (.inr ⟨more, rfl⟩)
      simp only [List.cons_append, List.append_assoc, List.nil_append]
      rw [Read.atom_parentheses, closes, show (Except.ok (v, Token.symbol ")" :: more) : Reading) = pure _ from rfl]
      simp only [pure_bind, expect_same]
      rfl
    · exact atSymbol_symbol (by decide) _

end

end ProceduralScene.Expression
