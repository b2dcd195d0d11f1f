import ProceduralScene.Proofs.CallScan
import ProceduralScene.Proofs.ShownNumber

/-!
Expression texts as pieces: words, marks, quoted literals and brackets with what they enclose. A value that is kept
in a slot is a piece of its own, so pieces do not depend on the numbers of slots; a text writes pieces when each value
is written as the name of a slot that keeps it.
-/

set_option autoImplicit false

namespace ProceduralScene.Expression

inductive Pieces where
  | nil
  | mark (c : Char) (rest : Pieces)
  /-- Word characters up to the next character that is none. -/
  | run (cs : List Char) (rest : Pieces)
  | value (v : Value) (rest : Pieces)
  | literal (quote : Char) (content : List Char) (rest : Pieces)
  | brackets (round : Bool) (inside rest : Pieces)

def opening (round : Bool) : Char := if round then '(' else '['

def closing (round : Bool) : Char := if round then ')' else ']'

def slotMark : List Char := "__slot".toList

def slotName (i : Nat) : String := "__slot" ++ toString i

namespace Pieces

inductive Writes (slots : Bindings) : Pieces → List Char → Prop
  | nil : Writes slots .nil []
  | mark {c : Char} {rest : Pieces} {text : List Char} : Writes slots rest text → Writes slots (.mark c rest) (c :: text)
  | run {cs : List Char} {rest : Pieces} {text : List Char} :
      cs ≠ [] → Writes slots rest text → Writes slots (.run cs rest) (cs ++ text)
  | value {v : Value} {rest : Pieces} {text : List Char} (i : Nat) :
      slots.get? (slotName i) = some v → Writes slots rest text → Writes slots (.value v rest) ((slotName i).toList ++ text)
  | literal {quote : Char} {content : List Char} {rest : Pieces} {text : List Char} :
      Writes slots rest text → Writes slots (.literal quote content rest) (quote :: (content ++ quote :: text))
  | brackets {round : Bool} {inside rest : Pieces} {text after : List Char} : Writes slots inside text →
      Writes slots rest after →
      Writes slots (.brackets round inside rest) (opening round :: (text ++ closing round :: after))

def append : Pieces → Pieces → Pieces
  | .nil, other => other
  | .mark c rest, other => .mark c (append rest other)
  | .run cs rest, other => .run cs (append rest other)
  | .value v rest, other => .value v (append rest other)
  | .literal quote content rest, other => .literal quote content (append rest other)
  | .brackets round inside rest, other => .brackets round inside (append rest other)

theorem writes_append {slots : Bindings} {first second : Pieces} {text after : List Char} (writes : Writes slots first text)
    (further : Writes slots second after) : Writes slots (first.append second) (text ++ after) := by
  induction writes with
  | nil => exact further
  | mark _ ih => exact .mark ih
  | run nonempty _ ih =>
    rw [List.append_assoc]
    exact .run nonempty ih
  | value i kept _ ih =>
    rw [List.append_assoc]
    exact .value i kept ih
  | literal _ ih =>
    simp only [List.cons_append, List.append_assoc]
    exact .literal ih
  | brackets inside _ _ ih =>
    simp only [List.cons_append, List.append_assoc]
    exact .brackets inside ih

end Pieces

/-! ### Orderly pieces -/

/-- What the character before a piece is for the scans. -/
inductive Edge where
  | plain
  | point
  | dollar
  | word
  deriving DecidableEq

def Edge.behind : Option Char → Edge
  | none => .plain
  | some c => if Text.isWord c then .word else if c = '.' then .point else if c = '$' then .dollar else .plain

/-- What was read of an argument of a call. -/
inductive Argument where
  /-- There is no call. -/
  | outside
  | empty
  | single (quote : Char)
  /-- More than the literal it starts with; whether it ends in one with the same quote. -/
  | several (quote : Char) (quoted : Bool)
  | bare
  deriving DecidableEq

namespace Argument

/-- With a piece that is no literal. -/
def next : Argument → Argument
  | outside => outside
  | empty | bare => bare
  | single quote | several quote _ => several quote false

def literal (quote : Char) : Argument → Argument
  | outside => outside
  | empty => single quote
  | single first | several first _ => several first (quote == first)
  | bare => bare

/-- Whether the argument may end here. -/
def complete : Argument → Bool
  | several _ quoted => !quoted
  | _ => true

def after : Argument → Char → Argument
  | outside, _ => outside
  | found, c => if c = ',' then empty else if Text.isSpace c then found else found.next

end Argument

/-- What a parenthesis here would open. -/
inductive Callee where
  | none
  | conditional
  | call
  deriving DecidableEq

namespace Callee

/-- Behind a word; a word behind `$` stands for a value. -/
def ofWord (edge : Edge) (cs : List Char) : Callee :=
  if cs = conditionalName ∧ edge ≠ .dollar then .conditional else .call

def after (callee : Callee) (c : Char) : Callee := if Text.isSpace c then callee else .none

/-- Behind a bracket. -/
def closed (round : Bool) : Callee := if round then .call else .none

/-- What was read of an argument where a bracket opens; the parts of a conditional are no arguments. -/
def opens (callee : Callee) (round : Bool) : Argument := if round ∧ callee = .call then .empty else .outside

/-- What stands before a piece behind a bracket. -/
def edge (callee : Callee) (round : Bool) : Edge := if round ∧ callee ≠ .none then .word else .plain

/-- Less can be opened. -/
def Weaker (callee' callee : Callee) : Prop := callee' = .none ∨ callee' = callee ∨ callee = .call

theorem after_space (callee : Callee) {c : Char} (space : Text.isSpace c = true) : callee.after c = callee := if_pos space

theorem after_solid (callee : Callee) {c : Char} (solid : Text.isSpace c = false) : callee.after c = .none :=
  if_neg (by simp [solid])

theorem none_after (c : Char) : Callee.after .none c = .none := ite_self _

theorem ofWord_ne (edge : Edge) (cs : List Char) : ofWord edge cs ≠ .none := by
  unfold ofWord
  split <;> nofun

theorem ofWord_dollar (cs : List Char) : ofWord .dollar cs = .call := if_neg (·.2 rfl)

theorem ofWord_other (edge : Edge) {cs : List Char} (other : cs ≠ conditionalName) : ofWord edge cs = .call :=
  if_neg (other ·.1)

theorem edge_call {callee : Callee} (calls : callee ≠ .none) : callee.edge true = .word := if_pos ⟨rfl, calls⟩

theorem weaker_refl (callee : Callee) : Weaker callee callee := .inr (.inl rfl)

theorem weaker_call (callee : Callee) : Weaker callee .call := .inr (.inr rfl)

theorem weaker_after {callee callee' : Callee} (weaker : Weaker callee' callee) (c : Char) :
    Weaker (callee'.after c) (callee.after c) := by
  unfold after
  split
  · exact weaker
  · exact weaker_refl _

theorem opens_weaker {callee callee' : Callee} (weaker : Weaker callee' callee) (round : Bool) :
    callee'.opens round = .outside ∨ callee'.opens round = callee.opens round := by
  rcases weaker with rfl | rfl | rfl
  · exact .inl (by simp [opens])
  · exact .inr rfl
  · cases callee' <;> simp [opens]

theorem opens_after (callee : Callee) (round : Bool) : (callee.opens round).after ',' = callee.opens round := by
  unfold opens
  split <;> rfl

theorem edge_weaker {callee callee' : Callee} (weaker : Weaker callee' callee) (round : Bool) :
    callee.edge round = .word ∨ callee'.edge round = callee.edge round := by
  rcases weaker with rfl | rfl | rfl
  · cases callee <;> cases round <;> simp [edge]
  · exact .inr rfl
  · cases callee' <;> cases round <;> simp [edge]

theorem edge_cases (callee : Callee) (round : Bool) : callee.edge round = .word ∨ callee.edge round = .plain := by
  unfold edge
  split
  · exact .inl rfl
  · exact .inr rfl

end Callee

/-- What was read of an argument at the start of a call of `name`. -/
def Argument.ofCall (name : List Char) : Argument := (Callee.ofWord .plain name).opens true

def isMark (c : Char) : Bool :=
  !Text.isWord c && !isQuote c && !(['(', ')', '[', ']'].contains c)

def holdsSlot : List Char → Bool
  | [] => false
  | c :: rest => slotMark.isPrefixOf (c :: rest) || holdsSlot rest

namespace Pieces

def startsName : Pieces → Bool
  | .run (c :: _) _ => isNameStart c
  | _ => false

def namesWhole : Pieces → Bool
  | .run cs _ => cs.all isNameChar
  | _ => false

/-- Whether words stand apart from values and calls, and no argument of a call starts and ends with one quote but is
more than a literal. `named` allows `$name` tokens; `edge` tells what stands before, `callee` what a parenthesis here
would open. -/
def orderly (named : Bool) : Edge → Callee → Argument → Pieces → Bool
  | _, _, found, .nil => found.complete
  | edge, callee, found, .mark c rest =>
    isMark c && (c != ',' || found.complete) &&
      (c != '$' || !rest.startsName || named && edge != .word && edge != .dollar && rest.namesWhole) &&
      orderly named (Edge.behind (some c)) (callee.after c) (found.after c) rest
  | edge, _, found, .run cs rest =>
    edge != .word && !cs.isEmpty && cs.all Text.isWord && !holdsSlot cs &&
      orderly named .word (.ofWord edge cs) found.next rest
  | edge, _, found, .value _ rest =>
    edge != .word && edge != .dollar && orderly named .word .call found.next rest
  | _, _, found, .literal quote content rest =>
    isQuote quote && !content.contains quote && orderly named .plain .none (found.literal quote) rest
  | _, callee, found, .brackets round inside rest =>
    orderly named .plain .none (callee.opens round) inside && orderly named (callee.edge round) (.closed round) found.next rest

section

variable {named : Bool} {edge : Edge} {callee : Callee} {found : Argument} {rest : Pieces}

theorem orderly_mark {c : Char} : orderly named edge callee found (.mark c rest) = true ↔
    isMark c = true ∧ (c = ',' → found.complete = true) ∧
      (c = '$' → rest.startsName = true → named = true ∧ edge ≠ .word ∧ edge ≠ .dollar ∧ rest.namesWhole = true) ∧
      orderly named (Edge.behind (some c)) (callee.after c) (found.after c) rest = true := by
  by_cases comma : c = ',' <;> by_cases dollar : c = '$' <;> cases starts : rest.startsName <;>
    simp [orderly, comma, dollar, starts, and_assoc]

theorem orderly_run {cs : List Char} : orderly named edge callee found (.run cs rest) = true ↔
    edge ≠ .word ∧ cs ≠ [] ∧ (∀ c ∈ cs, Text.isWord c = true) ∧ holdsSlot cs = false ∧
      orderly named .word (.ofWord edge cs) found.next rest = true := by
  simp [orderly, and_assoc]

theorem orderly_value {v : Value} : orderly named edge callee found (.value v rest) = true ↔
    edge ≠ .word ∧ edge ≠ .dollar ∧ orderly named .word .call found.next rest = true := by
  simp [orderly, and_assoc]

theorem orderly_literal {quote : Char} {content : List Char} :
    orderly named edge callee found (.literal quote content rest) = true ↔
      isQuote quote = true ∧ quote ∉ content ∧ orderly named .plain .none (found.literal quote) rest = true := by
  simp [orderly, and_assoc]

theorem orderly_brackets {round : Bool} {inside : Pieces} :
    orderly named edge callee found (.brackets round inside rest) = true ↔
      orderly named .plain .none (callee.opens round) inside = true ∧
      orderly named (callee.edge round) (.closed round) found.next rest = true := by
  simp [orderly]

end

theorem complete_of_outside {found found' : Argument} (less : found' = .outside ∨ found' = found)
    (complete : found.complete = true) : found'.complete = true := by
  rcases less with rfl | rfl
  · rfl
  · exact complete

/-- Orderly pieces stay so where more words may be names, no call is open or nothing stood before. -/
theorem orderly_weaken {named named' : Bool} (names : named = true → named' = true) {pieces : Pieces} :
    ∀ {edge edge' : Edge} {callee callee' : Callee} {found found' : Argument}, edge = .word ∨ edge' = edge →
    Callee.Weaker callee' callee → found' = .outside ∨ found' = found →
    orderly named edge callee found pieces = true → orderly named' edge' callee' found' pieces = true := by
  have further : ∀ {found found' : Argument}, found' = .outside ∨ found' = found → ∀ step : Argument → Argument,
      step .outside = .outside → step found' = .outside ∨ step found' = step found := by
    rintro found found' (rfl | rfl) step outside
    · exact .inl outside
    · exact .inr rfl
  induction pieces with
  | nil =>
    intro edge edge' callee callee' found found' edges calls less fits
    exact complete_of_outside less fits
  | mark c rest ih =>
    intro edge edge' callee callee' found found' edges calls less fits
    obtain ⟨mark, comma, name, fits⟩ := orderly_mark.mp fits
    refine orderly_mark.mpr ⟨mark, fun same => complete_of_outside less (comma same), fun same starts => ?_,
      ih (.inr rfl) (Callee.weaker_after calls c) (further less (·.after c) rfl) fits⟩
    obtain ⟨allowed, noWord, noDollar, whole⟩ := name same starts
    rcases edges with word | rfl
    · exact absurd word noWord
    · exact ⟨names allowed, noWord, noDollar, whole⟩
  | run cs rest ih =>
    intro edge edge' callee callee' found found' edges calls less fits
    obtain ⟨noWord, nonempty, wordy, free, fits⟩ := orderly_run.mp fits
    rcases edges with word | rfl
    · exact absurd word noWord
    exact orderly_run.mpr ⟨noWord, nonempty, wordy, free, ih (.inr rfl) (Callee.weaker_refl _) (further less (·.next) rfl) fits⟩
  | value v rest ih =>
    intro edge edge' callee callee' found found' edges calls less fits
    obtain ⟨noWord, noDollar, behind⟩ := orderly_value.mp fits
    rcases edges with word | rfl
    · exact absurd word noWord
    exact orderly_value.mpr ⟨noWord, noDollar, ih (.inr rfl) (Callee.weaker_refl _) (further less (·.next) rfl) behind⟩
  | literal quote content rest ih =>
    intro edge edge' callee callee' found found' edges calls less fits
    obtain ⟨quoting, free, fits⟩ := orderly_literal.mp fits
    exact orderly_literal.mpr ⟨quoting, free, ih (.inr rfl) (Callee.weaker_refl _) (further less (·.literal quote) rfl) fits⟩
  | brackets round inside rest inner ih =>
    intro edge edge' callee callee' found found' edges calls less fits
    obtain ⟨within, fits⟩ := orderly_brackets.mp fits
    exact orderly_brackets.mpr ⟨inner (.inr rfl) (Callee.weaker_refl _) (Callee.opens_weaker calls round) within,
      ih (Callee.edge_weaker calls round) (Callee.weaker_refl _) (further less (·.next) rfl) fits⟩

end Pieces

/-! ### Slots -/

/-- The slots are named by their numbers. -/
def Numbered (slots : Bindings) : Prop := slots.map Prod.fst = (List.range slots.length).map slotName

/-- What is kept stays kept. -/
def Grows (slots after : Bindings) : Prop := ∀ (name : String) (v : Value), slots.get? name = some v → after.get? name = some v

theorem grows_refl (slots : Bindings) : Grows slots slots := fun _ _ kept => kept

theorem grows_trans {slots between after : Bindings} (first : Grows slots between) (second : Grows between after) :
    Grows slots after := fun name v kept => second name v (first name v kept)

theorem Pieces.writes_grows {slots after : Bindings} (grows : Grows slots after) {pieces : Pieces} {text : List Char}
    (writes : Writes slots pieces text) : Writes after pieces text := by
  induction writes with
  | nil => exact .nil
  | mark _ ih => exact .mark ih
  | run nonempty _ ih => exact .run nonempty ih
  | value i kept _ ih => exact .value i (grows _ _ kept) ih
  | literal _ ih => exact .literal ih
  | brackets _ _ inside ih => exact .brackets inside ih

theorem slotName_toList (i : Nat) : (slotName i).toList = slotMark ++ (toString i).toList := String.toList_append

theorem slotName_wordy (i : Nat) : ∀ c ∈ (slotName i).toList, Text.isWord c = true := by
  intro c member
  rw [slotName_toList] at member
  rcases List.mem_append.mp member with mark | digit
  · exact List.all_eq_true.mp (show slotMark.all Text.isWord = true by decide) c mark
  · exact isWord_of_isAlphanum (by simp [Char.isAlphanum, Number.allDigits_toString i c digit])

theorem slotName_injective {i j : Nat} (same : slotName i = slotName j) : i = j := by
  have digits : (toString i).toList = (toString j).toList := by
    have texts := congrArg String.toList same
    rw [slotName_toList, slotName_toList] at texts
    exact List.append_cancel_left texts
  have value := Number.ofDigitChars_toString i
  rw [digits, Number.ofDigitChars_toString] at value
  exact value.symm

end ProceduralScene.Expression
