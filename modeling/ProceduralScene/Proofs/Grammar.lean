import ProceduralScene.Proofs.Readers

/-!
The grammar of the reduced language: its words, its terms with their strict values, and which words spell a term.
-/

set_option autoImplicit false

namespace ProceduralScene.Expression

/-! ### Words -/

structure Exponent where
  mark : Char
  sign : Option Char
  digits : List Char
  marked : mark = 'e' ∨ mark = 'E'
  signed : ∀ c ∈ sign, c = '+' ∨ c = '-'
  someDigit : digits ≠ []
  decimal : ∀ c ∈ digits, Text.isDecimal c = true

def Exponent.text (exponent : Exponent) : List Char :=
  exponent.mark :: (exponent.sign.toList ++ exponent.digits)

/-- Digits, maybe with a point in, before or behind them, and maybe an exponent. -/
structure Numeral where
  whole : List Char
  fraction : Option (List Char)
  exponent : Option Exponent
  wholeDecimal : ∀ c ∈ whole, Text.isDecimal c = true
  fractionDecimal : ∀ digits ∈ fraction, ∀ c ∈ digits, Text.isDecimal c = true
  someDigit : whole ≠ [] ∨ ∃ digits ∈ fraction, digits ≠ []

def fractionText : Option (List Char) → List Char
  | none => []
  | some digits => '.' :: digits

def exponentText : Option Exponent → List Char
  | none => []
  | some exponent => exponent.text

def Numeral.text (numeral : Numeral) : List Char :=
  numeral.whole ++ (fractionText numeral.fraction ++ exponentText numeral.exponent)

/-- A text of allowed characters between two quotes of a kind that it does not hold. -/
structure Quotation where
  quote : Char
  content : List Char
  quoting : isQuote quote = true
  free : quote ∉ content
  allowed : ∀ c ∈ content, isAllowed c = true

def Quotation.text (quotation : Quotation) : List Char :=
  quotation.quote :: (quotation.content ++ [quotation.quote])

structure HexWord where
  digits : List Char
  someDigit : digits ≠ []
  hex : ∀ c ∈ digits, isHexDigit c = true

def HexWord.text (word : HexWord) : List Char := '#' :: word.digits

structure Identifier where
  first : Char
  rest : List Char
  starts : isNameStart first = true
  continues : ∀ c ∈ rest, isNameChar c = true

def Identifier.text (name : Identifier) : List Char := name.first :: name.rest

def Identifier.name (name : Identifier) : String := String.ofList name.text

inductive Word where
  | number (numeral : Numeral)
  | quoted (quotation : Quotation)
  | hex (word : HexWord)
  | name (name : Identifier)
  | symbol (symbol : String)

namespace Word

def text : Word → List Char
  | .number numeral => numeral.text
  | .quoted quotation => quotation.text
  | .hex word => word.text
  | .name identifier => identifier.text
  | .symbol s => s.toList

/-- Whether the word is read at all: an integer may have too many digits. -/
def Reads : Word → Prop
  | .number numeral => ∃ value, numberValue numeral.text = .ok value
  | _ => True

def token : Word → Token
  | .number numeral => .number ((numberValue numeral.text).toOption.getD .null)
  | .quoted quotation => .text (String.ofList quotation.content)
  | .hex word => .text (String.ofList word.text)
  | .name identifier => .name identifier.name
  | .symbol s => .symbol s

end Word

abbrev AllRead (words : List Word) : Prop := ∀ word ∈ words, word.Reads

/-- The symbols of the language, those of several characters first. -/
def allSymbols : List String := longSymbols ++ shortSymbols.map fun c => String.ofList [c]

/-- The operators that are written as names. -/
def wordOperators : List String := ["and", "or", "not"]

def Word.Proper : Word → Prop
  | .symbol s => s ∈ allSymbols
  | _ => True

instance (word : Word) : Decidable word.Proper :=
  match word with
  | .symbol s => inferInstanceAs (Decidable (s ∈ allSymbols))
  | .number _ | .quoted _ | .hex _ | .name _ => isTrue trivial

def andName : Identifier := ⟨'a', ['n', 'd'], by decide, List.all_eq_true.mp (by decide)⟩

def orName : Identifier := ⟨'o', ['r'], by decide, List.all_eq_true.mp (by decide)⟩

def notName : Identifier := ⟨'n', ['o', 't'], by decide, List.all_eq_true.mp (by decide)⟩

def operatorWord (operator : String) : Word :=
  if operator = "and" then .name andName
  else if operator = "or" then .name orName
  else if operator = "not" then .name notName
  else .symbol operator

def signs : List String := ["-", "+", "!", "not"]

/-! ### Terms -/

inductive Atom where
  | number (numeral : Numeral)
  | quoted (quotation : Quotation)
  | hex (word : HexWord)
  | name (name : Identifier) (free : name.name ∉ wordOperators)

def Atom.word : Atom → Word
  | .number numeral => .number numeral
  | .quoted quotation => .quoted quotation
  | .hex word => .hex word
  | .name identifier _ => .name identifier

inductive Term where
  | atom (atom : Atom)
  | list (items : List Term)
  | index (value at' : Term)
  | power (base exponent : Term)
  | signed (sign : String) (known : sign ∈ signs) (operand : Term)
  | binary (level : Level) (operator : String) (known : operator ∈ level.symbols) (left right : Term)
  | ternary (condition whenTrue whenFalse : Term)

def nameValue (env : Environment) (name : String) : Except Failure Value :=
  match env.lookup name with
  | some value => .ok value
  | none =>
    match keyword? name with
    | some value => .ok value
    | none => .error (.expression (.unknownIdentifier (Text.quoted name)))

def Atom.value (env : Environment) : Atom → Except Failure Value
  | .number numeral => numberValue numeral.text
  | .quoted quotation => .ok (.text (String.ofList quotation.content))
  | .hex word => .ok (.text (String.ofList word.text))
  | .name identifier _ => nameValue env identifier.name

def applySign (sign : String) (value : Value) : Except Failure Value :=
  if sign == "-" then value.neg
  else if sign == "+" then .ok value
  else .ok (.bool (!value.truthy))

namespace Term

variable (env : Environment)

mutual
/-- The strict value: the parts are evaluated from left to right, also those that do not decide the result. -/
def value : Term → Except Failure Value
  | .atom a => a.value env
  | .list items => do return .list (← values items)
  | .index of at' => do indexValue (← value of) (← value at')
  | .power base exponent => do (← value base).pow (← value exponent)
  | .signed sign _ operand => do applySign sign (← value operand)
  | .binary level operator _ left right => do
    level.apply env.nodeText operator (← value left) (← value right)
  | .ternary condition whenTrue whenFalse => do
    let condition ← value condition
    let whenTrue ← value whenTrue
    let whenFalse ← value whenFalse
    return if condition.truthy then whenTrue else whenFalse

def values : List Term → Except Failure (List Value)
  | [] => .ok []
  | first :: rest => do return (← value first) :: (← values rest)
end

end Term

/-! ### Which words spell a term -/

/-- How tightly a place in a term binds what stands there, from the loosest to the tightest. -/
inductive Rank where
  | ternary
  | level (level : Level)
  | signed
  | power
  | indexed
  | atom
  deriving DecidableEq

/-- The rank of the operands of a level. -/
def Level.operandRank (level : Level) : Rank :=
  match level.tighter with
  | some inner => .level inner
  | none => .signed

namespace Rank

def tighter : Rank → Option Rank
  | .ternary => some (.level .disjunction)
  | .level l => some l.operandRank
  | .signed => some .power
  | .power => some .indexed
  | .indexed => some .atom
  | .atom => none

def depth : Rank → Nat
  | .ternary => 0
  | .level l => 6 - l.height
  | .signed => 7
  | .power => 8
  | .indexed => 9
  | .atom => 10

theorem depth_tighter {rank inner : Rank} (tighter : rank.tighter = some inner) : inner.depth = rank.depth + 1 := by
  cases rank with
  | level level =>
    cases tighter
    cases level <;> rfl
  | atom => cases tighter
  | _ =>
    cases tighter
    rfl

theorem tightest {rank : Rank} (last : rank.tighter = none) : rank = .atom := by
  cases rank <;> first | rfl | cases last

theorem depth_injective {rank other : Rank} (same : rank.depth = other.depth) : rank = other := by
  cases rank <;> cases other <;>
    first
      | rfl
      | (rename_i level; cases level <;> cases same)
      | (rename_i level other; cases level <;> cases other <;> first | rfl | cases same)
      | cases same

end Rank

mutual
/-- The productions of the grammar: `Spells rank term words` when the words stand for the term where `rank` is
asked for. Parentheses may stand around any part. -/
inductive Spells : Rank → Term → List Word → Prop
  | tighter {rank inner : Rank} {term : Term} {words : List Word} :
      rank.tighter = some inner → Spells inner term words → Spells rank term words
  | parentheses {term : Term} {words : List Word} :
      Spells .ternary term words → Spells .atom term (.symbol "(" :: (words ++ [.symbol ")"]))
  | atom (atom : Atom) : Spells .atom (.atom atom) [atom.word]
  | emptyList : Spells .atom (.list []) [.symbol "[", .symbol "]"]
  | list {items : List Term} {words : List Word} :
      SpellsItems items words → Spells .atom (.list items) (.symbol "[" :: (words ++ [.symbol "]"]))
  | index {value at' : Term} {words inner : List Word} :
      Spells .indexed value words → Spells .ternary at' inner →
      Spells .indexed (.index value at') (words ++ .symbol "[" :: (inner ++ [.symbol "]"]))
  | power {base exponent : Term} {words above : List Word} :
      Spells .indexed base words → Spells .signed exponent above →
      Spells .power (.power base exponent) (words ++ .symbol "**" :: above)
  | signed {sign : String} {known : sign ∈ signs} {operand : Term} {words : List Word} :
      Spells .signed operand words → Spells .signed (.signed sign known operand) (operatorWord sign :: words)
  | binary {level : Level} {operator : String} {known : operator ∈ level.symbols} {left right : Term}
      {before after : List Word} :
      Spells (.level level) left before → Spells level.operandRank right after →
      Spells (.level level) (.binary level operator known left right) (before ++ operatorWord operator :: after)
  | ternary {condition whenTrue whenFalse : Term} {first second third : List Word} :
      Spells (.level .disjunction) condition first → Spells .ternary whenTrue second →
      Spells .ternary whenFalse third →
      Spells .ternary (.ternary condition whenTrue whenFalse)
        (first ++ .symbol "?" :: (second ++ .symbol ":" :: third))

inductive SpellsItems : List Term → List Word → Prop
  | last {item : Term} {words : List Word} : Spells .ternary item words → SpellsItems [item] words
  | more {item : Term} {rest : List Term} {words others : List Word} :
      Spells .ternary item words → SpellsItems rest others → SpellsItems (item :: rest) (words ++ .symbol "," :: others)
end

theorem spells_looser {rank inner : Rank} {term : Term} {words : List Word} (spells : Spells inner term words)
    (looser : rank.depth ≤ inner.depth) : Spells rank term words := by
  obtain ⟨steps, more⟩ := Nat.le.dest looser
  induction steps generalizing rank with
  | zero =>
    cases Rank.depth_injective more
    exact spells
  | succ steps ih =>
    cases next : rank.tighter with
    | none =>
      cases Rank.tightest next
      have most : inner.depth ≤ Rank.atom.depth := by
        cases inner with
        | level level => cases level <;> decide
        | _ => decide
      omega
    | some between =>
      have one := Rank.depth_tighter next
      exact .tighter next (ih (by omega) (by omega))

/-! ### Minimal parentheses -/

/-- Where a term may stand without parentheses. -/
def Term.rank : Term → Rank
  | .atom _ | .list _ => .atom
  | .index _ _ => .indexed
  | .power _ _ => .power
  | .signed _ _ _ => .signed
  | .binary level _ _ _ _ => .level level
  | .ternary _ _ _ => .ternary

/-- Puts parentheses around words of a term that is too loose for its place. -/
def enclosed (place rank : Rank) (words : List Word) : List Word :=
  if place.depth ≤ rank.depth then words else .symbol "(" :: (words ++ [.symbol ")"])

namespace Term

mutual
/-- The term with the fewest parentheses, in a place of some rank. -/
def printed : Term → Rank → List Word
  | .atom a, place => enclosed place .atom [a.word]
  | .list items, place => enclosed place .atom (.symbol "[" :: (printedItems items ++ [.symbol "]"]))
  | .index value at', place =>
    enclosed place .indexed (printed value .indexed ++ .symbol "[" :: (printed at' .ternary ++ [.symbol "]"]))
  | .power base exponent, place =>
    enclosed place .power (printed base .indexed ++ .symbol "**" :: printed exponent .signed)
  | .signed sign _ operand, place => enclosed place .signed (operatorWord sign :: printed operand .signed)
  | .binary level operator _ left right, place =>
    enclosed place (.level level)
      (printed left (.level level) ++ operatorWord operator :: printed right level.operandRank)
  | .ternary condition whenTrue whenFalse, place =>
    enclosed place .ternary (printed condition (.level .disjunction) ++
      .symbol "?" :: (printed whenTrue .ternary ++ .symbol ":" :: printed whenFalse .ternary))

def printedItems : List Term → List Word
  | [] => []
  | [item] => printed item .ternary
  | item :: next :: rest => printed item .ternary ++ .symbol "," :: printedItems (next :: rest)
end

/-- The words of a whole term. -/
def words (term : Term) : List Word := term.printed .ternary

end Term

theorem spells_enclosed {place rank : Rank} {term : Term} {words : List Word} (spells : Spells rank term words) :
    Spells place term (enclosed place rank words) := by
  unfold enclosed
  split
  · rename_i looser
    exact spells_looser spells looser
  · have whole : Spells .ternary term words := spells_looser spells (Nat.zero_le _)
    refine spells_looser (.parentheses whole) ?_
    cases place with
    | level level => cases level <;> decide
    | _ => decide

mutual
theorem spells_printed : ∀ (term : Term) (place : Rank), Spells place term (term.printed place)
  | .atom atom, place => by
    rw [Term.printed]
    exact spells_enclosed (.atom atom)
  | .list [], place => by
    rw [Term.printed, Term.printedItems]
    exact spells_enclosed .emptyList
  | .list (first :: rest), place => by
    rw [Term.printed]
    exact spells_enclosed (.list (spells_printedItems (first :: rest) (List.cons_ne_nil _ _)))
  | .index value at', place => by
    rw [Term.printed]
    exact spells_enclosed (.index (spells_printed value _) (spells_printed at' _))
  | .power base exponent, place => by
    rw [Term.printed]
    exact spells_enclosed (.power (spells_printed base _) (spells_printed exponent _))
  | .signed sign known operand, place => by
    rw [Term.printed]
    exact spells_enclosed (.signed (spells_printed operand _))
  | .binary level operator known left right, place => by
    rw [Term.printed]
    exact spells_enclosed (.binary (spells_printed left _) (spells_printed right _))
  | .ternary condition whenTrue whenFalse, place => by
    rw [Term.printed]
    exact spells_enclosed (.ternary (spells_printed condition _) (spells_printed whenTrue _)
      (spells_printed whenFalse _))

theorem spells_printedItems : ∀ items : List Term, items ≠ [] → SpellsItems items (Term.printedItems items)
  | [], nonempty => absurd rfl nonempty
  | [item], _ => by
    rw [Term.printedItems]
    exact .last (spells_printed item _)
  | item :: next :: rest, _ => by
    rw [Term.printedItems]
    exact .more (spells_printed item _) (spells_printedItems (next :: rest) (List.cons_ne_nil _ _))
end

end ProceduralScene.Expression
