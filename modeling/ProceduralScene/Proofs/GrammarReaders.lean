import ProceduralScene.Proofs.Grammar

/-!
The readers follow the grammar: words that spell a term are read as its strict value, and what is read was spelled
by the words taken.
-/

set_option autoImplicit false

namespace ProceduralScene.Expression

def tokens (words : List Word) : List Token := words.map Word.token

@[simp] theorem tokens_nil : tokens [] = [] := rfl

@[simp] theorem tokens_cons (word : Word) (words : List Word) : tokens (word :: words) = word.token :: tokens words := rfl

@[simp] theorem tokens_append (first second : List Word) :
    tokens (first ++ second) = tokens first ++ tokens second := List.map_append

theorem allRead_append {first second : List Word} :
    AllRead (first ++ second) ↔ AllRead first ∧ AllRead second := List.forall_mem_append

theorem allRead_cons {word : Word} {words : List Word} : AllRead (word :: words) ↔ word.Reads ∧ AllRead words :=
  List.forall_mem_cons

theorem atSymbol_operatorWord (symbols : List String) (operator : String) (rest : List Token) :
    atSymbol? symbols ((operatorWord operator).token :: rest) =
      if symbols.contains operator then some (operator, rest) else none := by
  unfold operatorWord
  split
  · subst operator
    rfl
  · split
    · subst operator
      rfl
    · split
      · subst operator
        rfl
      · rfl

theorem atSymbol_operator {symbols : List String} {operator : String} (known : operator ∈ symbols) (rest : List Token) :
    atSymbol? symbols ((operatorWord operator).token :: rest) = some (operator, rest) := by
  rw [atSymbol_operatorWord, if_pos (List.contains_iff_mem.mpr known)]

theorem atSymbol_other {symbols : List String} {operator : String} (unknown : operator ∉ symbols) (rest : List Token) :
    atSymbol? symbols ((operatorWord operator).token :: rest) = none := by
  rw [atSymbol_operatorWord, if_neg (fun known => unknown (List.contains_iff_mem.mp known))]

/-! ### What may follow a term -/

/-- The operators that a reader of the rank takes behind what it has read. -/
def Rank.operators : Rank → List String
  | .ternary => ["?"]
  | .level l => l.symbols
  | .signed => []
  | .power => ["**"]
  | .indexed => ["["]
  | .atom => ["("]

/-- Whether the rank is read in a loop, which goes on behind a term of the same rank. -/
def Rank.loops : Rank → Bool
  | .level _ | .indexed => true
  | _ => false

/-- The tokens do not go on with a term of this rank, but in the loop of the rank itself. -/
def Ends (rank : Rank) (rest : List Token) : Prop :=
  ∀ inner : Rank, rank.depth < inner.depth ∨ inner = rank ∧ rank.loops = false →
    atSymbol? inner.operators rest = none

theorem ends_tighter {rank inner : Rank} {rest : List Token} (tighter : rank.tighter = some inner) (ends : Ends rank rest) :
    Ends inner rest := by
  have deeper := Rank.depth_tighter tighter
  intro further within
  apply ends
  rcases within with more | ⟨rfl, _⟩
  · exact .inl (by omega)
  · exact .inl (by omega)

theorem ends_operators {rank inner : Rank} {rest : List Token} (tighter : rank.tighter = some inner)
    (ends : Ends rank rest) : atSymbol? inner.operators rest = none :=
  ends inner (.inl (by have := Rank.depth_tighter tighter; omega))

theorem ends_nil (rank : Rank) : Ends rank [] := fun _ _ => rfl

/-- A symbol that ends every term. -/
def closers : List String := [")", "]", ",", ":"]

theorem closer_no_operator {closer : String} (closes : closer ∈ closers) (rank : Rank) : closer ∉ rank.operators := by
  simp only [closers, List.mem_cons, List.not_mem_nil, or_false] at closes
  rcases closes with rfl | rfl | rfl | rfl
  all_goals
    cases rank with
    | level l => cases l <;> decide
    | _ => decide

theorem atSymbol_symbol {symbols : List String} {symbol : String} (unknown : symbol ∉ symbols) (rest : List Token) :
    atSymbol? symbols (.symbol symbol :: rest) = none :=
  if_neg fun known => unknown (List.contains_iff_mem.mp known)

theorem ends_closer {closer : String} (closes : closer ∈ closers) (rank : Rank) (rest : List Token) :
    Ends rank (.symbol closer :: rest) :=
  fun inner _ => atSymbol_symbol (closer_no_operator closes inner) rest

theorem ends_level {level : Level} {operator : String} (known : operator ∈ level.symbols) (rest : List Token) :
    Ends (.level level) ((operatorWord operator).token :: rest) := by
  intro inner within
  apply atSymbol_other
  rcases within with deeper | ⟨_, again⟩
  · intro also
    revert operator deeper
    cases level <;> cases inner with
    | level l => cases l <;> decide
    | _ => decide
  · cases again

theorem ends_question (rest : List Token) : Ends (.level .disjunction) (.symbol "?" :: rest) := by
  intro inner within
  apply atSymbol_symbol
  cases inner with
  | ternary => rcases within with deeper | ⟨same, _⟩ <;> contradiction
  | level l => cases l <;> decide
  | _ => decide

theorem ends_indexed {symbol : String} (known : symbol ∈ ["[", "**"]) (rest : List Token) :
    Ends .indexed (.symbol symbol :: rest) := by
  intro inner within
  apply atSymbol_symbol
  simp only [List.mem_cons, List.not_mem_nil, or_false] at known
  cases inner with
  | atom => rcases known with rfl | rfl <;> decide
  | level l => cases l <;> rcases within with deeper | ⟨same, _⟩ <;> contradiction
  | _ => rcases within with deeper | ⟨same, again⟩ <;> contradiction

/-! ### How a term starts -/

theorem identifier_no_symbol (identifier : Identifier) : identifier.name ∉ allSymbols := by
  have noStart : ∀ s ∈ allSymbols, s.toList.head?.any isNameStart = false := by decide
  intro symbol
  have not := noStart _ symbol
  rw [Identifier.name, String.toList_ofList, Identifier.text, List.head?_cons, Option.any_some, identifier.starts] at not
  cases not

/-- Symbols and words of the language. -/
abbrev AreOperators (symbols : List String) : Prop := ∀ s ∈ symbols, s ∈ wordOperators ∨ s ∈ allSymbols

theorem atSymbol_atom {symbols : List String} (operators : AreOperators symbols) (atom : Atom) (rest : List Token) :
    atSymbol? symbols (atom.word.token :: rest) = none := by
  cases atom with
  | name identifier free =>
    refine if_neg fun known => ?_
    rcases operators _ (List.contains_iff_mem.mp known) with word | symbol
    · exact free word
    · exact identifier_no_symbol identifier symbol
  | _ => rfl

/-- A word that starts an unsigned term. -/
def Word.Opens (word : Word) : Prop := word = .symbol "(" ∨ word = .symbol "[" ∨ ∃ atom : Atom, word = atom.word

theorem atSymbol_opens {symbols : List String} (operators : AreOperators symbols) (noParenthesis : "(" ∉ symbols)
    (noBracket : "[" ∉ symbols) {word : Word} (opens : word.Opens) (rest : List Token) :
    atSymbol? symbols (word.token :: rest) = none := by
  rcases opens with rfl | rfl | ⟨atom, rfl⟩
  · exact atSymbol_symbol noParenthesis rest
  · exact atSymbol_symbol noBracket rest
  · exact atSymbol_atom operators atom rest

theorem spells_start {rank : Rank} {term : Term} {words : List Word} : Spells rank term words →
    ∃ word further, words = word :: further ∧
      (word.Opens ∨ rank.depth ≤ 7 ∧ ∃ sign ∈ signs, word = operatorWord sign)
  | .tighter next spells => by
    obtain ⟨word, further, same, opens | ⟨loose, signed⟩⟩ := spells_start spells
    · exact ⟨word, further, same, .inl opens⟩
    · exact ⟨word, further, same, .inr ⟨by have := Rank.depth_tighter next; omega, signed⟩⟩
  | .parentheses _ => ⟨_, _, rfl, .inl (.inl rfl)⟩
  | .atom atom => ⟨_, _, rfl, .inl (.inr (.inr ⟨atom, rfl⟩))⟩
  | .emptyList => ⟨_, _, rfl, .inl (.inr (.inl rfl))⟩
  | .list _ => ⟨_, _, rfl, .inl (.inr (.inl rfl))⟩
  | .index spells _ => by
    obtain ⟨word, further, rfl, opens | ⟨loose, _⟩⟩ := spells_start spells
    · exact ⟨word, _, rfl, .inl opens⟩
    · exact absurd loose (by decide)
  | .power spells _ => by
    obtain ⟨word, further, rfl, opens | ⟨loose, _⟩⟩ := spells_start spells
    · exact ⟨word, _, rfl, .inl opens⟩
    · exact absurd loose (by decide)
  | @Spells.signed sign known _ _ _ => ⟨_, _, rfl, .inr ⟨by decide, sign, known, rfl⟩⟩
  | .binary spells _ => by
    obtain ⟨word, further, rfl, start⟩ := spells_start spells
    exact ⟨word, _, rfl, start⟩
  | .ternary spells _ _ => by
    obtain ⟨word, further, rfl, start⟩ := spells_start spells
    exact ⟨word, _, rfl, start.imp_right fun signed => ⟨by decide, signed.2⟩⟩

theorem unsigned_start {term : Term} {words : List Word} (spells : Spells .power term words) (rest : List Token) :
    atSymbol? signs (tokens words ++ rest) = none := by
  obtain ⟨word, further, rfl, opens | ⟨loose, _⟩⟩ := spells_start spells
  · exact atSymbol_opens (by decide) (by decide) (by decide) opens _
  · exact absurd loose (by decide)

theorem bracket_start {rank : Rank} {term : Term} {words : List Word} (spells : Spells rank term words)
    (rest : List Token) : atSymbol? ["]"] (tokens words ++ rest) = none := by
  obtain ⟨word, further, rfl, opens | ⟨_, sign, known, rfl⟩⟩ := spells_start spells
  · exact atSymbol_opens (by decide) (by decide) (by decide) opens _
  · have other : ∀ sign ∈ signs, sign ∉ ["]"] := by decide
    exact atSymbol_other (other sign known) _

/-! ### Words that spell a term are read as its value -/

section

variable (env : Environment)

def Rank.read : Rank → List Token → Reading
  | .ternary, rest => Read.ternary env rest
  | .level l, rest => Read.level env l rest
  | .signed, rest => Read.signed env rest
  | .power, rest => Read.power env rest
  | .indexed, rest => Read.indexed env rest
  | .atom, rest => Read.atom env rest

/-- What the reader of a rank does behind a first term of the rank. -/
def Rank.finish : Rank → Value → List Token → Reading
  | .level l, value, rest => Read.levelRest env l value rest
  | .indexed, value, rest => Read.indexes env value rest
  | _, value, rest => .ok (value, rest)

/-- The reader of the rank takes the words and has the value of the term. -/
def ReadAs (rank : Rank) (term : Term) (words : List Word) : Prop :=
  AllRead words → ∀ rest, Ends rank rest → rank.read env (tokens words ++ rest) = do rank.finish env (← term.value env) rest

end

variable {env : Environment}

theorem finish_ended (rank : Rank) {rest : List Token} (ended : atSymbol? rank.operators rest = none) (value : Value) :
    rank.finish env value rest = .ok (value, rest) := by
  cases rank with
  | level l =>
    show Read.levelRest env l value rest = _
    rw [Read.levelRest_eq, show atSymbol? l.symbols rest = none from ended]
  | indexed =>
    show Read.indexes env value rest = _
    rw [Read.indexes_eq, show atSymbol? ["["] rest = none from ended]
  | _ => rfl

/-- A term read where a looser one may stand, when nothing goes on behind it. -/
theorem read_tighter (rank : Rank) {inner : Rank} (tighter : rank.tighter = some inner) {term : Term} {words : List Word}
    (read : ReadAs env inner term words) (all : AllRead words) {rest : List Token} (ends : Ends rank rest) :
    inner.read env (tokens words ++ rest) = do return (← term.value env, rest) := by
  rw [read all rest (ends_tighter tighter ends)]
  exact bind_agree rfl fun value _ => finish_ended _ (ends_operators tighter ends) value

theorem readAs_ternary {term : Term} {words : List Word} (read : ReadAs env (.level .disjunction) term words) :
    ReadAs env .ternary term words := by
  intro all rest ends
  have at' : atSymbol? ["?"] rest = none := ends .ternary (.inr ⟨rfl, rfl⟩)
  show Read.ternary env (tokens words ++ rest) = _
  rw [Read.ternary_eq, show Read.level env .disjunction _ = _ from read_tighter .ternary rfl read all ends]
  simp only [bind_assoc, pure_bind, at']
  rfl

theorem readAs_level {level : Level} {term : Term} {words : List Word} (read : ReadAs env level.operandRank term words) :
    ReadAs env (.level level) term words := by
  intro all rest ends
  have operand : Read.operand env level (tokens words ++ rest) = do return (← term.value env, rest) := by
    rw [Read.operand_eq, ← read_tighter (.level level) rfl read all ends]
    cases level <;> rfl
  show Read.level env level (tokens words ++ rest) = _
  rw [Read.level_eq, operand]
  simp only [bind_assoc, pure_bind]
  rfl

theorem readAs_signed {term : Term} {words : List Word} (read : ReadAs env .power term words)
    (unsigned : ∀ rest, atSymbol? signs (tokens words ++ rest) = none) : ReadAs env .signed term words := by
  intro all rest ends
  show Read.signed env (tokens words ++ rest) = _
  rw [Read.signed_eq, show atSymbol? ["-", "+", "!", "not"] (tokens words ++ rest) = none from unsigned rest]
  exact read_tighter .signed rfl read all ends

theorem readAs_power {term : Term} {words : List Word} (read : ReadAs env .indexed term words) :
    ReadAs env .power term words := by
  intro all rest ends
  have at' : atSymbol? ["**"] rest = none := ends .power (.inr ⟨rfl, rfl⟩)
  show Read.power env (tokens words ++ rest) = _
  rw [Read.power_eq, show Read.indexed env _ = _ from read_tighter .power rfl read all ends]
  simp only [bind_assoc, pure_bind, at']
  rfl

theorem readAs_indexed {term : Term} {words : List Word} (read : ReadAs env .atom term words) :
    ReadAs env .indexed term words := by
  intro all rest ends
  have atom : Read.atom env (tokens words ++ rest) = do return (← term.value env, rest) :=
    read all rest (ends_tighter rfl ends)
  show Read.indexed env (tokens words ++ rest) = _
  rw [Read.indexed_eq, atom]
  simp only [bind_assoc, pure_bind]
  rfl

/-- A reading between brackets or before a mark: what closes it ends it. -/
theorem read_closed {term : Term} {words : List Word} (read : ReadAs env .ternary term words) (all : AllRead words)
    {closer : String} (closes : closer ∈ closers) (rest : List Token) :
    Read.ternary env (tokens words ++ .symbol closer :: rest) = do return (← term.value env, .symbol closer :: rest) :=
  read all _ (ends_closer closes _ rest)

@[simp] theorem expect_same (symbol : String) (rest : List Token) : expect symbol (.symbol symbol :: rest) = pure rest :=
  if_pos (beq_self_eq_true symbol)

theorem readAs_parentheses {term : Term} {words : List Word} (read : ReadAs env .ternary term words) :
    ReadAs env .atom term (.symbol "(" :: (words ++ [.symbol ")"])) := by
  intro all rest ends
  have inner := (allRead_append.mp (allRead_cons.mp all).2).1
  have split : tokens (.symbol "(" :: (words ++ [.symbol ")"])) ++ rest =
      .symbol "(" :: (tokens words ++ .symbol ")" :: rest) := by
    simp [Word.token]
  rw [split]
  show Read.atom env _ = do return (← term.value env, rest)
  rw [Read.atom_parentheses, read_closed read inner (by decide)]
  simp only [bind_assoc, pure_bind, expect_same]

theorem readName_nameValue (name : String) {rest : List Token} (ended : atSymbol? ["("] rest = none) :
    readName env name rest = do return (← nameValue env name, rest) := by
  unfold readName nameValue
  cases env.lookup name with
  | some value => rfl
  | none =>
    cases keyword? name with
    | some value => rfl
    | none =>
      rw [ended]
      rfl

theorem readAs_atom (atom : Atom) : ReadAs env .atom (.atom atom) [atom.word] := by
  intro all rest ends
  have reads := (allRead_cons.mp all).1
  show Read.atom env (atom.word.token :: rest) = do return (← Term.value env (.atom atom), rest)
  rw [Term.value]
  cases atom with
  | number numeral =>
    obtain ⟨value, known⟩ := reads
    show Read.atom env (.number _ :: rest) = do return (← numberValue numeral.text, rest)
    rw [Read.atom_number, known]
    rfl
  | quoted quotation => exact Read.atom_text env _ rest
  | hex word => exact Read.atom_text env _ rest
  | name identifier free =>
    refine (Read.atom_name env _ rest).trans (readName_nameValue _ ?_)
    exact ends .atom (.inr ⟨rfl, rfl⟩)

theorem readAs_emptyList : ReadAs env .atom (.list []) [.symbol "[", .symbol "]"] := by
  intro all rest ends
  show Read.atom env (.symbol "[" :: .symbol "]" :: rest) = _
  rw [Read.atom_list, Term.value, Term.values]
  rfl

/-- The reader of items takes the words up to the closing bracket. -/
def ItemsReadAs (env : Environment) (items : List Term) (words : List Word) : Prop :=
  AllRead words → ∀ rest, atSymbol? ["]"] (tokens words ++ .symbol "]" :: rest) = none ∧
    Read.items env (tokens words ++ .symbol "]" :: rest) = do return (← Term.values env items, .symbol "]" :: rest)

theorem readAs_list {items : List Term} {words : List Word} (read : ItemsReadAs env items words) :
    ReadAs env .atom (.list items) (.symbol "[" :: (words ++ [.symbol "]"])) := by
  intro all rest ends
  obtain ⟨opened, items⟩ := read (allRead_append.mp (allRead_cons.mp all).2).1 rest
  show Read.atom env (.symbol "[" :: (tokens (words ++ [.symbol "]"]) ++ rest)) = _
  rw [Read.atom_list, tokens_append, List.append_assoc]
  rw [show tokens [.symbol "]"] ++ rest = .symbol "]" :: rest from rfl, opened]
  dsimp only
  rw [items, Term.value]
  simp only [bind_assoc, pure_bind, expect_same]
  rfl

theorem atSymbol_same {symbols : List String} {symbol : String} (known : symbol ∈ symbols) (rest : List Token) :
    atSymbol? symbols (.symbol symbol :: rest) = some (symbol, rest) :=
  if_pos (List.contains_iff_mem.mpr known)

theorem readAs_index {value at' : Term} {words inner : List Word} (readValue : ReadAs env .indexed value words)
    (readAt : ReadAs env .ternary at' inner) :
    ReadAs env .indexed (.index value at') (words ++ .symbol "[" :: (inner ++ [.symbol "]"])) := by
  intro all rest ends
  have parts := allRead_append.mp all
  have inside := (allRead_append.mp (allRead_cons.mp parts.2).2).1
  have split : tokens (words ++ .symbol "[" :: (inner ++ [.symbol "]"])) ++ rest =
      tokens words ++ .symbol "[" :: (tokens inner ++ .symbol "]" :: rest) := by
    simp [Word.token]
  have further : ∀ v, Read.indexes env v (.symbol "[" :: (tokens inner ++ .symbol "]" :: rest)) = (do
      let i ← at'.value env
      let found ← indexValue v i
      Read.indexes env found rest) := by
    intro v
    rw [Read.indexes_eq, atSymbol_same (List.mem_singleton.mpr rfl)]
    dsimp only
    rw [read_closed readAt inside (by decide)]
    simp only [bind_assoc, pure_bind, expect_same]
  rw [split, readValue parts.1 _ (ends_indexed (by decide) _), Term.value]
  simp only [bind_assoc]
  exact bind_agree rfl fun v _ => further v

theorem atSymbol_nothing (rest : List Token) : atSymbol? [] rest = none := by
  unfold atSymbol?
  split <;> rfl

theorem ends_signed {rest : List Token} (ends : Ends .power rest) : Ends .signed rest := by
  intro inner within
  cases inner with
  | signed => exact atSymbol_nothing rest
  | power => exact ends .power (.inr ⟨rfl, rfl⟩)
  | indexed => exact ends .indexed (.inl (by decide))
  | atom => exact ends .atom (.inl (by decide))
  | level l => cases l <;> rcases within with deeper | ⟨same, _⟩ <;> contradiction
  | ternary => rcases within with deeper | ⟨same, _⟩ <;> contradiction

theorem readAs_power_operator {base exponent : Term} {words above : List Word} (readBase : ReadAs env .indexed base words)
    (readExponent : ReadAs env .signed exponent above) :
    ReadAs env .power (.power base exponent) (words ++ .symbol "**" :: above) := by
  intro all rest ends
  have parts := allRead_append.mp all
  have inside := (allRead_cons.mp parts.2).2
  have split : tokens (words ++ .symbol "**" :: above) ++ rest = tokens words ++ .symbol "**" :: (tokens above ++ rest) := by
    simp [Word.token]
  have base' : Read.indexed env (tokens words ++ .symbol "**" :: (tokens above ++ rest)) = do
      return (← base.value env, .symbol "**" :: (tokens above ++ rest)) := by
    refine (readBase parts.1 _ (ends_indexed (by decide) _)).trans (bind_agree rfl fun value _ => ?_)
    exact finish_ended .indexed (atSymbol_symbol (by decide) _) value
  have exponent' : Read.signed env (tokens above ++ rest) = do return (← exponent.value env, rest) :=
    readExponent inside rest (ends_signed ends)
  show Read.power env _ = do return (← Term.value env (.power base exponent), rest)
  rw [split, Read.power_eq, base', Term.value]
  simp only [bind_assoc, pure_bind, atSymbol_same (List.mem_singleton.mpr rfl), exponent']

theorem readAs_sign {sign : String} {known : sign ∈ signs} {operand : Term} {words : List Word}
    (read : ReadAs env .signed operand words) :
    ReadAs env .signed (.signed sign known operand) (operatorWord sign :: words) := by
  intro all rest ends
  have operand' : Read.signed env (tokens words ++ rest) = do return (← operand.value env, rest) :=
    read (allRead_cons.mp all).2 rest ends
  show Read.signed env ((operatorWord sign).token :: (tokens words ++ rest)) = do
    return (← Term.value env (.signed sign known operand), rest)
  rw [Read.signed_eq, show atSymbol? ["-", "+", "!", "not"] _ = _ from atSymbol_operator known _, Term.value]
  dsimp only
  rw [operand']
  simp only [bind_assoc, pure_bind]
  refine bind_agree rfl fun value _ => ?_
  unfold applySign
  split
  · rfl
  · split <;> rfl

theorem readAs_binary {level : Level} {operator : String} {known : operator ∈ level.symbols} {left right : Term}
    {before after : List Word} (readLeft : ReadAs env (.level level) left before)
    (readRight : ReadAs env level.operandRank right after) :
    ReadAs env (.level level) (.binary level operator known left right) (before ++ operatorWord operator :: after) := by
  intro all rest ends
  have parts := allRead_append.mp all
  have inside := (allRead_cons.mp parts.2).2
  have split : tokens (before ++ operatorWord operator :: after) ++ rest =
      tokens before ++ (operatorWord operator).token :: (tokens after ++ rest) := by
    simp
  have operand : Read.operand env level (tokens after ++ rest) = do return (← right.value env, rest) := by
    rw [Read.operand_eq, ← read_tighter (.level level) rfl readRight inside ends]
    cases level <;> rfl
  rw [split, readLeft parts.1 _ (ends_level known _), Term.value]
  simp only [bind_assoc]
  refine bind_agree rfl fun value _ => ?_
  show Read.levelRest env level value _ = _
  rw [Read.levelRest_eq, atSymbol_operator known]
  dsimp only
  rw [operand]
  simp only [bind_assoc, pure_bind]
  rfl

theorem readAs_ternary_operator {condition whenTrue whenFalse : Term} {first second third : List Word}
    (readFirst : ReadAs env (.level .disjunction) condition first) (readSecond : ReadAs env .ternary whenTrue second)
    (readThird : ReadAs env .ternary whenFalse third) :
    ReadAs env .ternary (.ternary condition whenTrue whenFalse)
      (first ++ .symbol "?" :: (second ++ .symbol ":" :: third)) := by
  intro all rest ends
  have parts := allRead_append.mp all
  have inside := allRead_append.mp (allRead_cons.mp parts.2).2
  have last := (allRead_cons.mp inside.2).2
  have split : tokens (first ++ .symbol "?" :: (second ++ .symbol ":" :: third)) ++ rest =
      tokens first ++ .symbol "?" :: (tokens second ++ .symbol ":" :: (tokens third ++ rest)) := by
    simp [Word.token]
  have condition' : Read.level env .disjunction (tokens first ++ .symbol "?" ::
      (tokens second ++ .symbol ":" :: (tokens third ++ rest))) = do
      return (← condition.value env, .symbol "?" :: (tokens second ++ .symbol ":" :: (tokens third ++ rest))) := by
    refine (readFirst parts.1 _ (ends_question _)).trans (bind_agree rfl fun value _ => ?_)
    exact finish_ended (.level .disjunction) (atSymbol_symbol (by decide) _) value
  have third' : Read.ternary env (tokens third ++ rest) = do return (← whenFalse.value env, rest) :=
    readThird last rest ends
  show Read.ternary env _ = do return (← Term.value env (.ternary condition whenTrue whenFalse), rest)
  rw [split, Read.ternary_eq, condition', Term.value]
  simp only [bind_assoc, pure_bind, atSymbol_same (List.mem_singleton.mpr rfl)]
  refine bind_agree rfl fun value _ => ?_
  rw [read_closed readSecond inside.1 (by decide)]
  simp only [bind_assoc, pure_bind, expect_same, third']

theorem readAs_last {item : Term} {words : List Word} (spells : Spells .ternary item words)
    (read : ReadAs env .ternary item words) : ItemsReadAs env [item] words := by
  intro all rest
  refine ⟨bracket_start spells _, ?_⟩
  rw [Read.items_eq, read_closed read all (by decide), Term.values, Term.values]
  simp only [bind_assoc, pure_bind, atSymbol_symbol (show "]" ∉ [","] by decide)]
  rfl

theorem readAs_more {item : Term} {rest : List Term} {words others : List Word} (spells : Spells .ternary item words)
    (read : ReadAs env .ternary item words) (readOthers : ItemsReadAs env rest others) :
    ItemsReadAs env (item :: rest) (words ++ .symbol "," :: others) := by
  intro all after
  have parts := allRead_append.mp all
  obtain ⟨_, others'⟩ := readOthers (allRead_cons.mp parts.2).2 after
  have split : tokens (words ++ .symbol "," :: others) ++ .symbol "]" :: after =
      tokens words ++ .symbol "," :: (tokens others ++ .symbol "]" :: after) := by
    simp [Word.token]
  rw [split]
  refine ⟨bracket_start spells _, ?_⟩
  rw [Read.items_eq, read_closed read parts.1 (by decide), Term.values]
  simp only [bind_assoc, pure_bind, atSymbol_same (List.mem_singleton.mpr rfl), others']

mutual
theorem spells_readAs (env : Environment) {rank : Rank} {term : Term} {words : List Word} :
    Spells rank term words → ReadAs env rank term words
  | .tighter next spells => by
    have read := spells_readAs env spells
    cases rank with
    | ternary =>
      cases next
      exact readAs_ternary read
    | level l =>
      cases next
      exact readAs_level read
    | signed =>
      cases next
      exact readAs_signed read (unsigned_start spells)
    | power =>
      cases next
      exact readAs_power read
    | indexed =>
      cases next
      exact readAs_indexed read
    | atom => cases next
  | .parentheses spells => readAs_parentheses (spells_readAs env spells)
  | .atom atom => readAs_atom atom
  | .emptyList => readAs_emptyList
  | .list spells => readAs_list (spells_itemsReadAs env spells)
  | .index value at' => readAs_index (spells_readAs env value) (spells_readAs env at')
  | .power base exponent => readAs_power_operator (spells_readAs env base) (spells_readAs env exponent)
  | .signed spells => readAs_sign (spells_readAs env spells)
  | .binary left right => readAs_binary (spells_readAs env left) (spells_readAs env right)
  | .ternary condition whenTrue whenFalse =>
    readAs_ternary_operator (spells_readAs env condition) (spells_readAs env whenTrue) (spells_readAs env whenFalse)

theorem spells_itemsReadAs (env : Environment) {items : List Term} {words : List Word} :
    SpellsItems items words → ItemsReadAs env items words
  | .last spells => readAs_last spells (spells_readAs env spells)
  | .more spells others => readAs_more spells (spells_readAs env spells) (spells_itemsReadAs env others)
end

theorem allRead_nil : AllRead [] := fun _ member => nomatch member

theorem allRead_symbol (symbol : String) : AllRead [.symbol symbol] := allRead_cons.mpr ⟨trivial, allRead_nil⟩

theorem reads_operatorWord (operator : String) : (operatorWord operator).Reads := by
  unfold operatorWord
  repeat' split
  all_goals trivial

theorem allRead_closed {words : List Word} (all : AllRead words) (symbol : String) :
    AllRead (words ++ [.symbol symbol]) := allRead_append.mpr ⟨all, allRead_symbol symbol⟩

mutual
/-- A term that has a value is spelled by words that are read. -/
theorem allRead_of_value (env : Environment) {rank : Rank} {term : Term} {words : List Word} :
    Spells rank term words → Sure (fun _ => AllRead words) (term.value env)
  | .tighter _ spells => allRead_of_value env spells
  | .parentheses spells => fun value known =>
    allRead_cons.mpr ⟨trivial, allRead_closed (allRead_of_value env spells value known) _⟩
  | .atom atom => by
    intro value known
    refine allRead_cons.mpr ⟨?_, allRead_nil⟩
    cases atom with
    | number numeral => exact ⟨value, by rwa [Term.value] at known⟩
    | _ => trivial
  | .emptyList => fun _ _ => allRead_cons.mpr ⟨trivial, allRead_symbol _⟩
  | .list spells => by
    rw [Term.value]
    exact sure_then (allRead_of_values env spells) fun _ inside =>
      sure_pure (allRead_cons.mpr ⟨trivial, allRead_closed inside _⟩)
  | .index of at' => by
    rw [Term.value]
    refine sure_then (allRead_of_value env of) fun _ before => sure_then (allRead_of_value env at') fun _ inside _ _ => ?_
    exact allRead_append.mpr ⟨before, allRead_cons.mpr ⟨trivial, allRead_closed inside _⟩⟩
  | .power base exponent => by
    rw [Term.value]
    refine sure_then (allRead_of_value env base) fun _ before =>
      sure_then (allRead_of_value env exponent) fun _ after _ _ => ?_
    exact allRead_append.mpr ⟨before, allRead_cons.mpr ⟨trivial, after⟩⟩
  | .signed spells => by
    rw [Term.value]
    exact sure_then (allRead_of_value env spells) fun _ after _ _ => allRead_cons.mpr ⟨reads_operatorWord _, after⟩
  | .binary left right => by
    rw [Term.value]
    refine sure_then (allRead_of_value env left) fun _ before =>
      sure_then (allRead_of_value env right) fun _ after _ _ => ?_
    exact allRead_append.mpr ⟨before, allRead_cons.mpr ⟨reads_operatorWord _, after⟩⟩
  | .ternary condition whenTrue whenFalse => by
    rw [Term.value]
    refine sure_then (allRead_of_value env condition) fun _ first =>
      sure_then (allRead_of_value env whenTrue) fun _ second =>
      sure_then (allRead_of_value env whenFalse) fun _ third => ?_
    refine sure_pure (allRead_append.mpr ⟨first, allRead_cons.mpr ⟨trivial, allRead_append.mpr ⟨second, ?_⟩⟩⟩)
    exact allRead_cons.mpr ⟨trivial, third⟩

theorem allRead_of_values (env : Environment) {items : List Term} {words : List Word} :
    SpellsItems items words → Sure (fun _ => AllRead words) (Term.values env items)
  | .last spells => by
    rw [Term.values]
    exact sure_then (allRead_of_value env spells) fun _ words => sure_bind fun _ _ => sure_pure words
  | .more spells others => by
    rw [Term.values]
    refine sure_then (allRead_of_value env spells) fun _ before =>
      sure_then (allRead_of_values env others) fun _ after => sure_pure ?_
    exact allRead_append.mpr ⟨before, allRead_cons.mpr ⟨trivial, after⟩⟩
end

/-! ### What is read was spelled -/

/-- Words as they are cut from a text: proper, and read. -/
def Lexical (words : List Word) : Prop := ∀ word ∈ words, word.Proper ∧ word.Reads

theorem lexical_append {first second : List Word} : Lexical (first ++ second) ↔ Lexical first ∧ Lexical second :=
  List.forall_mem_append

theorem lexical_cons {word : Word} {words : List Word} :
    Lexical (word :: words) ↔ (word.Proper ∧ word.Reads) ∧ Lexical words := List.forall_mem_cons

theorem operatorWord_symbol {symbol : String} (known : symbol ∈ allSymbols) : operatorWord symbol = .symbol symbol := by
  have others : ∀ s ∈ allSymbols, s ≠ "and" ∧ s ≠ "or" ∧ s ≠ "not" := by decide
  obtain ⟨notAnd, notOr, notNot⟩ := others symbol known
  rw [operatorWord, if_neg notAnd, if_neg notOr, if_neg notNot]

theorem identifier_unique {identifier other : Identifier} (same : identifier.name = other.name) : identifier = other := by
  have text := String.ofList_injective same
  cases identifier
  cases other
  simp only [Identifier.text, List.cons.injEq] at text
  obtain ⟨rfl, rfl⟩ := text
  rfl

theorem operatorWord_name {identifier : Identifier} (known : identifier.name ∈ wordOperators) :
    operatorWord identifier.name = .name identifier := by
  simp only [wordOperators, List.mem_cons, List.not_mem_nil, or_false] at known
  rcases known with same | same | same
  · rw [show identifier = andName from identifier_unique same]
    rfl
  · rw [show identifier = orName from identifier_unique same]
    rfl
  · rw [show identifier = notName from identifier_unique same]
    rfl

/-- An operator that a reader finds is a word of its own. -/
theorem found_operator {symbols : List String} (operators : AreOperators symbols) {words : List Word}
    (lexical : Lexical words) {operator : String} {rest : List Token}
    (found : atSymbol? symbols (tokens words) = some (operator, rest)) :
    operator ∈ symbols ∧ ∃ further, words = operatorWord operator :: further ∧ rest = tokens further := by
  cases words with
  | nil => cases found
  | cons word further =>
    have proper := (lexical_cons.mp lexical).1.1
    rw [tokens_cons] at found
    cases word with
    | symbol s =>
      simp only [Word.token, atSymbol?, Option.ite_none_right_eq_some, Option.some.injEq, Prod.mk.injEq] at found
      obtain ⟨known, rfl, rfl⟩ := found
      exact ⟨List.contains_iff_mem.mp known, further, by rw [operatorWord_symbol proper], rfl⟩
    | name identifier =>
      simp only [Word.token, atSymbol?, Option.ite_none_right_eq_some, Option.some.injEq, Prod.mk.injEq] at found
      obtain ⟨known, rfl, rfl⟩ := found
      have member := List.contains_iff_mem.mp known
      refine ⟨member, further, ?_, rfl⟩
      rcases operators _ member with word | symbol
      · rw [operatorWord_name word]
      · exact absurd symbol (identifier_no_symbol identifier)
    | _ => cases found

theorem found_symbol {symbol : String} (known : symbol ∈ allSymbols) {words : List Word} (lexical : Lexical words)
    {found : String} {rest : List Token} (at' : atSymbol? [symbol] (tokens words) = some (found, rest)) :
    ∃ further, words = .symbol symbol :: further ∧ rest = tokens further := by
  have operators : AreOperators [symbol] := fun s member => .inr (List.mem_singleton.mp member ▸ known)
  obtain ⟨member, further, same, rest⟩ := found_operator operators lexical at'
  rw [List.mem_singleton.mp member, operatorWord_symbol known] at same
  exact ⟨further, same, rest⟩

theorem never_expected {symbol : String} {token : Token} {rest : List Token} (other : ∀ s, token ≠ .symbol s) :
    Sure (fun _ => False) (expect symbol (token :: rest)) := by
  cases token with
  | symbol s => exact absurd rfl (other s)
  | _ => exact sure_bind fun _ _ => sure_throw _

theorem found_expected {symbol : String} {words : List Word} {rest : List Token}
    (expected : expect symbol (tokens words) = .ok rest) :
    ∃ further, words = .symbol symbol :: further ∧ rest = tokens further := by
  cases words with
  | nil => cases expected
  | cons word further =>
    cases word with
    | symbol s =>
      simp only [tokens_cons, Word.token, expect] at expected
      split at expected
      · rename_i same
        cases expected
        exact ⟨further, by rw [beq_iff_eq.mp same], rfl⟩
      · cases expected
    | _ => exact (never_expected (fun _ same => by cases same) rest expected).elim

/-- The words taken spell a term with the value that is read. -/
def Spelled (env : Environment) (rank : Rank) (words : List Word) (found : Value × List Token) : Prop :=
  ∃ term taken left, words = taken ++ left ∧ found.2 = tokens left ∧ Spells rank term taken ∧
    term.value env = .ok found.1

/-- The same behind words that already spell a term of the rank. -/
def SpelledFrom (env : Environment) (rank : Rank) (before words : List Word) (found : Value × List Token) : Prop :=
  ∃ term taken left, words = taken ++ left ∧ found.2 = tokens left ∧ Spells rank term (before ++ taken) ∧
    term.value env = .ok found.1

structure Sound (env : Environment) (fuel : Nat) : Prop where
  ternary : ∀ words, Lexical words → Sure (Spelled env .ternary words) (readTernary env fuel (tokens words))
  level : ∀ level words, Lexical words → Sure (Spelled env (.level level) words) (readLevel env fuel level (tokens words))
  levelRest : ∀ level left term before words, Lexical words → Spells (.level level) term before →
    term.value env = .ok left →
    Sure (SpelledFrom env (.level level) before words) (readLevelRest env fuel level left (tokens words))
  operand : ∀ level words, Lexical words →
    Sure (Spelled env level.operandRank words) (readOperand env fuel level (tokens words))
  signed : ∀ words, Lexical words → Sure (Spelled env .signed words) (readSigned env fuel (tokens words))
  power : ∀ words, Lexical words → Sure (Spelled env .power words) (readPower env fuel (tokens words))
  indexed : ∀ words, Lexical words → Sure (Spelled env .indexed words) (readPostfix env fuel (tokens words))
  indexes : ∀ value term before words, Lexical words → Spells .indexed term before → term.value env = .ok value →
    Sure (SpelledFrom env .indexed before words) (readIndexes env fuel value (tokens words))
  atom : ∀ words, Lexical words → Sure (Spelled env .atom words) (readAtom env fuel (tokens words))
  items : ∀ words, Lexical words → Sure (fun found => ∃ items taken left, words = taken ++ left ∧
    found.2 = tokens left ∧ SpellsItems items taken ∧ Term.values env items = .ok found.1)
    (readItems env fuel (tokens words))

section

variable {env : Environment} {fuel : Nat} (sound : Sound env fuel)

theorem spelled_looser {rank inner : Rank} (tighter : rank.tighter = some inner) {words : List Word}
    {found : Value × List Token} (spelled : Spelled env inner words found) : Spelled env rank words found := by
  obtain ⟨term, taken, left, same, rest, spells, value⟩ := spelled
  exact ⟨term, taken, left, same, rest, .tighter tighter spells, value⟩

include sound

theorem sound_ternary (words : List Word) (lexical : Lexical words) :
    Sure (Spelled env .ternary words) (readTernary env (fuel + 1) (tokens words)) := by
  rw [readTernary]
  refine sure_then (sound.level _ words lexical) ?_
  rintro ⟨condition, _⟩ ⟨first, taken, left, rfl, rfl, spellsFirst, valueFirst⟩
  dsimp only at valueFirst ⊢
  cases at' : atSymbol? ["?"] (tokens left) with
  | none => exact sure_pure ⟨first, taken, left, rfl, rfl, .tighter rfl spellsFirst, valueFirst⟩
  | some found =>
    have after := (lexical_append.mp lexical).2
    obtain ⟨further, rfl, same⟩ := found_symbol (by decide) after at'
    obtain ⟨_, rest⟩ := found
    dsimp only at same ⊢
    subst same
    refine sure_then (sound.ternary further (lexical_cons.mp after).2) ?_
    rintro ⟨whenTrue, _⟩ ⟨second, taken', left', rfl, rfl, spellsSecond, valueSecond⟩
    refine sure_bind fun rest expected => ?_
    obtain ⟨others, rfl, rfl⟩ := found_expected expected
    have last := (lexical_cons.mp (lexical_append.mp (lexical_cons.mp after).2).2).2
    refine sure_then (sound.ternary others last) ?_
    rintro ⟨whenFalse, _⟩ ⟨third, taken'', left'', rfl, rfl, spellsThird, valueThird⟩
    refine sure_pure ⟨.ternary first second third, taken ++ .symbol "?" :: (taken' ++ .symbol ":" :: taken''), left'',
      by simp, rfl, .ternary spellsFirst spellsSecond spellsThird, ?_⟩
    rw [Term.value, valueFirst, valueSecond, valueThird]
    rfl

theorem sound_levelRest (level : Level) (left : Value) (term : Term) (before words : List Word) (lexical : Lexical words)
    (spells : Spells (.level level) term before) (value : term.value env = .ok left) :
    Sure (SpelledFrom env (.level level) before words) (readLevelRest env (fuel + 1) level left (tokens words)) := by
  rw [readLevelRest]
  cases at' : atSymbol? level.symbols (tokens words) with
  | none => exact sure_ok ⟨term, [], words, rfl, rfl, by rwa [List.append_nil], value⟩
  | some found =>
    obtain ⟨operator, rest⟩ := found
    have operators : AreOperators level.symbols := by cases level <;> decide
    obtain ⟨known, further, rfl, rfl⟩ := found_operator operators lexical at'
    refine sure_then (sound.operand level further (lexical_cons.mp lexical).2) ?_
    rintro ⟨right, _⟩ ⟨operand, taken, left', rfl, rfl, spellsOperand, valueOperand⟩
    refine sure_bind fun joined applied => ?_
    have whole := @Spells.binary level operator known _ _ _ _ spells spellsOperand
    have last := (lexical_append.mp (lexical_cons.mp lexical).2).2
    refine fun found read => ?_
    obtain ⟨term', taken', left'', rfl, rest, spells', value'⟩ := sound.levelRest level joined _ _ left' last whole
      (by rw [Term.value, value, valueOperand]; exact applied) found read
    refine ⟨term', operatorWord operator :: (taken ++ taken'), left'', by simp, rest, ?_, value'⟩
    simpa using spells'

theorem sound_signed (words : List Word) (lexical : Lexical words) :
    Sure (Spelled env .signed words) (readSigned env (fuel + 1) (tokens words)) := by
  rw [readSigned]
  cases at' : atSymbol? ["-", "+", "!", "not"] (tokens words) with
  | none => exact fun found read => spelled_looser rfl (sound.power words lexical found read)
  | some found =>
    obtain ⟨sign, rest⟩ := found
    obtain ⟨known, further, rfl, rfl⟩ := found_operator (show AreOperators signs by decide) lexical at'
    refine sure_then (sound.signed further (lexical_cons.mp lexical).2) ?_
    rintro ⟨value, _⟩ ⟨operand, taken, left, rfl, rfl, spells, valueOperand⟩
    have whole := @Spells.signed sign known _ _ spells
    have applied : Sure (fun result => Term.value env (.signed sign known operand) = .ok result) (applySign sign value) := by
      intro result same
      show Term.value env (.signed sign known operand) = .ok result
      rw [Term.value, valueOperand]
      exact same
    dsimp only
    unfold applySign at applied
    split
    · rename_i minus
      rw [if_pos minus] at applied
      refine sure_then applied fun result known => sure_pure ⟨_, _, left, ?_, rfl, whole, known⟩
      rfl
    · rename_i minus
      rw [if_neg minus] at applied
      split
      · rename_i plus
        rw [if_pos plus] at applied
        exact sure_pure ⟨_, _, left, rfl, rfl, whole, applied _ rfl⟩
      · rename_i plus
        rw [if_neg plus] at applied
        exact sure_pure ⟨_, _, left, rfl, rfl, whole, applied _ rfl⟩

theorem sound_power (words : List Word) (lexical : Lexical words) :
    Sure (Spelled env .power words) (readPower env (fuel + 1) (tokens words)) := by
  rw [readPower]
  refine sure_then (sound.indexed words lexical) ?_
  rintro ⟨base, _⟩ ⟨term, taken, left, rfl, rfl, spells, value⟩
  dsimp only at value ⊢
  cases at' : atSymbol? ["**"] (tokens left) with
  | none => exact sure_pure ⟨term, taken, left, rfl, rfl, .tighter rfl spells, value⟩
  | some found =>
    have after := (lexical_append.mp lexical).2
    obtain ⟨further, rfl, same⟩ := found_symbol (by decide) after at'
    obtain ⟨_, rest⟩ := found
    dsimp only at same ⊢
    subst same
    refine sure_then (sound.signed further (lexical_cons.mp after).2) ?_
    rintro ⟨exponent, _⟩ ⟨above, taken', left', rfl, rfl, spellsAbove, valueAbove⟩
    refine sure_bind fun result raised => sure_pure ?_
    refine ⟨.power term above, taken ++ .symbol "**" :: taken', left', by simp, rfl, .power spells spellsAbove, ?_⟩
    rw [Term.value, value, valueAbove]
    exact raised

theorem sound_indexes (value : Value) (term : Term) (before words : List Word) (lexical : Lexical words)
    (spells : Spells .indexed term before) (known : term.value env = .ok value) :
    Sure (SpelledFrom env .indexed before words) (readIndexes env (fuel + 1) value (tokens words)) := by
  rw [readIndexes]
  cases at' : atSymbol? ["["] (tokens words) with
  | none => exact sure_ok ⟨term, [], words, rfl, rfl, by rwa [List.append_nil], known⟩
  | some found =>
    obtain ⟨further, rfl, same⟩ := found_symbol (by decide) lexical at'
    obtain ⟨_, rest⟩ := found
    dsimp only at same ⊢
    subst same
    refine sure_then (sound.ternary further (lexical_cons.mp lexical).2) ?_
    rintro ⟨position, _⟩ ⟨inner, taken, left, rfl, rfl, spellsInner, valueInner⟩
    refine sure_bind fun rest expected => ?_
    obtain ⟨others, rfl, rfl⟩ := found_expected expected
    refine sure_bind fun item indexed => ?_
    have whole := Spells.index spells spellsInner
    have last := (lexical_cons.mp (lexical_append.mp (lexical_cons.mp lexical).2).2).2
    refine fun found read => ?_
    obtain ⟨term', taken', left', rfl, rest, spells', value'⟩ := sound.indexes item _ _ others last whole
      (by rw [Term.value, known, valueInner]; exact indexed) found read
    refine ⟨term', .symbol "[" :: (taken ++ .symbol "]" :: taken'), left', by simp, rest, ?_, value'⟩
    simpa using spells'

theorem sound_atom (unbound : ∀ word ∈ wordOperators, env.lookup word = none) (words : List Word)
    (lexical : Lexical words) : Sure (Spelled env .atom words) (readAtom env (fuel + 1) (tokens words)) := by
  have atomic (atom : Atom) (further : List Word) (value : Value) (known : atom.value env = .ok value) :
      Spelled env .atom (atom.word :: further) (value, tokens further) :=
    ⟨.atom atom, [atom.word], further, rfl, rfl, .atom atom, by rwa [Term.value]⟩
  cases words with
  | nil => exact sure_bind fun _ _ => sure_throw _
  | cons word further =>
    obtain ⟨⟨proper, reads⟩, after⟩ := lexical_cons.mp lexical
    cases word with
    | number numeral =>
      obtain ⟨value, known⟩ := reads
      refine sure_ok (atomic (.number numeral) further _ ?_)
      rw [known]
      exact known
    | quoted quotation => exact sure_ok (atomic (.quoted quotation) further _ rfl)
    | hex hexWord => exact sure_ok (atomic (.hex hexWord) further _ rfl)
    | name identifier =>
      intro found read
      have free : identifier.name ∉ wordOperators := by
        intro word
        have noKeyword : ∀ w ∈ wordOperators, keyword? w = none := by decide
        replace read : readName env identifier.name (tokens further) = .ok found := read
        rw [readName, unbound _ word, noKeyword _ word] at read
        dsimp only at read
        split at read <;> cases read
      have known : Sure (Spelled env .atom (.name identifier :: further)) (readName env identifier.name (tokens further)) := by
        unfold readName
        split
        · rename_i value bound
          exact sure_ok (atomic (.name identifier free) further value (by rw [Atom.value, nameValue, bound]))
        · rename_i missing
          split
          · rename_i value keyword
            exact sure_ok (atomic (.name identifier free) further value (by rw [Atom.value, nameValue, missing, keyword]))
          · split
            · exact sure_error _
            · exact sure_error _
      exact known found read
    | symbol s =>
      rw [readAtom.eq_def]
      dsimp only
      split
      · rename_i same
        cases same
      · rename_i same
        cases same
      · rename_i same
        cases same
      · rename_i rest same
        cases same
        refine sure_then (sound.ternary further after) ?_
        rintro ⟨value, _⟩ ⟨term, taken, left, rfl, rfl, spells, known⟩
        refine sure_bind fun rest expected => sure_pure ?_
        obtain ⟨others, rfl, rfl⟩ := found_expected expected
        exact ⟨term, .symbol "(" :: (taken ++ [.symbol ")"]), others, by simp, rfl, .parentheses spells, known⟩
      · rename_i rest same
        cases same
        cases at' : atSymbol? ["]"] (List.map Word.token further) with
        | some found =>
          obtain ⟨others, rfl, same⟩ := found_symbol (by decide) after at'
          obtain ⟨_, rest⟩ := found
          dsimp only at same ⊢
          subst same
          exact sure_ok ⟨.list [], [.symbol "[", .symbol "]"], others, rfl, rfl, .emptyList, rfl⟩
        | none =>
          refine sure_then (sound.items further after) ?_
          rintro ⟨values, _⟩ ⟨items, taken, left, rfl, rfl, spells, known⟩
          refine sure_bind fun rest expected => sure_pure ?_
          obtain ⟨others, rfl, rfl⟩ := found_expected expected
          refine ⟨.list items, .symbol "[" :: (taken ++ [.symbol "]"]), others, by simp, rfl, .list spells, ?_⟩
          rw [Term.value, known]
          rfl
      · exact sure_bind fun _ _ => sure_throw _

theorem sound_items (words : List Word) (lexical : Lexical words) :
    Sure (fun found => ∃ items taken left, words = taken ++ left ∧ found.2 = tokens left ∧ SpellsItems items taken ∧
      Term.values env items = .ok found.1) (readItems env (fuel + 1) (tokens words)) := by
  rw [readItems]
  refine sure_then (sound.ternary words lexical) ?_
  rintro ⟨first, _⟩ ⟨item, taken, left, rfl, rfl, spells, value⟩
  dsimp only at value ⊢
  cases at' : atSymbol? [","] (tokens left) with
  | none =>
    refine sure_pure ⟨[item], taken, left, rfl, rfl, .last spells, ?_⟩
    rw [Term.values, value]
    rfl
  | some found =>
    have after := (lexical_append.mp lexical).2
    obtain ⟨further, rfl, same⟩ := found_symbol (by decide) after at'
    obtain ⟨_, rest⟩ := found
    dsimp only at same ⊢
    subst same
    refine sure_then (sound.items further (lexical_cons.mp after).2) ?_
    rintro ⟨values, _⟩ ⟨items, taken', left', rfl, rfl, spells', values'⟩
    refine sure_pure ⟨item :: items, taken ++ .symbol "," :: taken', left', by simp, rfl, .more spells spells', ?_⟩
    rw [Term.values, value, values']
    rfl

end

theorem sound_readers {env : Environment} (unbound : ∀ word ∈ wordOperators, env.lookup word = none) (fuel : Nat) :
    Sound env fuel := by
  induction fuel with
  | zero => constructor <;> intros <;> exact sure_error _
  | succ fuel ih =>
    exact
      { ternary := sound_ternary ih
        level := fun level words lexical => by
          rw [readLevel]
          refine sure_then (ih.operand level words lexical) ?_
          rintro ⟨left, _⟩ ⟨term, taken, rest, rfl, rfl, spells, value⟩
          intro found read
          obtain ⟨term', taken', left', rfl, same, spells', value'⟩ := ih.levelRest level left term taken rest
            (lexical_append.mp lexical).2 (.tighter rfl spells) value found read
          exact ⟨term', taken ++ taken', left', by simp, same, spells', value'⟩
        levelRest := sound_levelRest ih
        operand := fun level words lexical => by
          rw [readOperand, Level.operandRank]
          cases level.tighter with
          | some inner => exact ih.level inner words lexical
          | none => exact ih.signed words lexical
        signed := sound_signed ih
        power := sound_power ih
        indexed := fun words lexical => by
          rw [readPostfix]
          refine sure_then (ih.atom words lexical) ?_
          rintro ⟨value, _⟩ ⟨term, taken, rest, rfl, rfl, spells, known⟩
          intro found read
          obtain ⟨term', taken', left', rfl, same, spells', value'⟩ := ih.indexes value term taken rest
            (lexical_append.mp lexical).2 (.tighter rfl spells) known found read
          exact ⟨term', taken ++ taken', left', by simp, same, spells', value'⟩
        indexes := sound_indexes ih
        atom := sound_atom ih unbound
        items := sound_items ih }

/-- Evaluating the words of a term gives its strict value. -/
theorem evaluateTokens_spelled (env : Environment) {term : Term} {words : List Word} (spells : Spells .ternary term words)
    (all : AllRead words) : evaluateTokens env (tokens words) = term.value env := by
  have some : (tokens words).isEmpty = false := by
    obtain ⟨word, further, rfl, _⟩ := spells_start spells
    rfl
  have read : readTernary env (readingFuel (tokens words).length) (tokens words) = do return (← term.value env, []) := by
    have whole := spells_readAs env spells all [] (ends_nil _)
    rwa [List.append_nil] at whole
  rw [evaluateTokens, some, if_neg Bool.false_ne_true, read]
  simp only [bind_assoc, pure_bind]
  exact bind_pure _

/-- Words that have a value spell a term with that value. -/
theorem spelled_evaluateTokens {env : Environment} (unbound : ∀ word ∈ wordOperators, env.lookup word = none)
    {words : List Word} (lexical : Lexical words) {value : Value}
    (evaluated : evaluateTokens env (tokens words) = .ok value) :
    ∃ term, Spells .ternary term words ∧ term.value env = .ok value := by
  have spelled : Sure (fun value => ∃ term, Spells .ternary term words ∧ term.value env = .ok value)
      (evaluateTokens env (tokens words)) := by
    unfold evaluateTokens
    split
    · exact sure_error _
    · refine sure_then ((sound_readers unbound _).ternary words lexical) ?_
      rintro ⟨value, _⟩ ⟨term, taken, left, rfl, rfl, spells, known⟩
      dsimp only
      cases left with
      | nil => exact sure_pure ⟨term, by rwa [List.append_nil], known⟩
      | cons word further => exact sure_bind fun _ _ => sure_throw _
  exact spelled value evaluated

end ProceduralScene.Expression
