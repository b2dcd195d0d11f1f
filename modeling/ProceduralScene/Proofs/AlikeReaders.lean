import Mathlib.Data.List.Forall2
import ProceduralScene.Proofs.Readers

/-!
Readers on alike tokens. Two environments may name one value differently; a reading of tokens in one is then a reading
of the alike tokens in the other, also in front of a closing parenthesis.
-/

set_option autoImplicit false

namespace ProceduralScene.Expression

/-- Tokens that are read alike: the same token, or two names of one value that are no operators. -/
inductive Alike (env env' : Environment) : Token → Token → Prop
  | same {token : Token} : (∀ s, token = .name s → env.lookup s = env'.lookup s) → Alike env env' token token
  | kept {s s' : String} {v : Value} : env.lookup s = some v → env'.lookup s' = some v → s.toList.head? = some '_' →
      s'.toList.head? = some '_' → Alike env env' (.name s) (.name s')

abbrev AllAlike (env env' : Environment) : List Token → List Token → Prop := List.Forall₂ (Alike env env')

/-- Nothing follows, or a closing parenthesis. -/
def Closes (more : List Token) : Prop := more = [] ∨ ∃ rest, more = .symbol ")" :: rest

/-- Symbols that are neither names of values nor a closing parenthesis. -/
def Operators (symbols : List String) : Prop := ∀ s ∈ symbols, s.toList.head? ≠ some '_' ∧ s ≠ ")"

theorem operators_level (level : Level) : Operators level.symbols := by
  cases level <;> exact by unfold Operators Level.symbols; decide

variable {env env' : Environment} {more : List Token}

section

variable {symbols : List String} (operators : Operators symbols) (closes : Closes more) {tokens tokens' : List Token}
  (alike : AllAlike env env' tokens tokens')

include operators

theorem no_operator {s : String} (kept : s.toList.head? = some '_') : symbols.contains s = false := by
  refine Bool.eq_false_iff.mpr fun member => ?_
  exact (operators s (List.contains_iff_mem.mp member)).1 kept

include closes alike

theorem atSymbol_alike : (atSymbol? symbols tokens = none ∧ atSymbol? symbols (tokens' ++ more) = none) ∨
    ∃ s rest rest', atSymbol? symbols tokens = some (s, rest) ∧ atSymbol? symbols (tokens' ++ more) = some (s, rest' ++ more) ∧
      AllAlike env env' rest rest' := by
  cases alike with
  | nil =>
    refine .inl ⟨rfl, ?_⟩
    rcases closes with rfl | ⟨rest, rfl⟩
    · rfl
    · have other : symbols.contains ")" = false := by
        refine Bool.eq_false_iff.mpr fun member => ?_
        exact (operators _ (List.contains_iff_mem.mp member)).2 rfl
      simp only [List.nil_append, atSymbol?, other, Bool.false_eq_true, if_false]
  | @cons token token' rest rest' first further =>
    cases first with
    | kept _ _ name name' =>
      simp only [List.cons_append, atSymbol?, no_operator operators name, no_operator operators name', Bool.false_eq_true, if_false]
      exact .inl ⟨trivial, trivial⟩
    | same _ =>
      cases token with
      | number _ | text _ => exact .inl ⟨rfl, rfl⟩
      | name s | symbol s =>
        simp only [List.cons_append, atSymbol?]
        split
        · exact .inr ⟨s, rest, rest', rfl, rfl, further⟩
        · exact .inl ⟨rfl, rfl⟩

end

/-! ### Readings that follow each other -/

/-- What the first reading reads, the second reads in front of `more`. -/
def Follows (env env' : Environment) (more : List Token) {α : Type} (reading reading' : Except Failure (α × List Token)) : Prop :=
  ∀ found rest, reading = .ok (found, rest) →
    ∃ rest', AllAlike env env' rest rest' ∧ reading' = .ok (found, rest' ++ more)

section

variable {α β : Type}

theorem follows_error (failure : Failure) (reading' : Except Failure (α × List Token)) :
    Follows env env' more (.error failure) reading' := fun _ _ same => nomatch same

theorem follows_ok {found : α} {rest rest' : List Token} (alike : AllAlike env env' rest rest') :
    Follows env env' more (.ok (found, rest)) (.ok (found, rest' ++ more)) := by
  intro _ _ same
  cases same
  exact ⟨rest', alike, rfl⟩

theorem follows_bind {reading reading' : Except Failure (α × List Token)} {next next' : α × List Token → Except Failure (β × List Token)}
    (follows : Follows env env' more reading reading') (further : ∀ found rest rest', AllAlike env env' rest rest' →
      Follows env env' more (next (found, rest)) (next' (found, rest' ++ more))) :
    Follows env env' more (reading >>= next) (reading' >>= next') := by
  cases reading with
  | error failure => exact follows_error failure _
  | ok pair =>
    obtain ⟨rest', alike, same⟩ := follows pair.1 pair.2 rfl
    rw [same]
    exact further pair.1 pair.2 rest' alike

theorem follows_value {value : Except Failure α} {next next' : α → Except Failure (β × List Token)}
    (further : ∀ found, Follows env env' more (next found) (next' found)) :
    Follows env env' more (value >>= next) (value >>= next') := by
  cases value with
  | error failure => exact follows_error failure _
  | ok found => exact further found

theorem follows_expect {symbol : String} {tokens tokens' : List Token} (alike : AllAlike env env' tokens tokens')
    {next next' : List Token → Except Failure (β × List Token)} (further : ∀ rest rest', AllAlike env env' rest rest' →
      Follows env env' more (next rest) (next' (rest' ++ more))) :
    Follows env env' more (expect symbol tokens >>= next) (expect symbol (tokens' ++ more) >>= next') := by
  have failed : ∀ tokens : List Token, (∀ s rest, tokens ≠ .symbol s :: rest) →
      ∃ failure, expect symbol tokens = .error failure := by
    intro tokens other
    unfold expect
    split
    · exact absurd rfl (other _ _)
    · cases Token.shown tokens.head? with
      | error failure => exact ⟨failure, rfl⟩
      | ok text => exact ⟨_, rfl⟩
  cases alike with
  | nil =>
    obtain ⟨failure, same⟩ := failed [] (by intro _ _ same; cases same)
    rw [same]
    exact follows_error failure _
  | @cons token token' rest rest' first others =>
    cases first with
    | @kept s s' v _ _ _ _ =>
      obtain ⟨failure, same⟩ := failed (.name s :: rest) (by intro _ _ same; cases same)
      rw [same]
      exact follows_error failure _
    | same _ =>
      cases token with
      | symbol s =>
        simp only [List.cons_append, expect]
        split
        · exact further rest rest' others
        · exact follows_error _ _
      | number value =>
        obtain ⟨failure, same⟩ := failed (.number value :: rest) (by intro _ _ same; cases same)
        rw [same]
        exact follows_error failure _
      | text s =>
        obtain ⟨failure, same⟩ := failed (.text s :: rest) (by intro _ _ same; cases same)
        rw [same]
        exact follows_error failure _
      | name s =>
        obtain ⟨failure, same⟩ := failed (.name s :: rest) (by intro _ _ same; cases same)
        rw [same]
        exact follows_error failure _

end

/-- With a bound at least as large, every reader reads the alike tokens as it reads the tokens. -/
structure Simulates (env env' : Environment) (more : List Token) (fuel : Nat) : Prop where
  ternary : ∀ {fuel' : Nat} {tokens tokens' : List Token}, fuel ≤ fuel' → AllAlike env env' tokens tokens' →
    Follows env env' more (readTernary env fuel tokens) (readTernary env' fuel' (tokens' ++ more))
  level : ∀ {fuel' : Nat} {tokens tokens' : List Token} (level : Level), fuel ≤ fuel' →
    AllAlike env env' tokens tokens' →
    Follows env env' more (readLevel env fuel level tokens) (readLevel env' fuel' level (tokens' ++ more))
  levelRest : ∀ {fuel' : Nat} {tokens tokens' : List Token} (level : Level) (left : Value), fuel ≤ fuel' →
    AllAlike env env' tokens tokens' →
    Follows env env' more (readLevelRest env fuel level left tokens) (readLevelRest env' fuel' level left (tokens' ++ more))
  operand : ∀ {fuel' : Nat} {tokens tokens' : List Token} (level : Level), fuel ≤ fuel' →
    AllAlike env env' tokens tokens' →
    Follows env env' more (readOperand env fuel level tokens) (readOperand env' fuel' level (tokens' ++ more))
  signed : ∀ {fuel' : Nat} {tokens tokens' : List Token}, fuel ≤ fuel' → AllAlike env env' tokens tokens' →
    Follows env env' more (readSigned env fuel tokens) (readSigned env' fuel' (tokens' ++ more))
  power : ∀ {fuel' : Nat} {tokens tokens' : List Token}, fuel ≤ fuel' → AllAlike env env' tokens tokens' →
    Follows env env' more (readPower env fuel tokens) (readPower env' fuel' (tokens' ++ more))
  indexed : ∀ {fuel' : Nat} {tokens tokens' : List Token}, fuel ≤ fuel' → AllAlike env env' tokens tokens' →
    Follows env env' more (readPostfix env fuel tokens) (readPostfix env' fuel' (tokens' ++ more))
  indexes : ∀ {fuel' : Nat} {tokens tokens' : List Token} (value : Value), fuel ≤ fuel' →
    AllAlike env env' tokens tokens' →
    Follows env env' more (readIndexes env fuel value tokens) (readIndexes env' fuel' value (tokens' ++ more))
  atom : ∀ {fuel' : Nat} {tokens tokens' : List Token}, fuel ≤ fuel' → AllAlike env env' tokens tokens' →
    Follows env env' more (readAtom env fuel tokens) (readAtom env' fuel' (tokens' ++ more))
  items : ∀ {fuel' : Nat} {tokens tokens' : List Token}, fuel ≤ fuel' → AllAlike env env' tokens tokens' →
    Follows env env' more (readItems env fuel tokens) (readItems env' fuel' (tokens' ++ more))

section

variable {fuel fuel' : Nat} (simulates : Simulates env env' more fuel) (closes : Closes more)
  (shown : env.nodeText = env'.nodeText) (enough : fuel ≤ fuel') {tokens tokens' : List Token}
  (alike : AllAlike env env' tokens tokens')

include simulates closes enough alike

theorem follows_ternary : Follows env env' more (readTernary env (fuel + 1) tokens)
    (readTernary env' (fuel' + 1) (tokens' ++ more)) := by
  rw [readTernary, readTernary]
  refine follows_bind (simulates.level .disjunction enough alike) fun condition rest rest' alike => ?_
  dsimp only
  rcases atSymbol_alike (show Operators ["?"] by unfold Operators; decide) closes alike with
    ⟨none, none'⟩ | ⟨s, rest, rest', at', at'', alike⟩
  · rw [none, none']
    exact follows_ok alike
  · rw [at', at'']
    refine follows_bind (simulates.ternary enough alike) fun whenTrue rest rest' alike => ?_
    refine follows_expect alike fun rest rest' alike => ?_
    exact follows_bind (simulates.ternary enough alike) fun whenFalse rest rest' alike => follows_ok alike

theorem follows_signed : Follows env env' more (readSigned env (fuel + 1) tokens)
    (readSigned env' (fuel' + 1) (tokens' ++ more)) := by
  rw [readSigned, readSigned]
  rcases atSymbol_alike (show Operators ["-", "+", "!", "not"] by unfold Operators; decide) closes alike with
    ⟨none, none'⟩ | ⟨s, rest, rest', at', at'', alike⟩
  · rw [none, none']
    exact simulates.power enough alike
  · rw [at', at'']
    refine follows_bind (simulates.signed enough alike) fun value rest rest' alike => ?_
    dsimp only
    split
    · exact follows_value fun negated => follows_ok alike
    · split
      · exact follows_ok alike
      · exact follows_ok alike

theorem follows_power : Follows env env' more (readPower env (fuel + 1) tokens)
    (readPower env' (fuel' + 1) (tokens' ++ more)) := by
  rw [readPower, readPower]
  refine follows_bind (simulates.indexed enough alike) fun base rest rest' alike => ?_
  dsimp only
  rcases atSymbol_alike (show Operators ["**"] by unfold Operators; decide) closes alike with
    ⟨none, none'⟩ | ⟨s, rest, rest', at', at'', alike⟩
  · rw [none, none']
    exact follows_ok alike
  · rw [at', at'']
    refine follows_bind (simulates.signed enough alike) fun exponent rest rest' alike => ?_
    exact follows_value fun power => follows_ok alike

theorem follows_indexes (value : Value) : Follows env env' more (readIndexes env (fuel + 1) value tokens)
    (readIndexes env' (fuel' + 1) value (tokens' ++ more)) := by
  rw [readIndexes, readIndexes]
  rcases atSymbol_alike (show Operators ["["] by unfold Operators; decide) closes alike with
    ⟨none, none'⟩ | ⟨s, rest, rest', at', at'', alike⟩
  · rw [none, none']
    exact follows_ok alike
  · rw [at', at'']
    refine follows_bind (simulates.ternary enough alike) fun index rest rest' alike => ?_
    refine follows_expect alike fun rest rest' alike => ?_
    exact follows_value fun found => simulates.indexes found enough alike

theorem follows_items : Follows env env' more (readItems env (fuel + 1) tokens)
    (readItems env' (fuel' + 1) (tokens' ++ more)) := by
  rw [readItems, readItems]
  refine follows_bind (simulates.ternary enough alike) fun first rest rest' alike => ?_
  dsimp only
  rcases atSymbol_alike (show Operators [","] by unfold Operators; decide) closes alike with
    ⟨none, none'⟩ | ⟨s, rest, rest', at', at'', alike⟩
  · rw [none, none']
    exact follows_ok alike
  · rw [at', at'']
    exact follows_bind (simulates.items enough alike) fun items rest rest' alike => follows_ok alike

include shown in
theorem follows_levelRest (level : Level) (left : Value) : Follows env env' more (readLevelRest env (fuel + 1) level left tokens)
    (readLevelRest env' (fuel' + 1) level left (tokens' ++ more)) := by
  rw [readLevelRest, readLevelRest]
  rcases atSymbol_alike (operators_level level) closes alike with ⟨none, none'⟩ | ⟨s, rest, rest', at', at'', alike⟩
  · rw [none, none']
    exact follows_ok alike
  · rw [at', at'', ← shown]
    refine follows_bind (simulates.operand level enough alike) fun right rest rest' alike => ?_
    exact follows_value fun found => simulates.levelRest level found enough alike

theorem follows_atom : Follows env env' more (readAtom env (fuel + 1) tokens)
    (readAtom env' (fuel' + 1) (tokens' ++ more)) := by
  have refused : ∀ {tokens : List Token} {reading : Reading},
      Follows env env' more (do throw (.expression (.unexpectedToken (← Token.shown tokens.head?)))) reading := by
    intro tokens reading
    cases Token.shown tokens.head? <;> exact follows_error _ _
  cases alike with
  | nil => exact refused
  | @cons token token' rest rest' first alike =>
    cases first with
    | @kept s s' v known known' _ _ =>
      rw [List.cons_append, readAtom, readAtom, readName, readName, known, known']
      exact follows_ok alike
    | same names =>
      rw [List.cons_append]
      cases token with
      | number value | text s =>
        rw [readAtom, readAtom]
        exact follows_ok alike
      | name s =>
        rw [readAtom, readAtom, readName, readName, names s rfl]
        cases env'.lookup s with
        | some value => exact follows_ok alike
        | none =>
          cases keyword? s with
          | some value => exact follows_ok alike
          | none =>
            dsimp only
            split <;> exact follows_error _ _
      | symbol s =>
        by_cases round : s = "("
        · subst round
          rw [readAtom, readAtom]
          refine follows_bind (simulates.ternary enough alike) fun value rest rest' alike => ?_
          exact follows_expect alike fun rest rest' alike => follows_ok alike
        · by_cases square : s = "["
          · subst square
            rw [readAtom, readAtom]
            rcases atSymbol_alike (show Operators ["]"] by unfold Operators; decide) closes alike with
              ⟨none, none'⟩ | ⟨s, rest, rest', at', at'', alike⟩
            · rw [none, none']
              refine follows_bind (simulates.items enough alike) fun items rest rest' alike => ?_
              exact follows_expect alike fun rest rest' alike => follows_ok alike
            · rw [at', at'']
              exact follows_ok alike
          · rw [readAtom.eq_def]
            dsimp only
            split
            · rename_i same
              cases same
            · rename_i same
              cases same
            · rename_i same
              cases same
            · rename_i same
              cases same
              exact absurd rfl round
            · rename_i same
              cases same
              exact absurd rfl square
            · exact refused

end

theorem simulates_readers (closes : Closes more) (shown : env.nodeText = env'.nodeText) (fuel : Nat) :
    Simulates env env' more fuel := by
  induction fuel with
  | zero => constructor <;> intros <;> exact follows_error _ _
  | succ fuel ih =>
    have further : ∀ {fuel' : Nat}, fuel + 1 ≤ fuel' → ∃ inner, fuel' = inner + 1 ∧ fuel ≤ inner := by
      intro fuel' enough
      cases fuel' with
      | zero => cases enough
      | succ inner => exact ⟨inner, rfl, Nat.le_of_succ_le_succ enough⟩
    constructor
    case ternary =>
      intro fuel' tokens tokens' enough alike
      obtain ⟨inner, rfl, less⟩ := further enough
      exact follows_ternary ih closes less alike
    case level =>
      intro fuel' tokens tokens' level enough alike
      obtain ⟨inner, rfl, less⟩ := further enough
      rw [readLevel, readLevel]
      exact follows_bind (ih.operand level less alike) fun left rest rest' alike => ih.levelRest level left less alike
    case levelRest =>
      intro fuel' tokens tokens' level left enough alike
      obtain ⟨inner, rfl, less⟩ := further enough
      exact follows_levelRest ih closes shown less alike level left
    case operand =>
      intro fuel' tokens tokens' level enough alike
      obtain ⟨inner, rfl, less⟩ := further enough
      rw [readOperand, readOperand]
      split
      · exact ih.level _ less alike
      · exact ih.signed less alike
    case signed =>
      intro fuel' tokens tokens' enough alike
      obtain ⟨inner, rfl, less⟩ := further enough
      exact follows_signed ih closes less alike
    case power =>
      intro fuel' tokens tokens' enough alike
      obtain ⟨inner, rfl, less⟩ := further enough
      exact follows_power ih closes less alike
    case indexed =>
      intro fuel' tokens tokens' enough alike
      obtain ⟨inner, rfl, less⟩ := further enough
      rw [readPostfix, readPostfix]
      exact follows_bind (ih.atom less alike) fun value rest rest' alike => ih.indexes value less alike
    case indexes =>
      intro fuel' tokens tokens' value enough alike
      obtain ⟨inner, rfl, less⟩ := further enough
      exact follows_indexes ih closes less alike value
    case atom =>
      intro fuel' tokens tokens' enough alike
      obtain ⟨inner, rfl, less⟩ := further enough
      exact follows_atom ih closes less alike
    case items =>
      intro fuel' tokens tokens' enough alike
      obtain ⟨inner, rfl, less⟩ := further enough
      exact follows_items ih closes less alike

end ProceduralScene.Expression
