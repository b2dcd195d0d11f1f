import ProceduralScene.Proofs.PlainArithmetic
import ProceduralScene.Expression.Reduced

/-!
The readers of the reduced language without their bound. Every reader takes tokens off the front, and past a bound
that grows with the number of tokens a larger one changes nothing; so each reader satisfies its equation with the
bound that belongs to the tokens it is given.
-/

set_option autoImplicit false

namespace ProceduralScene.Expression

/-! ### What a reader leaves -/

theorem shorter_atSymbol {symbols : List String} {tokens rest : List Token} {symbol : String}
    (at' : atSymbol? symbols tokens = some (symbol, rest)) : rest.length + 1 = tokens.length := by
  unfold atSymbol? at at'
  split at at'
  · split at at'
    · cases at'
      rfl
    · cases at'
  · split at at'
    · cases at'
      rfl
    · cases at'
  · cases at'

theorem shorter_expect {symbol : String} {tokens : List Token} :
    Sure (fun rest => rest.length + 1 = tokens.length) (expect symbol tokens) := by
  unfold expect
  split
  · split
    · exact sure_ok rfl
    · exact sure_error _
  · exact sure_bind fun _ _ => sure_throw _

theorem shorter_readName (env : Environment) (name : String) (rest : List Token) :
    Sure (fun found => found.2 = rest) (readName env name rest) := by
  unfold readName
  split
  · exact sure_ok rfl
  · split
    · exact sure_ok rfl
    · split
      · exact sure_error _
      · exact sure_error _

/-- A reading that took a token at least. -/
abbrev Takes {α : Type} (tokens : List Token) (reading : Except Failure (α × List Token)) : Prop :=
  Sure (fun found => found.2.length < tokens.length) reading

/-- A reading that left no more than it was given. -/
abbrev Leaves (tokens : List Token) (reading : Reading) : Prop :=
  Sure (fun found => found.2.length ≤ tokens.length) reading

structure Taking (env : Environment) (fuel : Nat) : Prop where
  ternary : ∀ tokens, Takes tokens (readTernary env fuel tokens)
  level : ∀ level tokens, Takes tokens (readLevel env fuel level tokens)
  levelRest : ∀ level left tokens, Leaves tokens (readLevelRest env fuel level left tokens)
  operand : ∀ level tokens, Takes tokens (readOperand env fuel level tokens)
  signed : ∀ tokens, Takes tokens (readSigned env fuel tokens)
  power : ∀ tokens, Takes tokens (readPower env fuel tokens)
  indexed : ∀ tokens, Takes tokens (readPostfix env fuel tokens)
  indexes : ∀ value tokens, Leaves tokens (readIndexes env fuel value tokens)
  atom : ∀ tokens, Takes tokens (readAtom env fuel tokens)
  items : ∀ tokens, Takes tokens (readItems env fuel tokens)

section

variable {env : Environment} {fuel : Nat} (taking : Taking env fuel)

include taking

theorem takes_ternary (tokens : List Token) : Takes tokens (readTernary env (fuel + 1) tokens) := by
  rw [readTernary]
  refine sure_then (taking.level _ _) fun ⟨condition, rest⟩ less => ?_
  dsimp only at less ⊢
  split
  · exact sure_pure less
  · rename_i after at'
    have next := shorter_atSymbol at'
    refine sure_then (taking.ternary _) fun ⟨whenTrue, rest⟩ less => ?_
    refine sure_then shorter_expect fun rest one => ?_
    refine sure_then (taking.ternary _) fun ⟨whenFalse, rest⟩ less => ?_
    dsimp only at *
    exact sure_pure (by dsimp only; omega)

theorem leaves_levelRest (level : Level) (left : Value) (tokens : List Token) :
    Leaves tokens (readLevelRest env (fuel + 1) level left tokens) := by
  rw [readLevelRest]
  split
  · exact sure_ok (Nat.le_refl _)
  · rename_i symbol after at'
    have next := shorter_atSymbol at'
    refine sure_then (taking.operand _ _) fun ⟨right, rest⟩ less => ?_
    refine sure_bind fun value _ => ?_
    intro found read
    have kept := taking.levelRest _ _ _ found read
    dsimp only at *
    omega

theorem takes_signed (tokens : List Token) : Takes tokens (readSigned env (fuel + 1) tokens) := by
  rw [readSigned]
  split
  · exact taking.power _
  · rename_i symbol after at'
    have next := shorter_atSymbol at'
    refine sure_then (taking.signed _) fun ⟨value, rest⟩ less => ?_
    have fewer : rest.length < tokens.length := by dsimp only at less; omega
    dsimp only
    split
    · exact sure_bind fun _ _ => sure_pure fewer
    · split
      · exact sure_pure fewer
      · exact sure_pure fewer

theorem takes_power (tokens : List Token) : Takes tokens (readPower env (fuel + 1) tokens) := by
  rw [readPower]
  refine sure_then (taking.indexed _) fun ⟨base, rest⟩ less => ?_
  dsimp only at less ⊢
  split
  · exact sure_pure less
  · rename_i after at'
    have next := shorter_atSymbol at'
    refine sure_then (taking.signed _) fun ⟨exponent, rest⟩ less => ?_
    refine sure_bind fun _ _ => sure_pure ?_
    dsimp only at *
    omega

theorem leaves_indexes (value : Value) (tokens : List Token) :
    Leaves tokens (readIndexes env (fuel + 1) value tokens) := by
  rw [readIndexes]
  split
  · exact sure_ok (Nat.le_refl _)
  · rename_i after at'
    have next := shorter_atSymbol at'
    refine sure_then (taking.ternary _) fun ⟨index, rest⟩ less => ?_
    refine sure_then shorter_expect fun rest one => ?_
    refine sure_bind fun value _ => ?_
    intro found read
    have kept := taking.indexes _ _ found read
    dsimp only at *
    omega

theorem takes_atom (tokens : List Token) : Takes tokens (readAtom env (fuel + 1) tokens) := by
  rw [readAtom.eq_def]
  dsimp only
  split
  · exact sure_ok (by simp)
  · exact sure_ok (by simp)
  · rename_i name rest
    intro found read
    rw [shorter_readName env name rest found read]
    simp
  · refine sure_then (taking.ternary _) fun ⟨value, rest⟩ less => ?_
    refine sure_then shorter_expect fun rest one => sure_pure ?_
    simp only [List.length_cons] at *
    omega
  · split
    · rename_i after at'
      have next := shorter_atSymbol at'
      exact sure_ok (by simp only [List.length_cons]; omega)
    · refine sure_then (taking.items _) fun ⟨items, rest⟩ less => ?_
      refine sure_then shorter_expect fun rest one => sure_pure ?_
      simp only [List.length_cons] at *
      omega
  · exact sure_bind fun _ _ => sure_throw _

theorem takes_items (tokens : List Token) : Takes tokens (readItems env (fuel + 1) tokens) := by
  rw [readItems]
  refine sure_then (taking.ternary _) fun ⟨first, rest⟩ less => ?_
  dsimp only at less ⊢
  split
  · exact sure_pure less
  · rename_i after at'
    have next := shorter_atSymbol at'
    refine sure_then (taking.items _) fun ⟨items, rest⟩ less => sure_pure ?_
    dsimp only at *
    omega

end

theorem taking_readers (env : Environment) (fuel : Nat) : Taking env fuel := by
  induction fuel with
  | zero => constructor <;> intros <;> exact sure_error _
  | succ fuel ih =>
    exact
      { ternary := takes_ternary ih
        level := fun level tokens => by
          rw [readLevel]
          refine sure_then (ih.operand level tokens) fun ⟨left, rest⟩ less => ?_
          intro found read
          exact Nat.lt_of_le_of_lt (ih.levelRest _ _ _ found read) less
        levelRest := leaves_levelRest ih
        operand := fun level tokens => by
          rw [readOperand]
          split
          · exact ih.level _ _
          · exact ih.signed _
        signed := takes_signed ih
        power := takes_power ih
        indexed := fun tokens => by
          rw [readPostfix]
          refine sure_then (ih.atom tokens) fun ⟨value, rest⟩ less => ?_
          intro found read
          exact Nat.lt_of_le_of_lt (ih.indexes _ _ found read) less
        indexes := leaves_indexes ih
        atom := takes_atom ih
        items := takes_items ih }

/-! ### A larger bound -/

/-- How many levels lie inside a level. -/
def Level.height : Level → Nat
  | .product => 0
  | .sum => 1
  | .comparison => 2
  | .equality => 3
  | .conjunction => 4
  | .disjunction => 5

theorem height_tighter {level inner : Level} (tighter : level.tighter = some inner) :
    inner.height + 1 = level.height := by
  cases level <;> cases tighter <;> rfl

theorem height_le (level : Level) : level.height ≤ 5 := by
  cases level <;> decide

theorem bind_agree {α β : Type} {first first' : Except Failure α} {next next' : α → Except Failure β}
    (same : first = first') (agree : ∀ value, first' = .ok value → next value = next' value) :
    first >>= next = first' >>= next' := by
  subst same
  cases first with
  | error failure => rfl
  | ok value => exact agree value rfl

/-- One step more of the bound changes no reading of few enough tokens. -/
structure Settled (env : Environment) (fuel : Nat) : Prop where
  ternary : ∀ tokens : List Token, 20 * tokens.length + 17 ≤ fuel →
    readTernary env fuel tokens = readTernary env (fuel + 1) tokens
  level : ∀ (level : Level) (tokens : List Token), 20 * tokens.length + 2 * level.height + 6 ≤ fuel →
    readLevel env fuel level tokens = readLevel env (fuel + 1) level tokens
  levelRest : ∀ (level : Level) (left : Value) (tokens : List Token), 20 * tokens.length + 1 ≤ fuel →
    readLevelRest env fuel level left tokens = readLevelRest env (fuel + 1) level left tokens
  operand : ∀ (level : Level) (tokens : List Token), 20 * tokens.length + 2 * level.height + 5 ≤ fuel →
    readOperand env fuel level tokens = readOperand env (fuel + 1) level tokens
  signed : ∀ tokens : List Token, 20 * tokens.length + 4 ≤ fuel →
    readSigned env fuel tokens = readSigned env (fuel + 1) tokens
  power : ∀ tokens : List Token, 20 * tokens.length + 3 ≤ fuel →
    readPower env fuel tokens = readPower env (fuel + 1) tokens
  indexed : ∀ tokens : List Token, 20 * tokens.length + 2 ≤ fuel →
    readPostfix env fuel tokens = readPostfix env (fuel + 1) tokens
  indexes : ∀ (value : Value) (tokens : List Token), 20 * tokens.length + 1 ≤ fuel →
    readIndexes env fuel value tokens = readIndexes env (fuel + 1) value tokens
  atom : ∀ tokens : List Token, 20 * tokens.length + 1 ≤ fuel →
    readAtom env fuel tokens = readAtom env (fuel + 1) tokens
  items : ∀ tokens : List Token, 20 * tokens.length + 18 ≤ fuel →
    readItems env fuel tokens = readItems env (fuel + 1) tokens

section

variable {env : Environment} {fuel : Nat} (settled : Settled env fuel)

include settled

theorem settled_ternary (tokens : List Token) (enough : 20 * tokens.length + 17 ≤ fuel + 1) :
    readTernary env (fuel + 1) tokens = readTernary env (fuel + 2) tokens := by
  rw [readTernary, readTernary]
  refine bind_agree (settled.level _ _ (by simp only [Level.height]; omega)) fun ⟨condition, rest⟩ read => ?_
  have less := (taking_readers env _).level _ _ _ read
  dsimp only at less ⊢
  split
  · rfl
  · rename_i after at'
    have next := shorter_atSymbol at'
    refine bind_agree (settled.ternary _ (by omega)) fun ⟨whenTrue, rest⟩ read => ?_
    have less := (taking_readers env _).ternary _ _ read
    refine bind_agree rfl fun rest read => ?_
    have one := shorter_expect _ read
    dsimp only at *
    exact bind_agree (settled.ternary _ (by omega)) fun _ _ => rfl

theorem settled_levelRest (level : Level) (left : Value) (tokens : List Token)
    (enough : 20 * tokens.length + 1 ≤ fuel + 1) :
    readLevelRest env (fuel + 1) level left tokens = readLevelRest env (fuel + 2) level left tokens := by
  have bound := height_le level
  rw [readLevelRest, readLevelRest]
  split
  · rfl
  · rename_i symbol after at'
    have next := shorter_atSymbol at'
    refine bind_agree (settled.operand _ _ (by omega)) fun ⟨right, rest⟩ read => ?_
    have less := (taking_readers env _).operand _ _ _ read
    dsimp only at *
    exact bind_agree rfl fun value _ => settled.levelRest _ _ _ (by omega)

theorem settled_signed (tokens : List Token) (enough : 20 * tokens.length + 4 ≤ fuel + 1) :
    readSigned env (fuel + 1) tokens = readSigned env (fuel + 2) tokens := by
  rw [readSigned, readSigned]
  split
  · exact settled.power _ (by omega)
  · rename_i symbol after at'
    have next := shorter_atSymbol at'
    exact bind_agree (settled.signed _ (by omega)) fun _ _ => rfl

theorem settled_power (tokens : List Token) (enough : 20 * tokens.length + 3 ≤ fuel + 1) :
    readPower env (fuel + 1) tokens = readPower env (fuel + 2) tokens := by
  rw [readPower, readPower]
  refine bind_agree (settled.indexed _ (by omega)) fun ⟨base, rest⟩ read => ?_
  have less := (taking_readers env _).indexed _ _ read
  dsimp only at less ⊢
  split
  · rfl
  · rename_i after at'
    have next := shorter_atSymbol at'
    exact bind_agree (settled.signed _ (by omega)) fun _ _ => rfl

theorem settled_indexes (value : Value) (tokens : List Token) (enough : 20 * tokens.length + 1 ≤ fuel + 1) :
    readIndexes env (fuel + 1) value tokens = readIndexes env (fuel + 2) value tokens := by
  rw [readIndexes, readIndexes]
  split
  · rfl
  · rename_i after at'
    have next := shorter_atSymbol at'
    refine bind_agree (settled.ternary _ (by omega)) fun ⟨index, rest⟩ read => ?_
    have less := (taking_readers env _).ternary _ _ read
    refine bind_agree rfl fun rest read => ?_
    have one := shorter_expect _ read
    dsimp only at *
    exact bind_agree rfl fun value _ => settled.indexes _ _ (by omega)

theorem settled_atom (tokens : List Token) (enough : 20 * tokens.length + 1 ≤ fuel + 1) :
    readAtom env (fuel + 1) tokens = readAtom env (fuel + 2) tokens := by
  rw [readAtom.eq_def, readAtom.eq_def]
  dsimp only
  split
  · rfl
  · rfl
  · rfl
  · refine bind_agree (settled.ternary _ ?_) fun _ _ => rfl
    simp only [List.length_cons] at enough
    omega
  · split
    · rfl
    · refine bind_agree (settled.items _ ?_) fun _ _ => rfl
      simp only [List.length_cons] at enough
      omega
  · rfl

theorem settled_items (tokens : List Token) (enough : 20 * tokens.length + 18 ≤ fuel + 1) :
    readItems env (fuel + 1) tokens = readItems env (fuel + 2) tokens := by
  rw [readItems, readItems]
  refine bind_agree (settled.ternary _ (by omega)) fun ⟨first, rest⟩ read => ?_
  have less := (taking_readers env _).ternary _ _ read
  dsimp only at less ⊢
  split
  · rfl
  · rename_i after at'
    have next := shorter_atSymbol at'
    exact bind_agree (settled.items _ (by omega)) fun _ _ => rfl

end

theorem settled_readers (env : Environment) (fuel : Nat) : Settled env fuel := by
  induction fuel with
  | zero => constructor <;> intros <;> omega
  | succ fuel ih =>
    exact
      { ternary := settled_ternary ih
        level := fun level tokens enough => by
          rw [readLevel, readLevel]
          refine bind_agree (ih.operand level tokens (by omega)) fun ⟨left, rest⟩ read => ?_
          have less := (taking_readers env _).operand _ _ _ read
          dsimp only at less ⊢
          exact ih.levelRest _ _ _ (by omega)
        levelRest := settled_levelRest ih
        operand := fun level tokens enough => by
          rw [readOperand, readOperand]
          split
          · rename_i inner tighter
            have lower := height_tighter tighter
            exact ih.level _ _ (by omega)
          · exact ih.signed _ (by omega)
        signed := settled_signed ih
        power := settled_power ih
        indexed := fun tokens enough => by
          rw [readPostfix, readPostfix]
          refine bind_agree (ih.atom tokens (by omega)) fun ⟨value, rest⟩ read => ?_
          have less := (taking_readers env _).atom _ _ read
          dsimp only at less ⊢
          exact ih.indexes _ _ (by omega)
        indexes := settled_indexes ih
        atom := settled_atom ih
        items := settled_items ih }

theorem constant_from {α : Type} {f : Nat → α} {low : Nat} (step : ∀ n, low ≤ n → f n = f (n + 1)) {n m : Nat}
    (lowN : low ≤ n) (lowM : low ≤ m) : f n = f m := by
  have fromLow : ∀ k, f low = f (low + k) := by
    intro k
    induction k with
    | zero => rfl
    | succ k ih => exact ih.trans (step _ (Nat.le_add_right _ _))
  rw [← Nat.add_sub_of_le lowN, ← Nat.add_sub_of_le lowM, ← fromLow, ← fromLow]

/-! ### Readers with the bound that belongs to their tokens -/

namespace Read

def ternary (env : Environment) (tokens : List Token) : Reading :=
  readTernary env (readingFuel tokens.length) tokens

def level (env : Environment) (level : Level) (tokens : List Token) : Reading :=
  readLevel env (readingFuel tokens.length) level tokens

def levelRest (env : Environment) (level : Level) (left : Value) (tokens : List Token) : Reading :=
  readLevelRest env (readingFuel tokens.length) level left tokens

def operand (env : Environment) (level : Level) (tokens : List Token) : Reading :=
  readOperand env (readingFuel tokens.length) level tokens

def signed (env : Environment) (tokens : List Token) : Reading :=
  readSigned env (readingFuel tokens.length) tokens

def power (env : Environment) (tokens : List Token) : Reading :=
  readPower env (readingFuel tokens.length) tokens

def indexed (env : Environment) (tokens : List Token) : Reading :=
  readPostfix env (readingFuel tokens.length) tokens

def indexes (env : Environment) (value : Value) (tokens : List Token) : Reading :=
  readIndexes env (readingFuel tokens.length) value tokens

def atom (env : Environment) (tokens : List Token) : Reading :=
  readAtom env (readingFuel tokens.length) tokens

def items (env : Environment) (tokens : List Token) : Except Failure (List Value × List Token) :=
  readItems env (readingFuel tokens.length) tokens

variable {env : Environment} {fuel : Nat}

theorem of_ternary (tokens : List Token) (enough : 20 * tokens.length + 17 ≤ fuel) :
    readTernary env fuel tokens = ternary env tokens :=
  constant_from (fun n low => (settled_readers env n).ternary tokens low) enough (by unfold readingFuel; omega)

theorem of_level (l : Level) (tokens : List Token) (enough : 20 * tokens.length + 2 * l.height + 6 ≤ fuel) :
    readLevel env fuel l tokens = level env l tokens :=
  constant_from (fun n low => (settled_readers env n).level l tokens low) enough
    (by have := height_le l; unfold readingFuel; omega)

theorem of_levelRest (l : Level) (left : Value) (tokens : List Token) (enough : 20 * tokens.length + 1 ≤ fuel) :
    readLevelRest env fuel l left tokens = levelRest env l left tokens :=
  constant_from (fun n low => (settled_readers env n).levelRest l left tokens low) enough (by unfold readingFuel; omega)

theorem of_operand (l : Level) (tokens : List Token) (enough : 20 * tokens.length + 2 * l.height + 5 ≤ fuel) :
    readOperand env fuel l tokens = operand env l tokens :=
  constant_from (fun n low => (settled_readers env n).operand l tokens low) enough
    (by have := height_le l; unfold readingFuel; omega)

theorem of_signed (tokens : List Token) (enough : 20 * tokens.length + 4 ≤ fuel) :
    readSigned env fuel tokens = signed env tokens :=
  constant_from (fun n low => (settled_readers env n).signed tokens low) enough (by unfold readingFuel; omega)

theorem of_power (tokens : List Token) (enough : 20 * tokens.length + 3 ≤ fuel) :
    readPower env fuel tokens = power env tokens :=
  constant_from (fun n low => (settled_readers env n).power tokens low) enough (by unfold readingFuel; omega)

theorem of_indexed (tokens : List Token) (enough : 20 * tokens.length + 2 ≤ fuel) :
    readPostfix env fuel tokens = indexed env tokens :=
  constant_from (fun n low => (settled_readers env n).indexed tokens low) enough (by unfold readingFuel; omega)

theorem of_indexes (value : Value) (tokens : List Token) (enough : 20 * tokens.length + 1 ≤ fuel) :
    readIndexes env fuel value tokens = indexes env value tokens :=
  constant_from (fun n low => (settled_readers env n).indexes value tokens low) enough (by unfold readingFuel; omega)

theorem of_atom (tokens : List Token) (enough : 20 * tokens.length + 1 ≤ fuel) :
    readAtom env fuel tokens = atom env tokens :=
  constant_from (fun n low => (settled_readers env n).atom tokens low) enough (by unfold readingFuel; omega)

theorem of_items (tokens : List Token) (enough : 20 * tokens.length + 18 ≤ fuel) :
    readItems env fuel tokens = items env tokens :=
  constant_from (fun n low => (settled_readers env n).items tokens low) enough (by unfold readingFuel; omega)

theorem readingFuel_succ (count : Nat) : readingFuel count = (20 * count + 19) + 1 := by
  unfold readingFuel
  omega

theorem ternary_eq (env : Environment) (tokens : List Token) : ternary env tokens = (do
    let (condition, tokens) ← level env .disjunction tokens
    match atSymbol? ["?"] tokens with
    | none => return (condition, tokens)
    | some (_, tokens) =>
      let (whenTrue, tokens) ← ternary env tokens
      let tokens ← expect ":" tokens
      let (whenFalse, tokens) ← ternary env tokens
      return (if condition.truthy then whenTrue else whenFalse, tokens)) := by
  show readTernary env (readingFuel tokens.length) tokens = _
  rw [readingFuel_succ, readTernary]
  refine bind_agree (of_level _ _ (by simp only [Level.height]; omega)) fun ⟨condition, rest⟩ read => ?_
  have less := (taking_readers env _).level _ _ _ read
  dsimp only at less ⊢
  cases at' : atSymbol? ["?"] rest with
  | none => rfl
  | some found =>
    have next := shorter_atSymbol at'
    refine bind_agree (of_ternary _ (by omega)) fun ⟨whenTrue, rest⟩ read => ?_
    have less := (taking_readers env _).ternary _ _ read
    refine bind_agree rfl fun rest read => ?_
    have one := shorter_expect _ read
    dsimp only at *
    exact bind_agree (of_ternary _ (by omega)) fun _ _ => rfl

theorem level_eq (env : Environment) (l : Level) (tokens : List Token) : level env l tokens = (do
    let (left, tokens) ← operand env l tokens
    levelRest env l left tokens) := by
  have bound := height_le l
  show readLevel env (readingFuel tokens.length) l tokens = _
  rw [readingFuel_succ, readLevel]
  refine bind_agree (of_operand _ _ (by omega)) fun ⟨left, rest⟩ read => ?_
  have less := (taking_readers env _).operand _ _ _ read
  dsimp only at less ⊢
  exact of_levelRest _ _ _ (by omega)

theorem levelRest_eq (env : Environment) (l : Level) (left : Value) (tokens : List Token) :
    levelRest env l left tokens =
      (match atSymbol? l.symbols tokens with
      | none => .ok (left, tokens)
      | some (symbol, tokens) => do
        let (right, tokens) ← operand env l tokens
        let value ← l.apply env.nodeText symbol left right
        levelRest env l value tokens) := by
  have bound := height_le l
  show readLevelRest env (readingFuel tokens.length) l left tokens = _
  rw [readingFuel_succ, readLevelRest]
  cases at' : atSymbol? l.symbols tokens with
  | none => rfl
  | some found =>
    have next := shorter_atSymbol at'
    refine bind_agree (of_operand _ _ (by omega)) fun ⟨right, rest⟩ read => ?_
    have less := (taking_readers env _).operand _ _ _ read
    dsimp only at *
    exact bind_agree rfl fun value _ => of_levelRest _ _ _ (by omega)

theorem operand_eq (env : Environment) (l : Level) (tokens : List Token) : operand env l tokens =
    (match l.tighter with
    | some inner => level env inner tokens
    | none => signed env tokens) := by
  have bound := height_le l
  show readOperand env (readingFuel tokens.length) l tokens = _
  rw [readingFuel_succ, readOperand]
  cases tighter : l.tighter with
  | none => exact of_signed _ (by omega)
  | some inner =>
    have lower := height_tighter tighter
    exact of_level _ _ (by omega)

theorem signed_eq (env : Environment) (tokens : List Token) : signed env tokens =
    (match atSymbol? ["-", "+", "!", "not"] tokens with
    | none => power env tokens
    | some (symbol, tokens) => do
      let (value, tokens) ← signed env tokens
      if symbol == "-" then return (← value.neg, tokens)
      else if symbol == "+" then return (value, tokens)
      else return (.bool (!value.truthy), tokens)) := by
  show readSigned env (readingFuel tokens.length) tokens = _
  rw [readingFuel_succ, readSigned]
  cases at' : atSymbol? ["-", "+", "!", "not"] tokens with
  | none => exact of_power _ (by omega)
  | some found =>
    have next := shorter_atSymbol at'
    exact bind_agree (of_signed _ (by omega)) fun _ _ => rfl

theorem power_eq (env : Environment) (tokens : List Token) : power env tokens = (do
    let (base, tokens) ← indexed env tokens
    match atSymbol? ["**"] tokens with
    | none => return (base, tokens)
    | some (_, tokens) =>
      let (exponent, tokens) ← signed env tokens
      return (← base.pow exponent, tokens)) := by
  show readPower env (readingFuel tokens.length) tokens = _
  rw [readingFuel_succ, readPower]
  refine bind_agree (of_indexed _ (by omega)) fun ⟨base, rest⟩ read => ?_
  have less := (taking_readers env _).indexed _ _ read
  dsimp only at less ⊢
  cases at' : atSymbol? ["**"] rest with
  | none => rfl
  | some found =>
    have next := shorter_atSymbol at'
    exact bind_agree (of_signed _ (by omega)) fun _ _ => rfl

theorem indexed_eq (env : Environment) (tokens : List Token) : indexed env tokens = (do
    let (value, tokens) ← atom env tokens
    indexes env value tokens) := by
  show readPostfix env (readingFuel tokens.length) tokens = _
  rw [readingFuel_succ, readPostfix]
  refine bind_agree (of_atom _ (by omega)) fun ⟨value, rest⟩ read => ?_
  have less := (taking_readers env _).atom _ _ read
  dsimp only at less ⊢
  exact of_indexes _ _ (by omega)

theorem indexes_eq (env : Environment) (value : Value) (tokens : List Token) : indexes env value tokens =
    (match atSymbol? ["["] tokens with
    | none => .ok (value, tokens)
    | some (_, tokens) => do
      let (at', tokens) ← ternary env tokens
      let tokens ← expect "]" tokens
      indexes env (← indexValue value at') tokens) := by
  show readIndexes env (readingFuel tokens.length) value tokens = _
  rw [readingFuel_succ, readIndexes]
  cases at' : atSymbol? ["["] tokens with
  | none => rfl
  | some found =>
    have next := shorter_atSymbol at'
    refine bind_agree (of_ternary _ (by omega)) fun ⟨index, rest⟩ read => ?_
    have less := (taking_readers env _).ternary _ _ read
    refine bind_agree rfl fun rest read => ?_
    have one := shorter_expect _ read
    dsimp only at *
    exact bind_agree rfl fun value _ => of_indexes _ _ (by omega)

theorem atom_number (env : Environment) (value : Value) (tokens : List Token) :
    atom env (.number value :: tokens) = .ok (value, tokens) := by
  show readAtom env (readingFuel (tokens.length + 1)) (.number value :: tokens) = _
  rw [readingFuel_succ, readAtom]

theorem atom_text (env : Environment) (s : String) (tokens : List Token) :
    atom env (.text s :: tokens) = .ok (.text s, tokens) := by
  show readAtom env (readingFuel (tokens.length + 1)) (.text s :: tokens) = _
  rw [readingFuel_succ, readAtom]

theorem atom_name (env : Environment) (s : String) (tokens : List Token) :
    atom env (.name s :: tokens) = readName env s tokens := by
  show readAtom env (readingFuel (tokens.length + 1)) (.name s :: tokens) = _
  rw [readingFuel_succ, readAtom]

theorem atom_parentheses (env : Environment) (tokens : List Token) : atom env (.symbol "(" :: tokens) = (do
    let (value, rest) ← ternary env tokens
    return (value, ← expect ")" rest)) := by
  show readAtom env (readingFuel (tokens.length + 1)) (.symbol "(" :: tokens) = _
  rw [readingFuel_succ, readAtom.eq_def]
  exact bind_agree (of_ternary _ (by omega)) fun _ _ => rfl

theorem atom_list (env : Environment) (tokens : List Token) : atom env (.symbol "[" :: tokens) =
    (match atSymbol? ["]"] tokens with
    | some (_, rest) => .ok (.list [], rest)
    | none => do
      let (items, rest) ← items env tokens
      return (.list items, ← expect "]" rest)) := by
  show readAtom env (readingFuel (tokens.length + 1)) (.symbol "[" :: tokens) = _
  rw [readingFuel_succ, readAtom]
  cases at' : atSymbol? ["]"] tokens with
  | some found => rfl
  | none => exact bind_agree (of_items _ (by omega)) fun _ _ => rfl

theorem items_eq (env : Environment) (tokens : List Token) : items env tokens = (do
    let (first, tokens) ← ternary env tokens
    match atSymbol? [","] tokens with
    | none => return ([first], tokens)
    | some (_, tokens) =>
      let (rest, tokens) ← items env tokens
      return (first :: rest, tokens)) := by
  show readItems env (readingFuel tokens.length) tokens = _
  rw [readingFuel_succ, readItems]
  refine bind_agree (of_ternary _ (by omega)) fun ⟨first, rest⟩ read => ?_
  have less := (taking_readers env _).ternary _ _ read
  dsimp only at less ⊢
  cases at' : atSymbol? [","] rest with
  | none => rfl
  | some found =>
    have next := shorter_atSymbol at'
    exact bind_agree (of_items _ (by omega)) fun _ _ => rfl

end Read

end ProceduralScene.Expression
