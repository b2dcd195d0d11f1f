import ProceduralScene.Expression.Token

/-!
Evaluation of the reduced expression language. Operators bind, from the loosest to the tightest: the ternary, which
nests to the right; `||`, `&&`, equalities, comparisons, sums and products, all to the left; the signs and `!`;
`**`, whose base is a postfix term and whose exponent is a signed term; indexing. Every operand is evaluated, also
the ones that do not decide the result.
-/

set_option autoImplicit false

namespace ProceduralScene.Expression

/-- The binary operators that bind alike. -/
inductive Level where
  | disjunction
  | conjunction
  | equality
  | comparison
  | sum
  | product
  deriving DecidableEq, Repr

namespace Level

def tighter : Level → Option Level
  | .disjunction => some .conjunction
  | .conjunction => some .equality
  | .equality => some .comparison
  | .comparison => some .sum
  | .sum => some .product
  | .product => none

def symbols : Level → List String
  | .disjunction => ["||", "or"]
  | .conjunction => ["&&", "and"]
  | .equality => ["==", "!=", "===", "!=="]
  | .comparison => ["<", "<=", ">", ">="]
  | .sum => ["+", "-"]
  | .product => ["*", "/", "%"]

end Level

/-- A text of the form of a signed number; a line break may follow it. -/
def isNumberForm (text : List Char) : Bool :=
  let unsigned := match text with
    | '+' :: rest | '-' :: rest => rest
    | _ => text
  match cutNumber? unsigned with
  | some (_, rest) => rest.isEmpty || rest == ['\n']
  | none => false

/-- The floating number that a text of the form of a number denotes. -/
def numberFormValue (text : List Char) : Float :=
  match text with
  | '-' :: rest => decimalFloat true rest
  | _ => decimalFloat false text

/-- Equality in which a number also equals a text of its form. -/
def looseEqual (left right : Value) : Bool :=
  let numeric (value : Value) : Bool :=
    match value with
    | .bool _ | .int _ | .float _ => true
    | _ => false
  match left, right with
  | .text s, value =>
    if numeric value && isNumberForm s.toList then value.same (.float (numberFormValue s.toList))
    else left.same right
  | value, .text s =>
    if numeric value && isNumberForm s.toList then value.same (.float (numberFormValue s.toList))
    else left.same right
  | _, _ => left.same right

/-- What an expression refers to: its symbols, and how nodes are shown when they are joined to a text. -/
structure Environment where
  lookup : String → Option Value
  nodeText : NodeText

def addOrJoin (nodeText : NodeText) (left right : Value) : Except Failure Value :=
  if left.isText || right.isText then
    return .text ((← left.joinedText nodeText) ++ (← right.joinedText nodeText))
  else left.add right

def applyProduct (symbol : String) (left right : Value) : Except Failure Value :=
  if symbol == "*" then left.mul right
  else if symbol == "/" then
    if right.isZero then .error (.expression .divisionByZero) else left.div right
  else if right.isZero then .error (.expression .moduloByZero)
  else do Scalar.truncatedRemainder (← left.scalar) (← right.scalar)

def applyComparison (symbol : String) (left right : Value) : Except Failure Value :=
  if symbol == "<" then return .bool (← left.less right)
  else if symbol == "<=" then return .bool (← left.lessOrSame right)
  else if symbol == ">" then return .bool (← right.less left)
  else return .bool (← right.lessOrSame left)

/-- The value of a binary operator on evaluated operands. -/
def Level.apply (nodeText : NodeText) (level : Level) (symbol : String) (left right : Value) :
    Except Failure Value :=
  match level with
  | .disjunction => .ok (if left.truthy then left else right)
  | .conjunction => .ok (if left.truthy then right else left)
  | .equality =>
    let equal := looseEqual left right
    .ok (.bool (if symbol == "==" || symbol == "===" then equal else !equal))
  | .comparison => applyComparison symbol left right
  | .sum => if symbol == "+" then addOrJoin nodeText left right else left.sub right
  | .product => applyProduct symbol left right

/-- The value at an index; a floating index without a fraction counts as an integer. -/
def indexValue (value at' : Value) : Except Failure Value :=
  match value, at' with
  | .list _, .float x | .text _, .float x =>
    if Number.isInteger x then value.index at' else .error .wrongKind
  | _, _ => value.index at'

def keyword? (name : String) : Option Value :=
  if name == "true" || name == "True" then some (.bool true)
  else if name == "false" || name == "False" then some (.bool false)
  else if name == "null" then some .null
  else none

/-- The operator at the start of the tokens, if it is one of these; words count too. -/
def atSymbol? (symbols : List String) : List Token → Option (String × List Token)
  | .symbol s :: rest | .name s :: rest => if symbols.contains s then some (s, rest) else none
  | _ => none

def expect (symbol : String) (tokens : List Token) : Except Failure (List Token) :=
  match tokens with
  | .symbol s :: rest =>
    if s == symbol then .ok rest
    else .error (.expression (.expected (Text.quoted symbol) (Text.quoted s)))
  | _ => do throw (.expression (.expected (Text.quoted symbol) (← Token.shown tokens.head?)))

/-- A value and the tokens behind the ones it was read from. -/
abbrev Reading := Except Failure (Value × List Token)

def readName (env : Environment) (name : String) (rest : List Token) : Reading :=
  match env.lookup name with
  | some value => .ok (value, rest)
  | none =>
    match keyword? name with
    | some value => .ok (value, rest)
    | none =>
      if (atSymbol? ["("] rest).isSome then .error (.expression (.unknownFunction (Text.quoted name)))
      else .error (.expression (.unknownIdentifier (Text.quoted name)))

mutual
def readTernary (env : Environment) : Nat → List Token → Reading
  | 0, _ => .error .tooLarge
  | fuel + 1, tokens => do
    let (condition, tokens) ← readLevel env fuel .disjunction tokens
    match atSymbol? ["?"] tokens with
    | none => return (condition, tokens)
    | some (_, tokens) =>
      let (whenTrue, tokens) ← readTernary env fuel tokens
      let tokens ← expect ":" tokens
      let (whenFalse, tokens) ← readTernary env fuel tokens
      return (if condition.truthy then whenTrue else whenFalse, tokens)

def readLevel (env : Environment) : Nat → Level → List Token → Reading
  | 0, _, _ => .error .tooLarge
  | fuel + 1, level, tokens => do
    let (left, tokens) ← readOperand env fuel level tokens
    readLevelRest env fuel level left tokens

/-- The operators of one level behind the operand `left`. -/
def readLevelRest (env : Environment) : Nat → Level → Value → List Token → Reading
  | 0, _, _, _ => .error .tooLarge
  | fuel + 1, level, left, tokens =>
    match atSymbol? level.symbols tokens with
    | none => .ok (left, tokens)
    | some (symbol, tokens) => do
      let (right, tokens) ← readOperand env fuel level tokens
      let value ← level.apply env.nodeText symbol left right
      readLevelRest env fuel level value tokens

def readOperand (env : Environment) : Nat → Level → List Token → Reading
  | 0, _, _ => .error .tooLarge
  | fuel + 1, level, tokens =>
    match level.tighter with
    | some inner => readLevel env fuel inner tokens
    | none => readSigned env fuel tokens

def readSigned (env : Environment) : Nat → List Token → Reading
  | 0, _ => .error .tooLarge
  | fuel + 1, tokens =>
    match atSymbol? ["-", "+", "!", "not"] tokens with
    | none => readPower env fuel tokens
    | some (symbol, tokens) => do
      let (value, tokens) ← readSigned env fuel tokens
      if symbol == "-" then return (← value.neg, tokens)
      else if symbol == "+" then return (value, tokens)
      else return (.bool (!value.truthy), tokens)

def readPower (env : Environment) : Nat → List Token → Reading
  | 0, _ => .error .tooLarge
  | fuel + 1, tokens => do
    let (base, tokens) ← readPostfix env fuel tokens
    match atSymbol? ["**"] tokens with
    | none => return (base, tokens)
    | some (_, tokens) =>
      let (exponent, tokens) ← readSigned env fuel tokens
      return (← base.pow exponent, tokens)

def readPostfix (env : Environment) : Nat → List Token → Reading
  | 0, _ => .error .tooLarge
  | fuel + 1, tokens => do
    let (value, tokens) ← readAtom env fuel tokens
    readIndexes env fuel value tokens

def readIndexes (env : Environment) : Nat → Value → List Token → Reading
  | 0, _, _ => .error .tooLarge
  | fuel + 1, value, tokens =>
    match atSymbol? ["["] tokens with
    | none => .ok (value, tokens)
    | some (_, tokens) => do
      let (at', tokens) ← readTernary env fuel tokens
      let tokens ← expect "]" tokens
      readIndexes env fuel (← indexValue value at') tokens

def readAtom (env : Environment) : Nat → List Token → Reading
  | 0, _ => .error .tooLarge
  | fuel + 1, tokens =>
    match tokens with
    | .number value :: rest => .ok (value, rest)
    | .text s :: rest => .ok (.text s, rest)
    | .name s :: rest => readName env s rest
    | .symbol "(" :: rest => do
      let (value, rest) ← readTernary env fuel rest
      return (value, ← expect ")" rest)
    | .symbol "[" :: rest =>
      match atSymbol? ["]"] rest with
      | some (_, rest) => .ok (.list [], rest)
      | none => do
        let (items, rest) ← readItems env fuel rest
        return (.list items, ← expect "]" rest)
    | _ => do throw (.expression (.unexpectedToken (← Token.shown tokens.head?)))

def readItems (env : Environment) : Nat → List Token → Except Failure (List Value × List Token)
  | 0, _ => .error .tooLarge
  | fuel + 1, tokens => do
    let (first, tokens) ← readTernary env fuel tokens
    match atSymbol? [","] tokens with
    | none => return ([first], tokens)
    | some (_, tokens) =>
      let (items, tokens) ← readItems env fuel tokens
      return (first :: items, tokens)
end

/-- A bound on the nested steps that reading `count` tokens takes. -/
def readingFuel (count : Nat) : Nat := 20 * (count + 1)

def evaluateTokens (env : Environment) (tokens : List Token) : Except Failure Value :=
  if tokens.isEmpty then .error (.expression .empty)
  else do
    let (value, rest) ← readTernary env (readingFuel tokens.length) tokens
    match rest with
    | [] => return value
    | token :: _ => throw (.expression (.trailingToken (← Token.shown (some token))))

/-- The characters that an expression may hold once it is reduced. -/
def isAllowed (c : Char) : Bool :=
  Text.isWord c || Text.isSpace c || "+-*/%.()<>!=&|,'\"?:#[]".toList.contains c

/-- The value of a reduced text. -/
def evaluateReduced (env : Environment) (text : List Char) : Except Failure Value :=
  if text.all isAllowed then do evaluateTokens env (← tokenize text)
  else .error (.expression (.unsafeCharacters (Text.quoted (String.ofList text))))

end ProceduralScene.Expression
