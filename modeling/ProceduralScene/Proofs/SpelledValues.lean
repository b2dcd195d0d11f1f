import ProceduralScene.Proofs.LiteralTexts
import ProceduralScene.Proofs.ReadBack
import ProceduralScene.Proofs.SpellingTurns

/-!
The literals of values. No stage finds a call or a name in one, and it is read as its value: a truth value by its name, an
integer and a finite number by a numeral behind its sign.
-/

set_option autoImplicit false

namespace ProceduralScene.Expression

/-! ### Texts without calls and names -/

/-- A name that the literal of no value holds: an identifier, but none of a truth value or of a slot. -/
structure Nameable (name : String) : Prop where
  identifier : ∃ identifier : Identifier, identifier.name = name
  noTruth : name ≠ "true" ∧ name ≠ "false"
  noSlot : ∀ i, name ≠ slotName i

/-- A text in which no call starts and no such name stands. -/
structure Wordless (text : List Char) : Prop where
  calls : '(' ∉ text.drop 1
  absent : ∀ {name : String}, Nameable name → hasWord name.toList none text = false

theorem findCall_none {word text : List Char} (name : IsName word) (calls : '(' ∉ text.drop 1) (previous : Option Char) :
    findCall? word previous text = none := by
  cases found : findCall? word previous text with
  | none => rfl
  | some site =>
    obtain ⟨split, -⟩ := findCall_split text found
    obtain ⟨blanks, -, head⟩ := findCall_head text found
    obtain ⟨c, rest, same, -⟩ := isName_cons name
    -- the parenthesis of the call stands behind its name, which has a character
    refine absurd ?_ calls
    rw [split, head, same]
    cases site.before <;> simp

theorem replaceOperand_absent {word : List Char} (replacement : List Char) (text : List Char) :
    ∀ {quote previous : Option Char}, hasWord word previous text = false →
      replaceOperand word replacement quote previous 0 text = text := by
  have none : ∀ {previous : Option Char} {text : List Char}, matchWord? word previous text = .none →
      matchOperand? word previous text = .none := by
    intro previous text absent
    simp [matchOperand?, absent]
  induction text with
  | nil =>
    intro quote previous absent
    rw [hasWord, Option.isSome_eq_false_iff, Option.isNone_iff_eq_none] at absent
    rw [replaceOperand, none absent]
    rfl
  | cons c text ih =>
    intro quote previous absent
    rw [hasWord, Bool.or_eq_false_iff, Option.isSome_eq_false_iff, Option.isNone_iff_eq_none] at absent
    rw [replaceOperand_copy (none absent.1), ih absent.2]

section

variable {text : List Char} (wordless : Wordless text)

include wordless

theorem inlineFunctions_wordless (setting : Setting) (evaluate : List Char → Reduction Value) {functions : List (String × Function)}
    (named : ∀ entry ∈ functions, IsName entry.1.toList) : inlineFunctions setting evaluate functions text = pure text := by
  induction functions with
  | nil => rfl
  | cons entry functions ih =>
    have none := findCall_none (named entry List.mem_cons_self) wordless.calls none
    rw [inlineFunctions, inlineCalls, none, pure_bind]
    exact ih fun other member => named other (List.mem_cons_of_mem entry member)

theorem inlineConstants_wordless (nodeText : NodeText) {constants : Bindings}
    (named : ∀ entry ∈ constants, Nameable entry.1 ∧ ∃ s, entry.2.display nodeText = .ok s) :
    inlineConstants nodeText constants text = .ok text := by
  induction constants with
  | nil => rfl
  | cons entry constants ih =>
    obtain ⟨nameable, s, display⟩ := named entry List.mem_cons_self
    rw [inlineConstants, display]
    show inlineConstants nodeText constants (replaceOperand _ _ none none 0 text) = _
    rw [replaceOperand_absent _ text (wordless.absent nameable)]
    exact ih fun other member => named other (List.mem_cons_of_mem entry member)

theorem inlineBareVariables_wordless {symbols : Bindings} (named : ∀ entry ∈ symbols, Nameable entry.1) :
    inlineBareVariables symbols text = .ok text := by
  induction symbols with
  | nil => rfl
  | cons entry symbols ih =>
    have further := ih fun other member => named other (List.mem_cons_of_mem entry member)
    rw [inlineBareVariables, wordless.absent (named entry List.mem_cons_self)]
    split
    · exact further
    · exact further

theorem untouched_wordless {setting : Setting} (functions : ∀ entry ∈ setting.functions, IsName entry.1.toList)
    (constants : ∀ entry ∈ setting.constants, Nameable entry.1 ∧ ∃ s, entry.2.display setting.nodeText = .ok s)
    (symbols : ∀ entry ∈ setting.symbols, Nameable entry.1) (evaluate : List Char → Reduction Value) :
    Untouched setting evaluate text where
  conditionals := by
    have none := findCall_none isName_conditional wordless.calls none
    cases setting.maxPasses with
    | zero => rfl
    | succ passes => simp [convertConditionals, convertPass, none]
  functions := inlineFunctions_wordless wordless setting evaluate functions
  constants := inlineConstants_wordless wordless setting.nodeText constants
  bareVariables := inlineBareVariables_wordless wordless fun entry member => symbols entry (List.mem_mergeSort.mp member)

end

/-! ### Words -/

theorem nameable_text {name : String} (nameable : Nameable name) : ∃ identifier : Identifier, name.toList = identifier.text := by
  obtain ⟨identifier, rfl⟩ := nameable.identifier
  exact ⟨identifier, String.toList_ofList⟩

theorem wordless_word {word : List Char} (nonempty : word ≠ []) (wordy : ∀ c ∈ word, Text.isWord c = true)
    (apart : ∀ {name : String}, Nameable name → word ≠ name.toList) : Wordless word where
  calls member := absurd (wordy _ (List.mem_of_mem_drop member)) (by decide)
  absent := by
    intro name nameable
    obtain ⟨identifier, text⟩ := nameable_text nameable
    have run := @hasWord_run _ (Spelling.isName_identifier identifier) word nonempty wordy none rfl [] (by simp)
    rw [List.append_nil, ← text] at run
    rw [run, beq_false_of_ne (apart nameable), text]
    simp [hasWord, matchWord?, dropWord?, Identifier.text]

theorem wordless_slot (i : Nat) : Wordless (slotName i).toList := by
  refine wordless_word (by simp [slotName_toList, slotMark]) (slotName_wordy i) fun nameable same => ?_
  exact nameable.noSlot i (String.toList_injective same).symm

theorem wordless_truth (b : Bool) : Wordless (if b then "true" else "false").toList := by
  refine wordless_word ?_ ?_ fun nameable same => ?_
  · cases b <;> decide
  · cases b <;> exact List.all_eq_true.mp (by decide)
  · have name := String.toList_injective same
    cases b
    · exact nameable.noTruth.2 name.symm
    · exact nameable.noTruth.1 name.symm

/-! ### Numbers -/

/-- No name can start in the text: the characters that one starts with stand behind others of a word. -/
def nameless : Option Char → List Char → Bool
  | _, [] => true
  | previous, c :: text => (!isNameStart c || previous.any Text.isWord) && nameless (some c) text

theorem nameless_append (first : List Char) {second : List Char} : ∀ {previous : Option Char},
    nameless previous (first ++ second) = (nameless previous first && nameless (first.getLast?.or previous) second) := by
  induction first with
  | nil => simp [nameless]
  | cons c first ih =>
    intro previous
    rw [List.cons_append, nameless, nameless, ih, Bool.and_assoc, last_cons]

theorem nameless_plain {text : List Char} (plain : ∀ c ∈ text, isNameStart c = false) : ∀ previous, nameless previous text = true := by
  induction text with
  | nil => exact fun _ => rfl
  | cons c text ih =>
    intro previous
    rw [nameless, plain c List.mem_cons_self, ih fun d member => plain d (List.mem_cons_of_mem c member)]
    rfl

theorem hasWord_nameless (identifier : Identifier) (text : List Char) : ∀ {previous : Option Char}, nameless previous text = true →
    hasWord identifier.text previous text = false := by
  induction text with
  | nil => simp [hasWord, matchWord?, dropWord?, Identifier.text]
  | cons c text ih =>
    intro previous none
    rw [nameless, Bool.and_eq_true, Bool.or_eq_true, Bool.not_eq_true'] at none
    obtain ⟨here, further⟩ := none
    have unmatched : matchWord? identifier.text previous (c :: text) = .none := by
      by_cases same : identifier.first = c
      · have starts := identifier.starts
        rw [same] at starts
        -- the word before it goes on here, so it is no boundary
        have inside := here.resolve_left (by simp [starts])
        have bounded : isBoundary previous (some c) = false := by
          simp [isBoundary, inside, isWord_of_isNameStart starts]
        unfold matchWord?
        split
        · simp [bounded]
        · rfl
      · have other : dropWord? identifier.text (c :: text) = .none := by simp [dropWord?, Identifier.text, same]
        rw [matchWord?, other]
    rw [hasWord, unmatched, ih further]
    rfl

theorem noStart_digit {c : Char} (digit : c.isDigit = true) : isNameStart c = false := by
  rw [Bool.eq_false_iff]
  intro starts
  have := toNat_of_isNameStart starts
  have := isDigit_iff.mp digit
  omega

theorem last_significand {numeral : Numeral} (shown : numeral.Shown) :
    ∃ c, (numeral.whole ++ fractionText numeral.fraction).getLast? = some c ∧ c.isDigit = true := by
  have ends : ∀ {digits : List Char}, digits ≠ [] → Number.AllDigits digits → ∃ c, digits.getLast? = some c ∧ c.isDigit = true :=
    fun nonempty only => ⟨_, List.getLast?_eq_some_getLast nonempty, only _ (List.getLast_mem nonempty)⟩
  cases behind : numeral.fraction with
  | none =>
    rw [fractionText, List.append_nil]
    exact ends shown.some shown.whole
  | some digits =>
    obtain ⟨nonempty, only⟩ := shown.fraction digits behind
    obtain ⟨c, last, digit⟩ := ends nonempty only
    exact ⟨c, by simp [fractionText, List.getLast?_cons, last], digit⟩

theorem nameless_numeral {numeral : Numeral} (shown : numeral.Shown) (previous : Option Char) :
    nameless previous numeral.text = true := by
  have significand : ∀ c ∈ numeral.whole ++ fractionText numeral.fraction, isNameStart c = false := by
    intro c member
    rcases significand_shown shown c member with digit | rfl
    · exact noStart_digit digit
    · decide
  obtain ⟨c, last, digit⟩ := last_significand shown
  rw [Numeral.text, ← List.append_assoc, nameless_append, nameless_plain significand, last, Bool.true_and]
  have exponent := shown.exponent
  generalize exponentText numeral.exponent = marks at exponent ⊢
  cases exponent with
  | none => rfl
  | @some sign digits signs nonempty only =>
    -- the mark of the exponent could start a name, but stands in the word of the digit before it
    have wordy : Text.isWord c = true := isWord_of_isAlphanum (by simp [Char.isAlphanum, digit])
    have plain : ∀ d ∈ sign :: digits, isNameStart d = false := by
      intro d member
      rcases List.mem_cons.mp member with rfl | member
      · rcases signs with rfl | rfl <;> decide
      · exact noStart_digit (only d member)
    rw [nameless, nameless_plain plain]
    simp [wordy]

/-- A numeral, maybe behind a minus sign, and maybe both in parentheses. -/
def signedNumeral (enclosed negated : Bool) (numeral : Numeral) : List Char :=
  (if enclosed then ['('] else []) ++ ((if negated then ['-'] else []) ++ (numeral.text ++ if enclosed then [')'] else []))

theorem chars_numeral {numeral : Numeral} (shown : numeral.Shown) : ∀ c ∈ numeral.text, Number.IsNumeral c := by
  intro c member
  rw [Numeral.text, ← List.append_assoc] at member
  rcases List.mem_append.mp member with inSignificand | inExponent
  · exact (significand_shown shown c inSignificand).imp_right .inl
  · have exponent := shown.exponent
    generalize exponentText numeral.exponent = marks at exponent inExponent
    cases exponent with
    | none => cases inExponent
    | @some sign digits signs nonempty only =>
      rcases List.mem_cons.mp inExponent with rfl | member
      · exact .inr (.inr (.inl rfl))
      · rcases List.mem_cons.mp member with rfl | member
        · exact .inr (.inr (.inr signs))
        · exact .inl (only c member)

theorem wordless_signedNumeral (enclosed negated : Bool) {numeral : Numeral} (shown : numeral.Shown) :
    Wordless (signedNumeral enclosed negated numeral) where
  calls := by
    have inside : '(' ∉ (if negated then ['-'] else []) ++ (numeral.text ++ if enclosed then [')'] else []) := by
      have digits : '(' ∉ numeral.text := fun member => absurd (chars_numeral shown _ member) (by unfold Number.IsNumeral; decide)
      cases negated <;> cases enclosed <;> simp [digits]
    cases enclosed with
    | true => exact inside
    | false => exact fun member => inside (List.mem_of_mem_drop member)
  absent := by
    intro name nameable
    obtain ⟨identifier, text⟩ := nameable_text nameable
    rw [text]
    have opening : ∀ (marked : Bool) (mark : Char), isNameStart mark = false →
        ∀ c ∈ (if marked then [mark] else []), isNameStart c = false := by
      intro marked mark noStart c member
      cases marked with
      | true => rwa [List.mem_singleton.mp member]
      | false => cases member
    refine hasWord_nameless identifier _ ?_
    rw [signedNumeral, nameless_append, nameless_append, nameless_append, nameless_numeral shown,
      nameless_plain (opening enclosed '(' (by decide)), nameless_plain (opening negated '-' (by decide)),
      nameless_plain (opening enclosed ')' (by decide))]
    rfl

/-- The term of a numeral behind a minus sign, if there is one. -/
def minusTerm (negated : Bool) (numeral : Numeral) : Term :=
  if negated then .signed "-" (by decide) (.atom (.number numeral)) else .atom (.number numeral)

def minusWords (enclosed negated : Bool) (numeral : Numeral) : List Word :=
  (if enclosed then [.symbol "("] else []) ++ ((if negated then [.symbol "-"] else []) ++
    (.number numeral :: if enclosed then [.symbol ")"] else []))

theorem spells_minusTerm (negated : Bool) (numeral : Numeral) :
    Spells .signed (minusTerm negated numeral) (minusWords false negated numeral) := by
  have atom : Spells .atom (.atom (.number numeral)) [.number numeral] := .atom (.number numeral)
  cases negated with
  | false => exact spells_looser atom (by decide)
  | true => exact .signed (spells_looser atom (by decide))

theorem spells_minusWords (enclosed negated : Bool) (numeral : Numeral) :
    Spells .ternary (minusTerm negated numeral) (minusWords enclosed negated numeral) := by
  have bare : Spells .ternary (minusTerm negated numeral) (minusWords false negated numeral) :=
    spells_looser (spells_minusTerm negated numeral) (Nat.zero_le _)
  cases enclosed with
  | false => exact bare
  | true =>
    have words : minusWords true negated numeral = .symbol "(" :: (minusWords false negated numeral ++ [.symbol ")"]) := by
      cases negated <;> rfl
    rw [words]
    exact spells_looser (.parentheses bare) (Nat.zero_le _)

theorem apart_symbol {symbol : String} (simple : symbol ∉ ["!", "<", ">", "==", "!=", "*"]) (next : Option Char) :
    (Word.symbol symbol).Apart next := by
  intro c _
  simp only [List.mem_cons, List.not_mem_nil, or_false, not_or] at simple ⊢
  exact ⟨fun _ => ⟨simple.1, simple.2.1, simple.2.2.1, simple.2.2.2.1, simple.2.2.2.2.1⟩, fun _ => simple.2.2.2.2.2⟩

theorem spaced_signedNumeral (enclosed negated : Bool) (numeral : Numeral) :
    Spaced (minusWords enclosed negated numeral) (signedNumeral enclosed negated numeral) := by
  have ended : (Word.number numeral).Apart (some ')') := by
    rintro c ⟨⟩
    decide
  have number : Spaced (.number numeral :: if enclosed then [.symbol ")"] else []) (numeral.text ++ if enclosed then [')'] else []) := by
    cases enclosed with
    | false => exact .word trivial (by simp [Word.Apart]) .nil
    | true => exact .word trivial ended (.word (by decide) (apart_symbol (by decide) none) .nil)
  have minus : Spaced ((if negated then [.symbol "-"] else []) ++ (.number numeral :: if enclosed then [.symbol ")"] else []))
      ((if negated then ['-'] else []) ++ (numeral.text ++ if enclosed then [')'] else [])) := by
    cases negated with
    | false => exact number
    | true => exact .word (by decide) (apart_symbol (by decide) _) number
  cases enclosed with
  | false => exact minus
  | true => exact .word (by decide) (apart_symbol (by decide) _) minus

theorem evaluateReduced_signedNumeral (env : Environment) (enclosed negated : Bool) (numeral : Numeral) :
    (evaluateReduced env (signedNumeral enclosed negated numeral)).toOption = ((minusTerm negated numeral).value env).toOption :=
  evaluateReduced_spelled env (spells_minusWords enclosed negated numeral) (spaced_signedNumeral enclosed negated numeral)

/-! ### Literals of values -/

/-- A text that the stages leave as it is and that is read as the value where the truth values are not bound. -/
structure SpelledAs (value : Value) (text : List Char) : Prop where
  wordless : Wordless text
  reads : ∀ env : Environment, env.lookup "true" = none → env.lookup "false" = none → evaluateReduced env text = .ok value

theorem ok_of_toOption {α : Type} {result : Except Failure α} {value : α} (same : result.toOption = some value) :
    result = .ok value := by
  cases result with
  | error failure => cases same
  | ok found =>
    cases same
    rfl

theorem spelledAs_signedNumeral {value : Value} (enclosed : Bool) {negated : Bool} {numeral : Numeral} (shown : numeral.Shown)
    (known : ∀ env, (minusTerm negated numeral).value env = .ok value) : SpelledAs value (signedNumeral enclosed negated numeral) where
  wordless := wordless_signedNumeral enclosed negated shown
  reads env _ _ := ok_of_toOption (by rw [evaluateReduced_signedNumeral, known]; rfl)

theorem reads_name (env : Environment) (identifier : Identifier) (free : identifier.name ∉ wordOperators) {value : Value}
    (known : nameValue env identifier.name = .ok value) : evaluateReduced env identifier.text = .ok value := by
  have spaced : Spaced [.name identifier] (identifier.text ++ []) := .word trivial (by simp [Word.Apart]) .nil
  rw [List.append_nil] at spaced
  have read := evaluateReduced_spelled env (spells_looser (.atom (.name identifier free)) (Nat.zero_le _)) spaced
  exact ok_of_toOption (read.trans (by rw [Term.value, Atom.value, known]; rfl))

def trueName : Identifier := ⟨'t', "rue".toList, by decide, List.all_eq_true.mp (by decide)⟩

def falseName : Identifier := ⟨'f', "alse".toList, by decide, List.all_eq_true.mp (by decide)⟩

theorem spelledAs_truth (b : Bool) : SpelledAs (.bool b) (if b then "true" else "false").toList where
  wordless := wordless_truth b
  reads env noTrue noFalse := by
    cases b with
    | true =>
      refine reads_name env trueName (by decide) ?_
      rw [nameValue, show trueName.name = "true" from rfl, noTrue]
      rfl
    | false =>
      refine reads_name env falseName (by decide) ?_
      rw [nameValue, show falseName.name = "false" from rfl, noFalse]
      rfl

theorem signedLiteral_eq {text : String} {numeral : Numeral} (negated : Bool)
    (same : text.toList = (if negated then ['-'] else []) ++ numeral.text) (enclosed : Bool) :
    signedLiteral enclosed text = signedNumeral enclosed negated numeral := by
  unfold signedLiteral signedNumeral
  cases enclosed <;> simp [same]

theorem value_minusTerm (env : Environment) {numeral : Numeral} {value : Value} (known : numberValue numeral.text = .ok value)
    (negated : Bool) : (minusTerm negated numeral).value env = if negated then value.neg else .ok value := by
  cases negated with
  | false => exact known
  | true =>
    show (do applySign "-" (← (Term.atom (.number numeral)).value env)) = _
    rw [Term.value, Atom.value, known]
    rfl

theorem toList_int (n : ℤ) : (toString n).toList = (if n < 0 then ['-'] else []) ++ (toString n.natAbs).toList := by
  rw [Int.toString_eq_repr, Int.repr_eq_if]
  by_cases negative : n < 0
  · rw [if_neg (by omega), if_pos negative, String.toList_append, show (-n).toNat = n.natAbs by omega]
    rfl
  · rw [if_pos (by omega), if_neg negative, show n.toNat = n.natAbs by omega]
    rfl

theorem length_toString {n limit : ℕ} (positive : 0 < limit) (small : n < Number.tenTo limit) : (toString n).length ≤ limit :=
  (Nat.length_repr_le_iff positive).mpr small

theorem numberValue_digits {n : ℕ} (small : n < Number.tenTo Number.digitLimit) :
    numberValue (toString n).toList = .ok (.int n) := by
  have only := Number.allDigits_toString n
  have unmarked : ¬ ((toString n).toList.any fun c => c == '.' || c == 'e' || c == 'E') = true := by
    rw [List.any_eq_true]
    rintro ⟨c, member, mark⟩
    simp only [Bool.or_eq_true, beq_iff_eq] at mark
    rcases mark with (rfl | rfl) | rfl <;> exact absurd (only _ member) (by decide)
  have short : ¬ (toString n).toList.length > Number.digitLimit := by
    rw [String.length_toList]
    exact not_lt.mpr (length_toString (by decide) small)
  rw [numberValue, if_neg unmarked, if_neg short, digitsValue_digits only, Number.ofDigitChars_toString]

/-- The digits of an integer are a numeral, which is read as the integer behind a minus sign where it is negative. -/
theorem exists_numeral {n : ℤ} (small : n.natAbs < Number.tenTo Number.digitLimit) : ∃ numeral : Numeral, numeral.Shown ∧
    (toString n).toList = (if decide (n < 0) then ['-'] else []) ++ numeral.text ∧
    ∀ env, (minusTerm (decide (n < 0)) numeral).value env = .ok (.int n) := by
  obtain ⟨numeral, digits, isShown⟩ := @exists_shown _ (Number.toList_toString_ne_nil n.natAbs)
    (Number.allDigits_toString n.natAbs) none (by simp) [] .none
  rw [fractionText, List.append_nil, List.append_nil] at digits
  have known : numberValue numeral.text = .ok (.int n.natAbs) := by
    rw [← digits]
    exact numberValue_digits small
  refine ⟨numeral, isShown, by rw [toList_int, digits]; simp, fun env => ?_⟩
  rw [value_minusTerm env known]
  by_cases negative : n < 0
  · rw [if_pos (by simpa using negative)]
    show Except.ok (Value.int (-(n.natAbs : ℤ))) = _
    rw [show -(n.natAbs : ℤ) = n by omega]
  · rw [if_neg (by simpa using negative), show (n.natAbs : ℤ) = n by omega]

theorem spelledAs_int {n : Int} {text : String} (shown : showInt n = .ok text) : SpelledAs (.int n) (signedLiteral (n < 0) text) := by
  have small : n.natAbs < Number.tenTo Number.digitLimit ∧ text = toString n := by
    unfold showInt Number.intText? at shown
    split at shown
    · rename_i same
      split at same
      · cases same
        cases shown
        exact ⟨‹_›, rfl⟩
      · cases same
    · cases shown
  obtain ⟨small, rfl⟩ := small
  obtain ⟨numeral, isShown, digits, known⟩ := exists_numeral small
  rw [signedLiteral_eq (decide (n < 0)) digits]
  exact spelledAs_signedNumeral _ isShown known

theorem spelledAs_float {x : Float} (finite : Number.isFinite x = true) (enclosed : Bool) :
    SpelledAs (.float x) (signedLiteral enclosed (Number.shortestText x)) := by
  obtain ⟨d, decoded⟩ : ∃ d, Number.decode x = .finite d := by
    unfold Number.isFinite at finite
    split at finite
    · exact ⟨_, ‹_›⟩
    · cases finite
  obtain ⟨numeral, text, shown, within⟩ := shortestText_shown decoded
  have sign : (Number.signText d.negative).toList = if d.negative then ['-'] else [] := by cases d.negative <;> rfl
  rw [sign] at text
  rw [signedLiteral_eq d.negative text enclosed]
  -- a point or an exponent tells it from the numeral of an integer
  have marked : (numeral.text.any fun c => c == '.' || c == 'e' || c == 'E') = true := by
    have inside : ∀ c, c ≠ '-' → c ∈ (Number.shortestText x).toList → c ∈ numeral.text := by
      intro c noSign member
      rw [text] at member
      refine (List.mem_append.mp member).resolve_left fun signed => ?_
      cases negative : d.negative <;> simp [negative, noSign] at signed
    rw [List.any_eq_true]
    rcases (Json.shortestText_chars decoded).2 with point | mark
    · exact ⟨'.', inside '.' (by decide) point, rfl⟩
    · exact ⟨'e', inside 'e' (by decide) mark, rfl⟩
  have known : numberValue numeral.text = .ok (.float (decimalFloat false numeral.text)) := by
    rw [numberValue, if_pos marked]
  refine spelledAs_signedNumeral enclosed shown fun env => ?_
  rw [value_minusTerm env known]
  cases negative : d.negative with
  | false =>
    have read := decimalFloat_numeral shown decoded within
    rw [negative] at read
    rw [read]
    rfl
  | true =>
    -- the numeral is read without its sign, so as the negation, and the sign negates that
    have negated := Number.decode_neg decoded
    have read := decimalFloat_numeral shown negated ⟨within.ge_low, within.le_high, within.apart⟩
    have twice : - -x = x := by
      apply Number.decode_injective
      rw [Number.decode_neg negated, decoded, Bool.not_not]
    rw [show (!d.negative) = false by rw [negative]; rfl] at read
    rw [read]
    show Except.ok (Value.float (- -x)) = _
    rw [twice]

end ProceduralScene.Expression
