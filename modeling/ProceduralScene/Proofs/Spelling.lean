import ProceduralScene.Proofs.CharClasses
import ProceduralScene.Proofs.GrammarReaders

/-!
The tokenizer cuts a text into the words it is made of. Neighbours may stand without a blank where the second does
not go on with the first; the longest word wins, so `**` is not two `*` and `.5` no point and a digit.
-/

set_option autoImplicit false

namespace ProceduralScene.Expression

/-! ### Layout -/

/-- A text made of words and blanks, where every word may stand before the character that follows it. -/
inductive Layout (fits : Word → Option Char → Prop) : List Word → List Char → Prop
  | nil : Layout fits [] []
  | blank {words : List Word} {c : Char} {text : List Char} :
      Text.isSpace c = true → Layout fits words text → Layout fits words (c :: text)
  | word {word : Word} {words : List Word} {text : List Char} :
      word.Proper → fits word text.head? → Layout fits words text → Layout fits (word :: words) (word.text ++ text)

/-- The character does not go on with the word. -/
def Word.Apart : Word → Option Char → Prop
  | .number _, next => ∀ c ∈ next, Text.isDecimal c = false ∧ c ≠ '.' ∧ c ≠ 'e' ∧ c ≠ 'E'
  | .quoted _, _ => True
  | .hex _, next => ∀ c ∈ next, isHexDigit c = false
  | .name _, next => ∀ c ∈ next, isNameChar c = false
  | .symbol s, next => ∀ c ∈ next, (c = '=' → s ∉ ["!", "<", ">", "==", "!="]) ∧ (c = '*' → s ≠ "*")

/-- Words with blanks between them, at least where one would go on with the one before. -/
abbrev Spaced : List Word → List Char → Prop := Layout Word.Apart

/-- Words with any blanks between them. -/
abbrev Written : List Word → List Char → Prop := Layout fun _ _ => True

/-- Words with one blank between them. -/
def spell : List Word → List Char
  | [] => []
  | [word] => word.text
  | word :: next :: rest => word.text ++ ' ' :: spell (next :: rest)

/-! ### Cutting a run of characters of one class -/

section

variable {p : Char → Bool} {run rest : List Char}

theorem takeWhile_run (all : ∀ c ∈ run, p c = true) (stops : ∀ c ∈ rest.head?, p c = false) :
    (run ++ rest).takeWhile p = run := by
  rw [List.takeWhile_append_of_pos all]
  cases rest with
  | nil => rw [List.takeWhile_nil, List.append_nil]
  | cons c rest => rw [List.takeWhile_cons_of_neg (by simp [stops c rfl]), List.append_nil]

theorem dropWhile_run (all : ∀ c ∈ run, p c = true) (stops : ∀ c ∈ rest.head?, p c = false) :
    (run ++ rest).dropWhile p = rest := by
  rw [List.dropWhile_append_of_pos all]
  cases rest with
  | nil => rfl
  | cons c rest => rw [List.dropWhile_cons_of_neg (by simp [stops c rfl])]

end

/-! ### Cutting words -/

theorem cutMantissa_digits {whole : List Char} {fraction : Option (List Char)} {rest : List Char}
    (wholeDecimal : ∀ c ∈ whole, Text.isDecimal c = true)
    (fractionDecimal : ∀ digits ∈ fraction, ∀ c ∈ digits, Text.isDecimal c = true)
    (someDigit : whole ≠ [] ∨ ∃ digits ∈ fraction, digits ≠ [])
    (stops : ∀ c ∈ rest.head?, Text.isDecimal c = false ∧ c ≠ '.') :
    cutMantissa? (whole ++ (fractionText fraction ++ rest)) = some (whole ++ fractionText fraction, rest) := by
  have ended : ∀ c ∈ rest.head?, Text.isDecimal c = false := fun c head => (stops c head).1
  unfold cutMantissa?
  cases fraction with
  | none =>
    rw [fractionText, List.nil_append, takeWhile_run wholeDecimal ended, dropWhile_run wholeDecimal ended]
    cases whole with
    | nil => simp at someDigit
    | cons first whole =>
      cases rest with
      | nil => rw [List.append_nil]
      | cons c rest =>
        have noPoint := (stops c rfl).2
        simp [noPoint]
  | some digits =>
    have point : ∀ c ∈ (fractionText (some digits) ++ rest).head?, Text.isDecimal c = false := by
      intro c head
      cases head
      decide
    rw [takeWhile_run wholeDecimal point, dropWhile_run wholeDecimal point]
    have cut := takeWhile_run (fractionDecimal digits rfl) ended
    have left := dropWhile_run (fractionDecimal digits rfl) ended
    cases whole with
    | nil =>
      have more : digits ≠ [] := by simpa using someDigit
      simp [fractionText, cut, left, more]
    | cons first whole => simp [fractionText, cut, left]

theorem cutExponent_text {exponent : Option Exponent} {rest : List Char}
    (stops : ∀ c ∈ rest.head?, Text.isDecimal c = false ∧ c ≠ '.' ∧ c ≠ 'e' ∧ c ≠ 'E') :
    cutExponent (exponentText exponent ++ rest) = (exponentText exponent, rest) := by
  cases exponent with
  | none =>
    cases rest with
    | nil => rfl
    | cons c rest =>
      have noMark := (stops c rfl).2.2
      simp [exponentText, cutExponent, noMark]
  | some exponent =>
    have signed : ∀ c ∈ exponent.sign.toList, (c == '+' || c == '-') = true := by
      intro c member
      rcases exponent.signed c (by simpa using member) with rfl | rfl <;> rfl
    have digitsStop : ∀ c ∈ (exponent.digits ++ rest).head?, (c == '+' || c == '-') = false := by
      intro c head
      obtain ⟨first, digits, same⟩ := List.exists_cons_of_ne_nil exponent.someDigit
      rw [same] at head
      cases head
      have decimal := exponent.decimal c (by rw [same]; exact List.mem_cons_self)
      refine Bool.eq_false_iff.mpr fun sign => ?_
      simp only [Bool.or_eq_true, beq_iff_eq] at sign
      rcases sign with rfl | rfl <;> revert decimal <;> decide
    have cutSign := takeWhile_run signed digitsStop
    have cutDigits := takeWhile_run exponent.decimal (fun c head => (stops c head).1)
    have short : exponent.sign.toList.length ≤ 1 := by
      cases exponent.sign <;> simp
    have some : exponent.digits ≠ [] := exponent.someDigit
    have marked : (exponent.mark == 'e' || exponent.mark == 'E') = true := by
      rcases exponent.marked with same | same <;> rw [same] <;> rfl
    simp only [exponentText, Exponent.text, List.cons_append, List.append_assoc, cutExponent, marked, if_true, cutSign,
      List.drop_left, cutDigits]
    rw [if_pos (by simp [short, some])]
    simp [← List.append_assoc, ← List.length_append]

theorem cutNumber_text {numeral : Numeral} {rest : List Char} (apart : (Word.number numeral).Apart rest.head?) :
    cutNumber? (numeral.text ++ rest) = some (numeral.text, rest) := by
  have stops : ∀ c ∈ (exponentText numeral.exponent ++ rest).head?, Text.isDecimal c = false ∧ c ≠ '.' := by
    intro c head
    cases same : numeral.exponent with
    | none =>
      rw [same] at head
      exact ⟨(apart c head).1, (apart c head).2.1⟩
    | some exponent =>
      rw [same] at head
      cases head
      rcases exponent.marked with same | same <;> rw [same] <;> decide
  rw [cutNumber?, Numeral.text, List.append_assoc, List.append_assoc,
    cutMantissa_digits numeral.wholeDecimal numeral.fractionDecimal numeral.someDigit stops]
  simp [cutExponent_text apart]

theorem cutNumber_none {c : Char} {rest : List Char} (noDigit : Text.isDecimal c = false) (noPoint : c ≠ '.') :
    cutNumber? (c :: rest) = none := by
  have cut : (c :: rest).takeWhile Text.isDecimal = [] := List.takeWhile_cons_of_neg (by simp [noDigit])
  have left : (c :: rest).dropWhile Text.isDecimal = c :: rest := List.dropWhile_cons_of_neg (by simp [noDigit])
  rw [cutNumber?, cutMantissa?, cut, left]
  simp [noPoint]

/-- The token of a word, when it can be read. -/
def Word.lexed : Word → Except Failure Token
  | .number numeral => (numberValue numeral.text).map .number
  | .quoted quotation => .ok (Word.quoted quotation).token
  | .hex hexWord => .ok (Word.hex hexWord).token
  | .name identifier => .ok (Word.name identifier).token
  | .symbol s => .ok (Word.symbol s).token

theorem cutToken_number {numeral : Numeral} {rest : List Char} (apart : (Word.number numeral).Apart rest.head?) :
    cutToken? (numeral.text ++ rest) = some ((Word.number numeral).lexed.map some, rest) := by
  rw [cutToken?.eq_def, cutNumber_text apart, Word.lexed]
  dsimp only
  cases numberValue numeral.text <;> rfl

theorem cutToken_quoted (quotation : Quotation) (rest : List Char) :
    cutToken? (quotation.text ++ rest) = some ((Word.quoted quotation).lexed.map some, rest) := by
  obtain ⟨quote, content, quoting, free, allowed⟩ := quotation
  have number : cutNumber? (quote :: (content ++ quote :: rest)) = none := by
    refine cutNumber_none ?_ ?_
    · simp only [isQuote, Bool.or_eq_true, beq_iff_eq] at quoting
      rcases quoting with rfl | rfl <;> decide
    · rintro rfl
      revert quoting
      decide
  have inside : ∀ c ∈ content, (c != quote) = true := by
    intro c member
    simp only [bne_iff_ne, ne_eq]
    rintro rfl
    exact free member
  have closing : ∀ c ∈ (quote :: rest).head?, (c != quote) = false := by
    intro c head
    cases head
    simp
  have literal : cutLiteral? (quote :: (content ++ quote :: rest)) = some (content, rest) := by
    rw [cutLiteral?, if_pos quoting, dropWhile_run inside closing, takeWhile_run inside closing]
  have text : Quotation.text ⟨quote, content, quoting, free, allowed⟩ ++ rest = quote :: (content ++ quote :: rest) := by
    simp [Quotation.text]
  rw [text, cutToken?, number, literal]
  rfl

theorem cutToken_name {identifier : Identifier} {rest : List Char} (apart : (Word.name identifier).Apart rest.head?) :
    cutToken? (identifier.text ++ rest) = some ((Word.name identifier).lexed.map some, rest) := by
  obtain ⟨noDigit, noPoint, noQuote⟩ := isNameStart_begins identifier.starts
  have number : cutNumber? (identifier.first :: (identifier.rest ++ rest)) = none := cutNumber_none noDigit noPoint
  have literal : cutLiteral? (identifier.first :: (identifier.rest ++ rest)) = none := by
    rw [cutLiteral?, if_neg (by simp [noQuote])]
  have name : cutName? (identifier.first :: (identifier.rest ++ rest)) = some (identifier.text, rest) := by
    rw [cutName?, if_pos identifier.starts, takeWhile_run identifier.continues apart,
      dropWhile_run identifier.continues apart]
    rfl
  rw [Identifier.text, List.cons_append, cutToken?, number, literal, name]
  rfl

theorem cutToken_hex {hexWord : HexWord} {rest : List Char} (apart : (Word.hex hexWord).Apart rest.head?) :
    cutToken? (hexWord.text ++ rest) = some ((Word.hex hexWord).lexed.map some, rest) := by
  have number : cutNumber? ('#' :: (hexWord.digits ++ rest)) = none := cutNumber_none (by decide) (by decide)
  have cut := takeWhile_run hexWord.hex apart
  have left := dropWhile_run hexWord.hex apart
  have starts : (hexWord.digits ++ rest).head?.any isHexDigit = true := by
    obtain ⟨first, digits, same⟩ := List.exists_cons_of_ne_nil hexWord.someDigit
    rw [same, List.cons_append, List.head?_cons, Option.any_some]
    exact hexWord.hex first (by rw [same]; exact List.mem_cons_self)
  have long : longSymbols.find? (fun s => s.toList.isPrefixOf ('#' :: (hexWord.digits ++ rest))) = none := by
    simp [longSymbols]
  rw [HexWord.text, List.cons_append, cutToken?, number]
  rw [show cutLiteral? ('#' :: (hexWord.digits ++ rest)) = none from rfl]
  rw [show cutName? ('#' :: (hexWord.digits ++ rest)) = none from rfl, long]
  dsimp only
  rw [if_neg (by decide), if_pos (by rw [starts]; rfl), cut, left]
  rfl

/-- A character that starts no number, no quoted text and no name. -/
def startsSymbol : List Char → Bool
  | c :: _ => !Text.isDecimal c && c != '.' && !isQuote c && !isNameStart c
  | [] => false

theorem cutToken_of_startsSymbol {text : List Char} (starts : startsSymbol text = true) :
    cutNumber? text = none ∧ cutLiteral? text = none ∧ cutName? text = none := by
  cases text with
  | nil => cases starts
  | cons c rest =>
    simp only [startsSymbol, Bool.and_eq_true, Bool.not_eq_true', bne_iff_ne] at starts
    obtain ⟨⟨⟨noDigit, noPoint⟩, noQuote⟩, noName⟩ := starts
    refine ⟨cutNumber_none noDigit noPoint, ?_, ?_⟩
    · rw [cutLiteral?, if_neg (by simp [noQuote])]
    · rw [cutName?, if_neg (by simp [noName])]

theorem startsSymbol_symbol : ∀ s ∈ allSymbols, ∀ rest : List Char, startsSymbol (s.toList ++ rest) = true := by
  have starts : ∀ s ∈ allSymbols, startsSymbol s.toList = true := by decide
  intro s known rest
  have own := starts s known
  cases same : s.toList with
  | nil => rw [same] at own; cases own
  | cons c more => rw [same] at own; exact own

/-- The symbols that an `=` behind them makes longer. -/
def beforeEqual : List String := ["!", "<", ">", "==", "!="]

theorem find_longSymbol {s : String} (known : s ∈ longSymbols) {rest : List Char} (apart : (Word.symbol s).Apart rest.head?) :
    longSymbols.find? (fun symbol => symbol.toList.isPrefixOf (s.toList ++ rest)) = some s := by
  cases rest with
  | nil =>
    rw [List.append_nil]
    clear apart
    revert s
    decide
  | cons c rest =>
    have noEqual : s ∈ beforeEqual → ('=' == c) = false := by
      intro merges
      refine Bool.eq_false_iff.mpr fun same => ?_
      exact (apart c rfl).1 (beq_iff_eq.mp same).symm merges
    simp only [longSymbols, List.mem_cons, List.not_mem_nil, or_false] at known
    rcases known with rfl | rfl | rfl | rfl | rfl | rfl | rfl | rfl | rfl
    all_goals simp [longSymbols, List.find?, List.isPrefixOf]
    · rw [noEqual (by decide)]
    · rw [noEqual (by decide)]

theorem find_shortSymbol {c : Char} (known : c ∈ shortSymbols) {rest : List Char}
    (apart : (Word.symbol (String.ofList [c])).Apart rest.head?) :
    longSymbols.find? (fun symbol => symbol.toList.isPrefixOf (c :: rest)) = none := by
  rw [List.find?_eq_none]
  intro symbol long initial
  cases rest with
  | nil =>
    have single : ∀ symbol ∈ longSymbols, shortSymbols.all (fun c => !symbol.toList.isPrefixOf [c]) = true := by decide
    have none := List.all_eq_true.mp (single symbol long) c known
    rw [initial] at none
    cases none
  | cons d rest =>
    -- a longer symbol takes the next character, and only `=` and `*` are taken
    have taken : ∀ symbol ∈ longSymbols, shortSymbols.all (fun c => symbol.toList.head? != some c ||
        symbol.toList[1]? == some '=' && beforeEqual.contains (String.ofList [c]) ||
        symbol.toList[1]? == some '*' && c == '*') = true := by
      decide
    have second : ∃ more, symbol.toList = c :: d :: more := by
      have pairs : ∀ symbol ∈ longSymbols, 2 ≤ symbol.toList.length := by decide
      have two := pairs symbol long
      obtain ⟨more, same⟩ := List.isPrefixOf_iff_prefix.mp initial
      cases text : symbol.toList with
      | nil => rw [text] at two; simp at two
      | cons a text' =>
        cases text' with
        | nil => rw [text] at two; simp at two
        | cons b more' =>
          rw [text, List.cons_append, List.cons_append, List.cons.injEq, List.cons.injEq] at same
          exact ⟨more', by rw [same.1, same.2.1]⟩
    obtain ⟨more, text⟩ := second
    have next := List.all_eq_true.mp (taken symbol long) c known
    simp only [text, List.head?_cons, List.getElem?_cons_succ, List.getElem?_cons_zero, bne_self_eq_false, Bool.false_or,
      Bool.or_eq_true, Bool.and_eq_true, beq_iff_eq, Option.some.injEq, List.contains_iff_mem] at next
    rcases next with ⟨equal, merges⟩ | ⟨star, same⟩
    · exact (apart d rfl).1 equal merges
    · exact (apart d rfl).2 star (by rw [same])

theorem cutToken_symbol {s : String} (known : s ∈ allSymbols) {rest : List Char} (apart : (Word.symbol s).Apart rest.head?) :
    cutToken? (s.toList ++ rest) = some ((Word.symbol s).lexed.map some, rest) := by
  obtain ⟨number, literal, name⟩ := cutToken_of_startsSymbol (startsSymbol_symbol s known rest)
  rw [cutToken?.eq_def, number, literal, name]
  dsimp only
  rcases List.mem_append.mp known with long | short
  · rw [find_longSymbol long apart]
    dsimp only
    rw [← String.length_toList, List.drop_left]
    rfl
  · obtain ⟨c, member, rfl⟩ := List.mem_map.mp short
    rw [String.toList_ofList, List.singleton_append, find_shortSymbol member apart]
    dsimp only
    rw [if_pos (List.contains_iff_mem.mpr member)]
    rfl

theorem cutToken_word {word : Word} (proper : word.Proper) {rest : List Char} (apart : word.Apart rest.head?) :
    cutToken? (word.text ++ rest) = some (word.lexed.map some, rest) := by
  cases word with
  | number numeral => exact cutToken_number apart
  | quoted quotation => exact cutToken_quoted quotation rest
  | hex hexWord => exact cutToken_hex apart
  | name identifier => exact cutToken_name apart
  | symbol s => exact cutToken_symbol proper apart

theorem startsSymbol_blank {c : Char} (space : Text.isSpace c = true) (rest : List Char) :
    startsSymbol (c :: rest) = true := by
  have noDigit := Text.not_isDecimal_of_isSpace space
  have noPoint : c ≠ '.' := ne_of_isSpace space (by decide)
  have noQuote : isQuote c = false := by
    have single : c ≠ '\'' := ne_of_isSpace space (by decide)
    have double : c ≠ '"' := ne_of_isSpace space (by decide)
    simp [isQuote, single, double]
  have noName : isNameStart c = false := by
    refine Bool.eq_false_iff.mpr fun start => ?_
    have char := isNameChar_of_isSpace space
    rw [isNameChar_of_isNameStart start] at char
    cases char
  simp [startsSymbol, noDigit, noPoint, noQuote, noName]

theorem cutToken_blank {c : Char} (space : Text.isSpace c = true) (rest : List Char) :
    cutToken? (c :: rest) = some (.ok none, rest.dropWhile Text.isSpace) := by
  obtain ⟨number, literal, name⟩ := cutToken_of_startsSymbol (startsSymbol_blank space rest)
  have long : longSymbols.find? (fun symbol => symbol.toList.isPrefixOf (c :: rest)) = none := by
    rw [List.find?_eq_none]
    intro symbol member initial
    have printing : ∀ symbol ∈ longSymbols, symbol.toList.head?.any (fun d => 33 ≤ d.toNat && d.toNat < 128) = true := by
      decide
    have starts := printing symbol member
    obtain ⟨more, same⟩ := List.isPrefixOf_iff_prefix.mp initial
    cases text : symbol.toList with
    | nil => rw [text] at starts; cases starts
    | cons d text' =>
      rw [text, List.cons_append, List.cons.injEq] at same
      rw [text, List.head?_cons, Option.any_some, Bool.and_eq_true, decide_eq_true_eq, decide_eq_true_eq] at starts
      exact ne_of_isSpace space starts same.1.symm
  have short : shortSymbols.contains c = false := by
    refine Bool.eq_false_iff.mpr fun known => ?_
    have printing : shortSymbols.all (fun d => 33 ≤ d.toNat && d.toNat < 128) = true := by decide
    have own := List.all_eq_true.mp printing c (List.contains_iff_mem.mp known)
    rw [Bool.and_eq_true, decide_eq_true_eq, decide_eq_true_eq] at own
    exact ne_of_isSpace space own rfl
  have noHash : (c == '#') = false := beq_eq_false_iff_ne.mpr (ne_of_isSpace space (by decide))
  rw [cutToken?, number, literal, name, long]
  dsimp only
  rw [short, noHash, if_neg Bool.false_ne_true, Bool.false_and, if_neg Bool.false_ne_true, if_pos space]

/-! ### Tokens of a text -/

/-- The tokens of words, when all can be read. -/
def lexAll : List Word → Except Failure (List Token)
  | [] => .ok []
  | word :: rest => do return (← word.lexed) :: (← lexAll rest)

theorem lexed_token (word : Word) : Sure (fun token => word.Reads ∧ token = word.token) word.lexed := by
  cases word with
  | number numeral =>
    intro token lexed
    cases known : numberValue numeral.text with
    | error failure => rw [Word.lexed, known] at lexed; cases lexed
    | ok value =>
      rw [Word.lexed, known] at lexed
      cases lexed
      exact ⟨⟨value, known⟩, by rw [Word.token, known]; rfl⟩
  | _ => exact sure_ok ⟨trivial, rfl⟩

theorem lexed_reads {word : Word} (reads : word.Reads) : word.lexed = .ok word.token := by
  cases word with
  | number numeral =>
    obtain ⟨value, known⟩ := reads
    rw [Word.lexed, Word.token, known]
    rfl
  | _ => rfl

theorem lexAll_tokens (words : List Word) : Sure (fun found => AllRead words ∧ found = tokens words) (lexAll words) := by
  induction words with
  | nil => exact sure_ok ⟨allRead_nil, rfl⟩
  | cons word rest ih =>
    refine sure_then (lexed_token word) fun token known => sure_then ih fun found further => sure_pure ?_
    exact ⟨allRead_cons.mpr ⟨known.1, further.1⟩, by rw [known.2, further.2, tokens_cons]⟩

theorem lexAll_reads {words : List Word} (all : AllRead words) : lexAll words = .ok (tokens words) := by
  induction words with
  | nil => rfl
  | cons word rest ih =>
    rw [lexAll, lexed_reads (allRead_cons.mp all).1, ih (allRead_cons.mp all).2]
    rfl

theorem text_ne_nil {word : Word} (proper : word.Proper) : word.text ≠ [] := by
  cases word with
  | number numeral =>
    intro empty
    simp only [Word.text, Numeral.text, List.append_eq_nil_iff] at empty
    rcases numeral.someDigit with digits | ⟨digits, same, _⟩
    · exact digits empty.1
    · rw [show numeral.fraction = some digits from same] at empty
      cases empty.2.1
  | quoted quotation => exact List.cons_ne_nil _ _
  | hex hexWord => exact List.cons_ne_nil _ _
  | name identifier => exact List.cons_ne_nil _ _
  | symbol s =>
    have nonempty : ∀ s ∈ allSymbols, s.toList ≠ [] := by decide
    exact nonempty s proper

theorem layout_dropWhile {fits : Word → Option Char → Prop} {words : List Word} {text : List Char}
    (noBlank : ∀ word : Word, word.Proper → ∀ c ∈ word.text.head?, Text.isSpace c = false)
    (layout : Layout fits words text) : Layout fits words (text.dropWhile Text.isSpace) := by
  induction layout with
  | nil => exact .nil
  | blank space _ ih =>
    rw [List.dropWhile_cons_of_pos space]
    exact ih
  | @word word words text proper apart further _ =>
    obtain ⟨c, more, same⟩ := List.exists_cons_of_ne_nil (text_ne_nil proper)
    have solid := noBlank word proper c (by rw [same]; rfl)
    rw [same, List.cons_append, List.dropWhile_cons_of_neg (by simp [solid]), ← List.cons_append, ← same]
    exact .word proper apart further

theorem head_no_blank (word : Word) (proper : word.Proper) : ∀ c ∈ word.text.head?, Text.isSpace c = false := by
  intro c head
  refine Bool.eq_false_iff.mpr fun space => ?_
  cases word with
  | number numeral =>
    have noDigit := Text.not_isDecimal_of_isSpace space
    cases same : numeral.whole with
    | nil =>
      rcases numeral.someDigit with digits | ⟨digits, fraction, _⟩
      · exact digits same
      · rw [Word.text, Numeral.text, same, show numeral.fraction = some digits from fraction] at head
        cases head
        revert space
        decide
    | cons first whole =>
      rw [Word.text, Numeral.text, same] at head
      cases head
      rw [numeral.wholeDecimal c (by rw [same]; exact List.mem_cons_self)] at noDigit
      cases noDigit
  | quoted quotation =>
    cases head
    have quoting := quotation.quoting
    simp only [isQuote, Bool.or_eq_true, beq_iff_eq] at quoting
    rcases quoting with same | same <;> rw [same] at space <;> revert space <;> decide
  | hex hexWord =>
    cases head
    revert space
    decide
  | name identifier =>
    cases head
    have noName := isNameChar_of_isSpace space
    rw [isNameChar_of_isNameStart identifier.starts] at noName
    cases noName
  | symbol s =>
    have solid : ∀ s ∈ allSymbols, s.toList.head?.any Text.isSpace = false := by decide
    have own := solid s proper
    rw [show s.toList.head? = some c from head, Option.any_some, space] at own
    cases own

/-- The tokens of a text are those of its words. -/
theorem tokensFrom_spaced (whole : String) (fuel : Nat) : ∀ (position : Nat) (words : List Word) (text : List Char),
    text.length ≤ fuel → Spaced words text → tokensFrom whole position fuel text = lexAll words := by
  induction fuel with
  | zero =>
    intro position words text short spaced
    cases spaced with
    | nil => rfl
    | blank _ _ => simp at short
    | word proper _ _ => simp [text_ne_nil proper] at short
  | succ fuel ih =>
    intro position words text short spaced
    cases spaced with
    | nil => rfl
    | @blank _ c text space further =>
      have fewer : (text.dropWhile Text.isSpace).length ≤ fuel := by
        have suffix : (text.dropWhile Text.isSpace).length ≤ text.length := (List.dropWhile_suffix _).length_le
        simp only [List.length_cons] at short
        omega
      rw [tokensFrom, cutToken_blank space]
      · dsimp only
        rw [ih _ words _ fewer (layout_dropWhile head_no_blank further)]
        cases lexAll words <;> rfl
      · exact List.cons_ne_nil _ _
    | @word word words text proper apart further =>
      obtain ⟨c, more, same⟩ := List.exists_cons_of_ne_nil (text_ne_nil proper)
      have cut := cutToken_word proper apart
      rw [tokensFrom, cut]
      · dsimp only
        rw [ih _ words text ?_ further, lexAll]
        · cases word.lexed <;> rfl
        · rw [same, List.cons_append, List.length_cons, List.length_append] at short
          omega
      · rw [same]
        exact List.cons_ne_nil _ _

theorem tokenize_spaced {words : List Word} {text : List Char} (spaced : Spaced words text) :
    tokenize text = lexAll words :=
  tokensFrom_spaced _ _ 0 words text (Nat.le_refl _) spaced

/-! ### Words of a text -/

theorem cutMantissa_found {text mantissa rest : List Char} (cut : cutMantissa? text = some (mantissa, rest)) :
    ∃ whole fraction, (∀ c ∈ whole, Text.isDecimal c = true) ∧
      (∀ digits ∈ fraction, ∀ c ∈ digits, Text.isDecimal c = true) ∧ (whole ≠ [] ∨ ∃ digits ∈ fraction, digits ≠ []) ∧
      mantissa = whole ++ fractionText fraction ∧ text = mantissa ++ rest := by
  have decimal (l : List Char) : ∀ c ∈ l.takeWhile Text.isDecimal, Text.isDecimal c = true :=
    fun c => List.all_eq_true.mp List.all_takeWhile c
  have whole := decimal text
  have together : text.takeWhile Text.isDecimal ++ text.dropWhile Text.isDecimal = text := List.takeWhile_append_dropWhile
  unfold cutMantissa? at cut
  dsimp only at cut
  split at cut
  · rename_i after none behind
    split at cut
    · cases cut
    · rename_i some
      cases cut
      have fraction := decimal after
      refine ⟨[], Option.some (after.takeWhile Text.isDecimal), by simp, ?_, ?_, rfl, ?_⟩
      · rintro digits ⟨⟩
        exact fraction
      · exact .inr ⟨_, rfl, by simpa using some⟩
      · rw [← together, none, behind, List.cons_append, List.takeWhile_append_dropWhile, List.nil_append]
  · cases cut
  · rename_i first others after same behind
    cases cut
    have fraction := decimal after
    refine ⟨first :: others, some (after.takeWhile Text.isDecimal), by rw [← same]; exact whole, ?_,
      .inl (List.cons_ne_nil _ _), by rw [same]; rfl, ?_⟩
    · rintro digits ⟨⟩
      exact fraction
    · conv => lhs; rw [← together]
      simp [same, behind, List.takeWhile_append_dropWhile]
  · rename_i first others same _
    cases cut
    refine ⟨first :: others, none, by rw [← same]; exact whole, by simp, .inl (List.cons_ne_nil _ _), ?_, ?_⟩
    · rw [fractionText, List.append_nil, same]
    · rw [together]

theorem prefix_drop {run rest : List Char} (starts : run <+: rest) : run ++ rest.drop run.length = rest :=
  (List.prefix_iff_eq_append.mp starts)

theorem cutExponent_found (text : List Char) : ∃ exponent, (cutExponent text).1 = exponentText exponent ∧
    text = (cutExponent text).1 ++ (cutExponent text).2 := by
  cases text with
  | nil => exact ⟨none, rfl, rfl⟩
  | cons mark rest =>
    rw [cutExponent]
    split
    · rename_i marked
      dsimp only
      have signs : ∀ c ∈ rest.takeWhile (fun c => c == '+' || c == '-'), c = '+' ∨ c = '-' := by
        intro c member
        simpa using List.all_eq_true.mp List.all_takeWhile c member
      have together := prefix_drop (@List.takeWhile_prefix _ rest fun c => c == '+' || c == '-')
      generalize rest.takeWhile (fun c => c == '+' || c == '-') = run at signs together ⊢
      have decimal : ∀ c ∈ (rest.drop run.length).takeWhile Text.isDecimal, Text.isDecimal c = true :=
        fun c => List.all_eq_true.mp List.all_takeWhile c
      have further := prefix_drop (@List.takeWhile_prefix _ (rest.drop run.length) Text.isDecimal)
      generalize (rest.drop run.length).takeWhile Text.isDecimal = digits at decimal further ⊢
      rw [List.drop_drop] at further
      split
      · rename_i complete
        rw [Bool.and_eq_true, decide_eq_true_eq, Bool.not_eq_true', List.isEmpty_eq_false_iff] at complete
        rw [Bool.or_eq_true, beq_iff_eq, beq_iff_eq] at marked
        have single : run.head?.toList = run := by
          cases run with
          | nil => rfl
          | cons c run =>
            cases run with
            | nil => rfl
            | cons d run => simp at complete
        refine ⟨some ⟨mark, run.head?, digits, marked, ?_, complete.2, decimal⟩, ?_, ?_⟩
        · intro c head
          exact signs c (List.mem_of_mem_head? head)
        · rw [exponentText, Exponent.text, single, List.cons_append]
        · conv => lhs; rw [← together, ← further]
          simp
      · exact ⟨none, rfl, rfl⟩
    · exact ⟨none, rfl, rfl⟩

theorem cutNumber_found {text digits rest : List Char} (cut : cutNumber? text = some (digits, rest)) :
    ∃ numeral : Numeral, numeral.text = digits ∧ text = digits ++ rest := by
  rw [cutNumber?, Option.map_eq_some_iff] at cut
  obtain ⟨⟨mantissa, behind⟩, found, same⟩ := cut
  rw [Prod.mk.injEq] at same
  obtain ⟨rfl, rfl⟩ := same
  obtain ⟨whole, fraction, wholeDecimal, fractionDecimal, someDigit, rfl, rfl⟩ := cutMantissa_found found
  obtain ⟨exponent, mark, together⟩ := cutExponent_found behind
  refine ⟨⟨whole, fraction, exponent, wholeDecimal, fractionDecimal, someDigit⟩, ?_, ?_⟩
  · rw [Numeral.text, mark, List.append_assoc]
  · conv => lhs; rw [together]
    simp

theorem cutLiteral_found {text content rest : List Char} (cut : cutLiteral? text = some (content, rest))
    (allowed : ∀ c ∈ text, isAllowed c = true) :
    ∃ quotation : Quotation, quotation.content = content ∧ text = quotation.text ++ rest := by
  cases text with
  | nil => cases cut
  | cons quote behind =>
    rw [cutLiteral?] at cut
    split at cut
    · rename_i quoting
      have together : behind.takeWhile (· != quote) ++ behind.dropWhile (· != quote) = behind :=
        List.takeWhile_append_dropWhile
      have other : ∀ c ∈ behind.takeWhile (· != quote), (c != quote) = true :=
        fun c => List.all_eq_true.mp List.all_takeWhile c
      split at cut
      · rename_i closing after same
        cases cut
        have closes : closing = quote := by
          have head := List.head?_dropWhile_not (· != quote) behind
          rw [same] at head
          simpa using head
        subst closes
        refine ⟨⟨closing, behind.takeWhile (· != closing), quoting, ?_, ?_⟩, rfl, ?_⟩
        · intro member
          have not := other closing member
          simp at not
        · intro c member
          exact allowed c (List.mem_cons_of_mem _ (List.takeWhile_subset _ member))
        · rw [Quotation.text]
          conv => lhs; rw [← together, same]
          simp
      · cases cut
    · cases cut

theorem cutName_found {text name rest : List Char} (cut : cutName? text = some (name, rest)) :
    ∃ identifier : Identifier, identifier.text = name ∧ text = name ++ rest := by
  cases text with
  | nil => cases cut
  | cons first behind =>
    rw [cutName?] at cut
    split at cut
    · rename_i starts
      cases cut
      refine ⟨⟨first, behind.takeWhile isNameChar, starts, fun c => List.all_eq_true.mp List.all_takeWhile c⟩, rfl, ?_⟩
      rw [List.cons_append, List.takeWhile_append_dropWhile]
    · cases cut

/-- What is cut from a text of allowed characters is a word, or blanks. -/
theorem cutToken_found {text rest : List Char} {found : Except Failure (Option Token)}
    (cut : cutToken? text = some (found, rest)) (allowed : ∀ c ∈ text, isAllowed c = true) :
    (∃ word : Word, word.Proper ∧ found = word.lexed.map some ∧ text = word.text ++ rest) ∨
      ∃ c blanks, Text.isSpace c = true ∧ (∀ b ∈ blanks, Text.isSpace b = true) ∧ found = .ok none ∧
        text = c :: (blanks ++ rest) := by
  cases text with
  | nil => cases cut
  | cons c behind =>
  rw [cutToken?.eq_def] at cut
  dsimp only at cut
  split at cut
  · rename_i digits rest number
    cases cut
    obtain ⟨numeral, rfl, same⟩ := cutNumber_found number
    refine .inl ⟨.number numeral, trivial, ?_, same⟩
    rw [Word.lexed]
    cases numberValue numeral.text <;> rfl
  · split at cut
    · rename_i content behind literal
      cases cut
      obtain ⟨quotation, rfl, same⟩ := cutLiteral_found literal allowed
      exact .inl ⟨.quoted quotation, trivial, rfl, same⟩
    · split at cut
      · rename_i name behind named
        cases cut
        obtain ⟨identifier, rfl, same⟩ := cutName_found named
        exact .inl ⟨.name identifier, trivial, rfl, same⟩
      · split at cut
        · rename_i s long
          cases cut
          have starts := List.find?_some long
          refine .inl ⟨.symbol s, List.mem_append_left _ (List.mem_of_find?_eq_some long), rfl, ?_⟩
          rw [Word.text, ← String.length_toList]
          exact (prefix_drop (List.isPrefixOf_iff_prefix.mp starts)).symm
        · split at cut
          · rename_i short
            cases cut
            have member := List.contains_iff_mem.mp short
            refine .inl ⟨.symbol (String.ofList [c]), List.mem_append_right _ (List.mem_map_of_mem member), rfl, ?_⟩
            rw [Word.text, String.toList_ofList, List.singleton_append]
          · split at cut
            · rename_i hash
              cases cut
              rw [Bool.and_eq_true, beq_iff_eq] at hash
              obtain ⟨rfl, digit⟩ := hash
              have digits : behind.takeWhile isHexDigit ≠ [] := by
                cases behind with
                | nil => cases digit
                | cons d more =>
                  rw [List.head?_cons, Option.any_some] at digit
                  rw [List.takeWhile_cons_of_pos digit]
                  exact List.cons_ne_nil _ _
              refine .inl ⟨.hex ⟨behind.takeWhile isHexDigit, digits, fun d => List.all_eq_true.mp List.all_takeWhile d⟩,
                trivial, rfl, ?_⟩
              rw [Word.text, HexWord.text, List.cons_append, List.takeWhile_append_dropWhile]
            · split at cut
              · rename_i space
                cases cut
                refine .inr ⟨c, behind.takeWhile Text.isSpace, space, fun b => List.all_eq_true.mp List.all_takeWhile b,
                  rfl, ?_⟩
                rw [List.takeWhile_append_dropWhile]
              · cases cut

theorem written_blanks {words : List Word} {text : List Char} (blanks : List Char)
    (spaces : ∀ b ∈ blanks, Text.isSpace b = true) (written : Written words text) : Written words (blanks ++ text) := by
  induction blanks with
  | nil => exact written
  | cons b blanks ih =>
    exact .blank (spaces b List.mem_cons_self) (ih fun c member => spaces c (List.mem_cons_of_mem _ member))

/-- A text that has tokens is written with words that have these tokens. -/
theorem written_tokensFrom (whole : String) (fuel : Nat) : ∀ (position : Nat) (text : List Char), text.length ≤ fuel →
    (∀ c ∈ text, isAllowed c = true) →
    Sure (fun found => ∃ words, Written words text ∧ Lexical words ∧ found = tokens words)
      (tokensFrom whole position fuel text) := by
  induction fuel with
  | zero =>
    intro position text short allowed
    cases text with
    | nil => exact sure_ok ⟨[], .nil, fun _ member => (nomatch member), rfl⟩
    | cons c text => simp at short
  | succ fuel ih =>
    intro position text short allowed
    cases text with
    | nil => exact sure_ok ⟨[], .nil, fun _ member => (nomatch member), rfl⟩
    | cons c text =>
      rw [tokensFrom]
      · split
        · exact sure_error _
        · rename_i found rest cut
          rcases cutToken_found cut allowed with ⟨word, proper, rfl, same⟩ | ⟨d, blanks, space, spaces, rfl, same⟩
          · have fewer : rest.length ≤ fuel := by
              have lengths := congrArg List.length same
              have positive := List.length_pos_iff.mpr (text_ne_nil proper)
              simp only [List.length_cons, List.length_append] at lengths short
              omega
            have inside : ∀ c ∈ rest, isAllowed c = true := fun c member =>
              allowed c (by rw [same]; exact List.mem_append_right _ member)
            refine sure_bind fun found lexed => ?_
            obtain ⟨token, known, rfl⟩ : ∃ token, word.lexed = .ok token ∧ found = some token := by
              cases lexes : word.lexed with
              | error failure => rw [lexes] at lexed; cases lexed
              | ok token => rw [lexes] at lexed; cases lexed; exact ⟨token, rfl, rfl⟩
            obtain ⟨reads, rfl⟩ := lexed_token word token known
            refine sure_then (ih _ rest fewer inside) ?_
            rintro _ ⟨words, written, lexical, rfl⟩
            refine sure_pure ⟨word :: words, ?_, lexical_cons.mpr ⟨⟨proper, reads⟩, lexical⟩, rfl⟩
            rw [same]
            exact .word proper trivial written
          · cases same
            have fewer : rest.length ≤ fuel := by
              simp only [List.length_cons, List.length_append] at short
              omega
            have inside : ∀ c ∈ rest, isAllowed c = true := fun c member =>
              allowed c (List.mem_cons_of_mem _ (List.mem_append_right _ member))
            refine sure_bind fun found same => ?_
            cases same
            refine sure_then (ih _ rest fewer inside) ?_
            rintro _ ⟨words, written, lexical, rfl⟩
            exact sure_pure ⟨words, .blank space (written_blanks blanks spaces written), lexical, rfl⟩
      · exact List.cons_ne_nil _ _

/-! ### Allowed characters -/

theorem allowed_of_isWord {c : Char} (word : Text.isWord c = true) : isAllowed c = true := by
  rw [isAllowed, word, Bool.true_or, Bool.true_or]

theorem allowed_decimal {digits : List Char} (decimal : ∀ c ∈ digits, Text.isDecimal c = true) :
    ∀ c ∈ digits, isAllowed c = true :=
  fun c member => allowed_of_isWord (Text.isWord_of_isDecimal (decimal c member))

theorem allowed_exponent (exponent : Exponent) : ∀ c ∈ exponent.text, isAllowed c = true := by
  intro c member
  rcases List.mem_cons.mp member with rfl | later
  · rcases exponent.marked with same | same <;> rw [same] <;> decide
  · rcases List.mem_append.mp later with sign | digit
    · rcases exponent.signed c (by simpa using sign) with rfl | rfl <;> decide
    · exact allowed_decimal exponent.decimal c digit

theorem allowed_numeral (numeral : Numeral) : ∀ c ∈ numeral.text, isAllowed c = true := by
  intro c member
  rcases List.mem_append.mp member with whole | later
  · exact allowed_decimal numeral.wholeDecimal c whole
  · rcases List.mem_append.mp later with fraction | mark
    · cases same : numeral.fraction with
      | none => rw [same] at fraction; cases fraction
      | some digits =>
        rw [same] at fraction
        rcases List.mem_cons.mp fraction with rfl | digit
        · decide
        · exact allowed_decimal (numeral.fractionDecimal digits same) c digit
    · cases same : numeral.exponent with
      | none => rw [same] at mark; cases mark
      | some exponent =>
        rw [same] at mark
        exact allowed_exponent exponent c mark

theorem allowed_word {word : Word} (proper : word.Proper) : ∀ c ∈ word.text, isAllowed c = true := by
  cases word with
  | number numeral => exact allowed_numeral numeral
  | quoted quotation =>
    have quote : isAllowed quotation.quote = true := by
      have quoting := quotation.quoting
      simp only [isQuote, Bool.or_eq_true, beq_iff_eq] at quoting
      rcases quoting with same | same <;> rw [same] <;> decide
    intro c member
    rcases List.mem_cons.mp member with rfl | later
    · exact quote
    · rcases List.mem_append.mp later with inside | last
      · exact quotation.allowed c inside
      · rw [List.mem_singleton.mp last]
        exact quote
  | hex hexWord =>
    intro c member
    rcases List.mem_cons.mp member with rfl | digit
    · decide
    · exact allowed_of_isWord (isWord_of_isAlphanum (isAlphanum_of_isHexDigit (hexWord.hex c digit)))
  | name identifier =>
    intro c member
    rcases List.mem_cons.mp member with rfl | later
    · exact allowed_of_isWord (isWord_of_isNameChar (isNameChar_of_isNameStart identifier.starts))
    · exact allowed_of_isWord (isWord_of_isNameChar (identifier.continues c later))
  | symbol s =>
    have symbols : ∀ s ∈ allSymbols, s.toList.all isAllowed = true := by decide
    exact List.all_eq_true.mp (symbols s proper)

theorem allowed_layout {fits : Word → Option Char → Prop} {words : List Word} {text : List Char}
    (layout : Layout fits words text) : ∀ c ∈ text, isAllowed c = true := by
  induction layout with
  | nil => exact fun _ member => nomatch member
  | blank space _ ih =>
    intro c member
    rcases List.mem_cons.mp member with rfl | later
    · rw [isAllowed, space, Bool.or_true, Bool.true_or]
    · exact ih c later
  | word proper _ _ ih =>
    intro c member
    rcases List.mem_append.mp member with own | later
    · exact allowed_word proper c own
    · exact ih c later

/-! ### One blank between the words -/

theorem apart_none (word : Word) : word.Apart none := by
  cases word with
  | quoted quotation => trivial
  | _ => exact fun _ member => nomatch member

theorem apart_blank (word : Word) {c : Char} (space : Text.isSpace c = true) : word.Apart (some c) := by
  cases word with
  | quoted quotation => trivial
  | number numeral =>
    rintro _ ⟨⟩
    exact ⟨Text.not_isDecimal_of_isSpace space, ne_of_isSpace space (by decide), ne_of_isSpace space (by decide),
      ne_of_isSpace space (by decide)⟩
  | hex hexWord =>
    rintro _ ⟨⟩
    exact isHexDigit_of_isSpace space
  | name identifier =>
    rintro _ ⟨⟩
    exact isNameChar_of_isSpace space
  | symbol s =>
    rintro _ ⟨⟩
    exact ⟨fun same => absurd same (ne_of_isSpace space (by decide)),
      fun same => absurd same (ne_of_isSpace space (by decide))⟩

theorem spaced_spell {words : List Word} (proper : ∀ word ∈ words, word.Proper) : Spaced words (spell words) := by
  induction words with
  | nil => exact .nil
  | cons word words ih =>
    have own := proper word List.mem_cons_self
    have further := ih fun other member => proper other (List.mem_cons_of_mem _ member)
    cases words with
    | nil =>
      have single : Spaced [word] (word.text ++ []) := .word own (apart_none word) .nil
      rwa [List.append_nil] at single
    | cons next rest => exact .word own (apart_blank word (by decide)) (.blank (by decide) further)

end ProceduralScene.Expression
