import Mathlib.Tactic.Common
import ProceduralScene.Proofs.ShownNumber
import ProceduralScene.Value.Json

/-!
The canonical texts of numbers, of null and booleans, and of texts can be read back: from a text that starts with one
of them and goes on with a character that none of them holds, the value and the rest are determined.
-/

set_option autoImplicit false

namespace ProceduralScene.Json

open Number

def hexDigitValue (c : Char) : ℕ := if c.toNat < 97 then c.toNat - 48 else c.toNat - 87

def hexValue (digits : List Char) : ℕ := digits.foldl (fun value c => 16 * value + hexDigitValue c) 0

theorem hexDigitValue_digitChar : ∀ d < 16, hexDigitValue (Nat.digitChar d) = d := by decide

theorem hexValue_toDigits (n : ℕ) : hexValue (Nat.toDigits 16 n) = n := by
  induction n using Nat.strongRecOn with
  | ind n ih =>
    by_cases small : n < 16
    · rw [Nat.toDigits_of_lt_base small]
      simp [hexValue, hexDigitValue_digitChar n small]
    · rw [Nat.toDigits_of_base_le (by decide) (by omega)]
      have front := ih (n / 16) (by omega)
      unfold hexValue at front ⊢
      rw [List.foldl_append, front, List.foldl_cons, List.foldl_nil, hexDigitValue_digitChar _ (by omega)]
      omega

theorem hexValue_padded (digits : List Char) (count : ℕ) :
    hexValue (List.replicate count '0' ++ digits) = hexValue digits := by
  induction count with
  | zero => rfl
  | succ count ih => exact ih

theorem hexDigits_spec {n : ℕ} (small : n < 65536) :
    (Text.hexDigits 4 n).length = 4 ∧ hexValue (Text.hexDigits 4 n) = n := by
  constructor
  · have := (Nat.length_toDigits_le_iff (b := 16) (n := n) (k := 4) (by decide) (by decide)).mpr (by omega)
    simp only [Text.hexDigits, List.length_append, List.length_replicate]
    omega
  · unfold Text.hexDigits
    rw [hexValue_padded, hexValue_toDigits]

/-- Reads the character that the escapes at the head of a text stand for. -/
def unescape : List Char → Option (Char × List Char)
  | '\\' :: 'u' :: rest =>
    let unit := hexValue (rest.take 4)
    if 0xd800 ≤ unit ∧ unit < 0xdc00 then
      some (Char.ofNat (65536 + (unit - 0xd800) * 1024 + (hexValue ((rest.drop 6).take 4) - 0xdc00)), rest.drop 10)
    else some (Char.ofNat unit, rest.drop 4)
  | '\\' :: 'n' :: rest => some ('\n', rest)
  | '\\' :: 'r' :: rest => some ('\r', rest)
  | '\\' :: 't' :: rest => some ('\t', rest)
  | '\\' :: 'b' :: rest => some (Char.ofNat 8, rest)
  | '\\' :: 'f' :: rest => some (Char.ofNat 12, rest)
  | '\\' :: c :: rest => some (c, rest)
  | c :: rest => some (c, rest)
  | [] => none

theorem eq_of_toNat {c : Char} {n : ℕ} (code : c.toNat = n) : c = Char.ofNat n := by
  rw [← code, Char.ofNat_toNat]

theorem take_hexDigits {n : ℕ} (small : n < 65536) (rest : List Char) :
    hexValue ((Text.hexDigits 4 n ++ rest).take 4) = n ∧ (Text.hexDigits 4 n ++ rest).drop 4 = rest := by
  obtain ⟨length, value⟩ := hexDigits_spec small
  rw [List.take_left' length, List.drop_left' length]
  exact ⟨value, rfl⟩

theorem unescape_unit {n : ℕ} (small : n < 65536) (single : ¬ (0xd800 ≤ n ∧ n < 0xdc00)) (rest : List Char) :
    unescape (unitEscape n ++ rest) = some (Char.ofNat n, rest) := by
  obtain ⟨value, after⟩ := take_hexDigits small rest
  show (if 0xd800 ≤ hexValue ((Text.hexDigits 4 n ++ rest).take 4) ∧ hexValue ((Text.hexDigits 4 n ++ rest).take 4) < 0xdc00
    then _ else some (Char.ofNat (hexValue ((Text.hexDigits 4 n ++ rest).take 4)), (Text.hexDigits 4 n ++ rest).drop 4)) = _
  rw [value, after, if_neg single]

theorem unescape_pair {high low : ℕ} (highSmall : high < 1024) (lowSmall : low < 1024) (rest : List Char) :
    unescape (unitEscape (0xd800 + high) ++ unitEscape (0xdc00 + low) ++ rest) =
      some (Char.ofNat (65536 + high * 1024 + low), rest) := by
  obtain ⟨value, after⟩ := take_hexDigits (n := 0xd800 + high) (by omega) (unitEscape (0xdc00 + low) ++ rest)
  obtain ⟨value', after'⟩ := take_hexDigits (n := 0xdc00 + low) (by omega) rest
  generalize text : Text.hexDigits 4 (0xd800 + high) ++ (unitEscape (0xdc00 + low) ++ rest) = whole at value after
  have second : whole.drop 6 = Text.hexDigits 4 (0xdc00 + low) ++ rest := by
    rw [show 6 = 4 + 2 from rfl, ← List.drop_drop, after]
    rfl
  have third : whole.drop 10 = rest := by
    rw [show 10 = 6 + 4 from rfl, ← List.drop_drop, second, after']
  have start : unitEscape (0xd800 + high) ++ unitEscape (0xdc00 + low) ++ rest = '\\' :: 'u' :: whole := by
    rw [List.append_assoc, ← text]
    rfl
  rw [start, unescape]
  simp only [value, second, value', third]
  have code : 65536 + (0xd800 + high - 0xd800) * 1024 + (0xdc00 + low - 0xdc00) = 65536 + high * 1024 + low := by omega
  rw [if_pos (by omega), code]

/-- A character that is escaped by its number is read back. -/
theorem unescape_number {c : Char} (rest : List Char) :
    unescape ((if c.toNat < 65536 then unitEscape c.toNat
      else unitEscape (0xd800 + (c.toNat - 65536) / 1024) ++ unitEscape (0xdc00 + (c.toNat - 65536) % 1024)) ++ rest) =
      some (c, rest) := by
  have valid : c.toNat < 0xd800 ∨ 0xdfff < c.toNat ∧ c.toNat < 0x110000 := c.valid
  split
  · rename_i small
    rw [unescape_unit small (by omega), Char.ofNat_toNat]
  · rename_i large
    have code : 65536 + (c.toNat - 65536) / 1024 * 1024 + (c.toNat - 65536) % 1024 = c.toNat := by omega
    rw [unescape_pair (by omega) (by omega), code, Char.ofNat_toNat]

/-- An escaped character is read back, whatever follows it. -/
theorem unescape_escapeChar (c : Char) (rest : List Char) : unescape (escapeChar c ++ rest) = some (c, rest) := by
  unfold escapeChar
  by_cases quote : c = '"'
  · subst quote
    rfl
  by_cases backslash : c = '\\'
  · subst backslash
    rfl
  by_cases newline : c = '\n'
  · subst newline
    rfl
  by_cases back : c = '\r'
  · subst back
    rfl
  by_cases tab : c = '\t'
  · subst tab
    rfl
  by_cases bell : c.toNat = 8
  · rw [eq_of_toNat bell]
    rfl
  by_cases page : c.toNat = 12
  · rw [eq_of_toNat page]
    rfl
  simp only [beq_iff_eq, quote, backslash, newline, back, tab, bell, page, if_false]
  split
  · rw [List.singleton_append, unescape]
    all_goals simp_all
  · exact unescape_number rest

theorem escapeChar_head (c : Char) (rest : List Char) : (escapeChar c ++ rest).head? ≠ some '"' := by
  intro head
  have read := unescape_escapeChar c rest
  obtain ⟨tail, text⟩ := List.head?_eq_some_iff.mp head
  -- a text that starts with the quote is read as the quote, whose escape starts with a backslash
  have plain : unescape ('"' :: tail) = some ('"', tail) := rfl
  rw [text, plain] at read
  rw [← (Prod.mk.inj (Option.some.inj read)).1] at head
  exact absurd head (by simp [escapeChar])

/-- A quoted text determines the text and what follows it. -/
theorem quoted_unique (first : List Char) : ∀ (second : List Char) (rest rest' : List Char),
    first.flatMap escapeChar ++ '"' :: rest = second.flatMap escapeChar ++ '"' :: rest' → first = second ∧ rest = rest' := by
  induction first with
  | nil =>
    intro second rest rest' same
    cases second with
    | nil => exact ⟨rfl, (List.cons.inj same).2⟩
    | cons d second =>
      rw [List.flatMap_cons, List.append_assoc] at same
      exact absurd (congrArg List.head? same).symm (escapeChar_head d _)
  | cons c first ih =>
    intro second rest rest' same
    cases second with
    | nil =>
      rw [List.flatMap_cons, List.append_assoc] at same
      exact absurd (congrArg List.head? same) (escapeChar_head c _)
    | cons d second =>
      rw [List.flatMap_cons, List.append_assoc, List.flatMap_cons, List.append_assoc] at same
      have heads := congrArg unescape same
      rw [unescape_escapeChar, unescape_escapeChar] at heads
      obtain ⟨equal, tails⟩ := Prod.mk.inj (Option.some.inj heads)
      obtain ⟨texts, rests⟩ := ih second rest rest' tails
      exact ⟨by rw [equal, texts], rests⟩

/-- A character of the text of null, a boolean or a number. -/
def isBare (c : Char) : Bool := c.isAlphanum || c == '.' || c == '+' || c == '-'

/-- The text goes on with nothing that belongs to such a word. -/
def Delimited (rest : List Char) : Prop := ∀ c, rest.head? = some c → isBare c = false

theorem bare_unique {first second rest rest' : List Char} (bare : ∀ c ∈ first, isBare c = true)
    (bare' : ∀ c ∈ second, isBare c = true) (delimited : Delimited rest) (delimited' : Delimited rest')
    (same : first ++ rest = second ++ rest') : first = second ∧ rest = rest' := by
  have taken : ∀ {word after : List Char}, (∀ c ∈ word, isBare c = true) → Delimited after →
      (word ++ after).takeWhile isBare = word := by
    intro word after bare delimited
    rw [List.takeWhile_append_of_pos bare]
    cases after with
    | nil => simp
    | cons c after => simp [delimited c rfl]
  have words : first = second := by rw [← taken bare delimited, same, taken bare' delimited']
  rw [words] at same
  exact ⟨words, List.append_cancel_left same⟩

theorem isBare_of_isDigit {c : Char} (digit : c.isDigit = true) : isBare c = true := by
  simp [isBare, Char.isAlphanum, digit]

theorem isBare_numeral {c : Char} (numeral : IsNumeral c) : isBare c = true := by
  rcases numeral with digit | rfl | rfl | rfl | rfl
  · exact isBare_of_isDigit digit
  all_goals rfl

/-- The kind of a word, by the characters that only the words of that kind hold. -/
def wordKind (word : List Char) : ℕ :=
  if 'u' ∈ word ∨ 's' ∈ word then 0 else if '.' ∈ word ∨ 'e' ∈ word ∨ 'N' ∈ word ∨ 'I' ∈ word then 2 else 1

theorem toList_toString_int (n : ℤ) : ∀ c ∈ (toString n).toList, c.isDigit = true ∨ c = '-' := by
  rw [Int.toString_eq_repr, Int.repr_eq_if]
  split
  · exact fun c member => .inl (allDigits_toString _ c member)
  · intro c member
    rw [String.toList_append] at member
    rcases List.mem_append.mp member with sign | digit
    · exact .inr (by simpa using sign)
    · exact .inl (allDigits_toString _ c digit)

/-- The integer that a text of digits with or without a minus sign stands for. -/
def intValue (text : List Char) : ℤ :=
  if text.head? = some '-' then -(Nat.ofDigitChars 10 (text.drop 1) 0 : ℤ) else Nat.ofDigitChars 10 text 0

theorem intValue_toString (n : ℤ) : intValue (toString n).toList = n := by
  rw [Int.toString_eq_repr, Int.repr_eq_if]
  split
  · have value : Nat.ofDigitChars 10 n.toNat.repr.toList 0 = n.toNat := ofDigitChars_toString n.toNat
    have unsigned : n.toNat.repr.toList.head? ≠ some '-' := by
      intro head
      have digit := allDigits_toString n.toNat '-' (List.mem_of_mem_head? head)
      cases digit
    rw [intValue, if_neg unsigned, value]
    omega
  · have value : Nat.ofDigitChars 10 (-n).toNat.repr.toList 0 = (-n).toNat := ofDigitChars_toString (-n).toNat
    rw [String.toList_append]
    show -(Nat.ofDigitChars 10 (-n).toNat.repr.toList 0 : ℤ) = n
    rw [value]
    omega

theorem wordKind_int (n : ℤ) : wordKind (toString n).toList = 1 := by
  have absent : ∀ c, c.isDigit = false → c ≠ '-' → c ∉ (toString n).toList := by
    intro c other sign member
    rcases toList_toString_int n c member with digit | same
    · rw [digit] at other
      cases other
    · exact sign same
  rw [wordKind, if_neg, if_neg]
  · rintro (member | member | member | member) <;> exact absent _ rfl (by decide) member
  · rintro (member | member) <;> exact absent _ rfl (by decide) member

theorem floatText_cases (x : Float) :
    (decode x = .notANumber ∧ floatText x = "NaN") ∨
    (∃ negative, decode x = .infinite negative ∧ floatText x = if negative then "-Infinity" else "Infinity") ∨
    (∃ d, decode x = .finite d ∧ floatText x = shortestText x) := by
  unfold floatText
  rcases decode x with d | negative | _
  · exact .inr (.inr ⟨d, rfl, rfl⟩)
  · exact .inr (.inl ⟨negative, rfl, rfl⟩)
  · exact .inl ⟨rfl, rfl⟩

/-- What the text of a finite number holds: characters of numerals, and a point or a mark of an exponent. -/
theorem shortestText_chars {x : Float} {d : Number.Dyadic} (decoded : decode x = .finite d) :
    (∀ c ∈ (shortestText x).toList, IsNumeral c) ∧ ('.' ∈ (shortestText x).toList ∨ 'e' ∈ (shortestText x).toList) := by
  obtain ⟨v, body, text, -, shown⟩ := shortestText_shows decoded
  rw [text]
  constructor
  · intro c member
    rcases List.mem_append.mp member with sign | member
    · refine .inr (.inr (.inr (.inr ?_)))
      cases negative : d.negative
      · rw [negative] at sign
        cases sign
      · rw [negative] at sign
        simpa [signText] using sign
    · exact shown.numeral c member
  · rcases shown.marked with point | mark
    · exact .inl (List.mem_append_right _ point)
    · exact .inr (List.mem_append_right _ mark)

theorem wordKind_finite {x : Float} {d : Number.Dyadic} (decoded : decode x = .finite d) :
    wordKind (shortestText x).toList = 2 ∧ 'N' ∉ (shortestText x).toList ∧ 'I' ∉ (shortestText x).toList := by
  obtain ⟨numeral, marked⟩ := shortestText_chars decoded
  have absent : ∀ c, ¬ IsNumeral c → c ∉ (shortestText x).toList := fun c other member => other (numeral c member)
  refine ⟨?_, absent _ (by unfold IsNumeral; decide), absent _ (by unfold IsNumeral; decide)⟩
  rw [wordKind, if_neg, if_pos]
  · rcases marked with point | mark
    · exact .inl point
    · exact .inr (.inl mark)
  · rintro (member | member)
    · exact absent _ (by unfold IsNumeral; decide) member
    · exact absent _ (by unfold IsNumeral; decide) member

/-- Different floating numbers have different texts. -/
theorem floatText_injective {x y : Float} (same : floatText x = floatText y) : x = y := by
  have infinite : ∀ negative : Bool, (if negative then "-Infinity" else "Infinity" : String) ≠ "NaN" ∧
      'I' ∈ (if negative then "-Infinity" else "Infinity" : String).toList := by decide
  have signs : ∀ negative negative' : Bool, (if negative then "-Infinity" else "Infinity" : String) =
      (if negative' then "-Infinity" else "Infinity") → negative = negative' := by decide
  rcases floatText_cases x with ⟨decoded, text⟩ | ⟨negative, decoded, text⟩ | ⟨d, decoded, text⟩ <;>
    rcases floatText_cases y with ⟨decoded', text'⟩ | ⟨negative', decoded', text'⟩ | ⟨d', decoded', text'⟩ <;>
    rw [text, text'] at same
  · exact decode_injective (by rw [decoded, decoded'])
  · exact absurd same.symm (infinite negative').1
  · exact absurd (show 'N' ∈ (shortestText y).toList by rw [← same]; decide) (wordKind_finite decoded').2.1
  · exact absurd same (infinite negative).1
  · exact decode_injective (by rw [decoded, decoded', signs _ _ same])
  · exact absurd (same ▸ (infinite negative).2) (wordKind_finite decoded').2.2
  · exact absurd (show 'N' ∈ (shortestText x).toList by rw [same]; decide) (wordKind_finite decoded).2.1
  · exact absurd (same ▸ (infinite negative').2) (wordKind_finite decoded).2.2
  · exact eq_of_shortestText decoded decoded' same

theorem floatText_word (x : Float) : wordKind (floatText x).toList = 2 ∧ ∀ c ∈ (floatText x).toList, isBare c = true := by
  rcases floatText_cases x with ⟨-, text⟩ | ⟨negative, -, text⟩ | ⟨d, decoded, text⟩ <;> rw [text]
  · exact ⟨by decide, List.all_eq_true.mp (by decide)⟩
  · cases negative
    · exact ⟨by decide, List.all_eq_true.mp (by decide)⟩
    · exact ⟨by decide, List.all_eq_true.mp (by decide)⟩
  · exact ⟨(wordKind_finite decoded).1, fun c member => isBare_numeral ((shortestText_chars decoded).1 c member)⟩

/-- The values whose canonical text is one word, with that word and its kind. -/
inductive HasWord : Value → List Char → ℕ → Prop where
  | null : HasWord .null "null".toList 0
  | bool (b : Bool) : HasWord (.bool b) (boolText b).toList 0
  | int (n : ℤ) : HasWord (.int n) (toString n).toList 1
  | float (x : Float) : HasWord (.float x) (floatText x).toList 2

theorem HasWord.bare {value : Value} {word : List Char} {kind : ℕ} (has : HasWord value word kind) :
    wordKind word = kind ∧ ∀ c ∈ word, isBare c = true := by
  cases has with
  | null => exact ⟨by decide, List.all_eq_true.mp (by decide)⟩
  | bool b => cases b <;> exact ⟨by decide, List.all_eq_true.mp (by decide)⟩
  | int n =>
    refine ⟨wordKind_int n, fun c member => ?_⟩
    rcases toList_toString_int n c member with digit | rfl
    · exact isBare_of_isDigit digit
    · rfl
  | float x => exact floatText_word x

theorem HasWord.nonempty {value : Value} {word : List Char} {kind : ℕ} (has : HasWord value word kind) : word ≠ [] := by
  intro empty
  cases has with
  | null => cases empty
  | bool b => cases b <;> cases empty
  | int n =>
    rw [Int.toString_eq_repr, Int.repr_eq_if] at empty
    split at empty
    · rw [Nat.toList_repr] at empty
      exact Nat.toDigits_ne_nil empty
    · rw [String.toList_append] at empty
      cases empty
  | float x =>
    have kinds := (floatText_word x).1
    rw [empty] at kinds
    cases kinds

/-- A word determines its value. -/
theorem HasWord.unique {value value' : Value} {word word' : List Char} {kind kind' : ℕ} (has : HasWord value word kind)
    (has' : HasWord value' word' kind') (same : word = word') : value = value' := by
  have kinds : kind = kind' := by rw [← has.bare.1, ← has'.bare.1, same]
  have truths : ∀ b b', (boolText b).toList = (boolText b').toList → b = b' := by decide
  have notNull : ∀ b, (boolText b).toList ≠ "null".toList := by decide
  cases has with
  | null =>
    cases has' with
    | null => rfl
    | bool b => exact absurd same.symm (notNull b)
    | int _ | float _ => cases kinds
  | bool b =>
    cases has' with
    | null => exact absurd same (notNull b)
    | bool b' => rw [truths b b' same]
    | int _ | float _ => cases kinds
  | int n =>
    cases has' with
    | int n' =>
      rw [← intValue_toString n, ← intValue_toString n', same]
    | null | bool _ | float _ => cases kinds
  | float x =>
    cases has' with
    | float y => rw [floatText_injective (String.toList_inj.mp same)]
    | null | bool _ | int _ => cases kinds

end ProceduralScene.Json
