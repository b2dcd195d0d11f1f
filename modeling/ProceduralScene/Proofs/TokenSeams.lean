import ProceduralScene.Proofs.Spelling

/-!
The tokens of a text do not depend on what follows it, where what follows starts with a quote, a closing parenthesis, a
blank that is not behind another or, behind no word, with an underscore.
-/

set_option autoImplicit false

namespace ProceduralScene.Expression

/-- A text that goes on with nothing that a token before it could take. -/
structure Seam (last : Option Char) (rest : List Char) : Prop where
  head : ∀ c ∈ rest.head?, c = ')' ∨ isQuote c = true ∨ c = '_' ∨ Text.isSpace c = true
  apart : last.any Text.isWord = true → ∀ c ∈ rest.head?, Text.isWord c = false
  solid : last.any Text.isSpace = true → ∀ c ∈ rest.head?, Text.isSpace c = false

theorem seam_nil (last : Option Char) : Seam last [] := ⟨nofun, fun _ => nofun, fun _ => nofun⟩

/-! ### Cutting in front of a seam -/

section

variable {p : Char → Bool} {cs rest : List Char}

theorem takeWhile_append_seam (stops : (∀ c ∈ cs, p c = true) → ∀ c ∈ rest.head?, p c = false) :
    (cs ++ rest).takeWhile p = cs.takeWhile p := by
  induction cs with
  | nil =>
    cases rest with
    | nil => rfl
    | cons c rest => simp [stops nofun c rfl]
  | cons c cs ih =>
    rw [List.cons_append, List.takeWhile_cons, List.takeWhile_cons]
    split
    · rename_i holds
      rw [ih fun all => stops (List.forall_mem_cons.mpr ⟨holds, all⟩)]
    · rfl

theorem dropWhile_append_seam (stops : (∀ c ∈ cs, p c = true) → ∀ c ∈ rest.head?, p c = false) :
    (cs ++ rest).dropWhile p = cs.dropWhile p ++ rest := by
  induction cs with
  | nil =>
    cases rest with
    | nil => rfl
    | cons c rest => simp [stops nofun c rfl]
  | cons c cs ih =>
    rw [List.cons_append, List.dropWhile_cons, List.dropWhile_cons]
    split
    · rename_i holds
      rw [ih fun all => stops (List.forall_mem_cons.mpr ⟨holds, all⟩)]
    · rfl

end

section

variable {cs rest : List Char}

theorem cutMantissa_append (stops : ∀ c ∈ rest.head?, Text.isDecimal c = false ∧ c ≠ '.') :
    cutMantissa? (cs ++ rest) = (cutMantissa? cs).map fun cut => (cut.1, cut.2 ++ rest) := by
  have digits : ∀ c ∈ rest.head?, Text.isDecimal c = false := fun c head => (stops c head).1
  have point : ∀ more, rest ≠ '.' :: more := by
    rintro more rfl
    exact (stops '.' rfl).2 rfl
  unfold cutMantissa?
  rw [takeWhile_append_seam fun _ => digits, dropWhile_append_seam fun _ => digits]
  cases cs.takeWhile Text.isDecimal with
  | nil =>
    cases cs.dropWhile Text.isDecimal with
    | nil =>
      cases rest with
      | nil => rfl
      | cons c rest => simp
    | cons d behind =>
      by_cases same : d = '.'
      · subst same
        simp only [List.cons_append, takeWhile_append_seam fun _ => digits, dropWhile_append_seam fun _ => digits]
        split <;> rfl
      · simp [same]
  | cons first whole =>
    cases cs.dropWhile Text.isDecimal with
    | nil =>
      cases rest with
      | nil => rfl
      | cons c rest => simp
    | cons d behind =>
      by_cases same : d = '.'
      · subst same
        simp only [List.cons_append, takeWhile_append_seam fun _ => digits, dropWhile_append_seam fun _ => digits]
        rfl
      · simp [same]

theorem cutExponent_append (stops : ∀ c ∈ rest.head?, Text.isDecimal c = false ∧ c ≠ 'e' ∧ c ≠ 'E' ∧ c ≠ '+' ∧ c ≠ '-') :
    cutExponent (cs ++ rest) = ((cutExponent cs).1, (cutExponent cs).2 ++ rest) := by
  have digits : ∀ c ∈ rest.head?, Text.isDecimal c = false := fun c head => (stops c head).1
  have signs : ∀ c ∈ rest.head?, (c == '+' || c == '-') = false := by
    intro c head
    simp [(stops c head).2.2.2]
  cases cs with
  | nil =>
    cases rest with
    | nil => rfl
    | cons c rest =>
      obtain ⟨-, small, large, -⟩ := stops c rfl
      simp [cutExponent, small, large]
  | cons mark behind =>
    have short : (behind.takeWhile fun c => c == '+' || c == '-').length ≤ behind.length := (List.takeWhile_prefix _).length_le
    have within : ((behind.drop (behind.takeWhile fun c => c == '+' || c == '-').length).takeWhile Text.isDecimal).length ≤
        (behind.drop (behind.takeWhile fun c => c == '+' || c == '-').length).length := (List.takeWhile_prefix _).length_le
    rw [List.length_drop] at within
    rw [List.cons_append, cutExponent, cutExponent]
    dsimp only
    split
    · rw [takeWhile_append_seam fun _ => signs, List.drop_append_of_le_length short, takeWhile_append_seam fun _ => digits]
      split
      · rw [List.drop_append_of_le_length (by omega)]
      · rfl
    · rfl

theorem cutNumber_append (stops : ∀ c ∈ rest.head?, Text.isDecimal c = false ∧ c ≠ '.' ∧ c ≠ 'e' ∧ c ≠ 'E' ∧ c ≠ '+' ∧ c ≠ '-') :
    cutNumber? (cs ++ rest) = (cutNumber? cs).map fun cut => (cut.1, cut.2 ++ rest) := by
  rw [cutNumber?, cutNumber?, cutMantissa_append fun c head => ⟨(stops c head).1, (stops c head).2.1⟩]
  cases cutMantissa? cs with
  | none => rfl
  | some cut =>
    simp only [Option.map_some, cutExponent_append fun c head => ⟨(stops c head).1, (stops c head).2.2⟩]

theorem isPrefixOf_append {word : List Char} (stops : ∀ c ∈ rest.head?, c ∉ word) :
    word.isPrefixOf (cs ++ rest) = word.isPrefixOf cs := by
  induction word generalizing cs with
  | nil => rfl
  | cons w word ih =>
    cases cs with
    | nil =>
      cases rest with
      | nil => rfl
      | cons c rest =>
        have other : w ≠ c := fun same => stops c rfl (by rw [same]; exact List.mem_cons_self)
        simp [List.isPrefixOf, other]
    | cons c cs =>
      rw [List.cons_append, List.isPrefixOf, List.isPrefixOf, ih fun d head member => stops d head (List.mem_cons_of_mem w member)]

end

theorem find_congr {α : Type} {p q : α → Bool} {items : List α} (same : ∀ item ∈ items, p item = q item) :
    items.find? p = items.find? q := by
  induction items with
  | nil => rfl
  | cons item items ih =>
    rw [List.find?_cons, List.find?_cons, same item List.mem_cons_self, ih fun other member => same other (List.mem_cons_of_mem _ member)]

/-- What a seam starts with goes on with no number and no symbol. -/
theorem seam_stops {last : Option Char} {rest : List Char} (seam : Seam last rest) : ∀ c ∈ rest.head?,
    Text.isDecimal c = false ∧ c ≠ '.' ∧ c ≠ 'e' ∧ c ≠ 'E' ∧ c ≠ '+' ∧ c ≠ '-' ∧ isHexDigit c = false ∧
      ∀ s ∈ longSymbols, c ∉ s.toList := by
  intro c head
  rcases seam.head c head with rfl | quote | rfl | space
  · decide
  · simp only [isQuote, Bool.or_eq_true, beq_iff_eq] at quote
    rcases quote with rfl | rfl <;> decide
  · decide
  · have differs : ∀ d : Char, Text.isSpace d = false → c ≠ d := by
      rintro d solid rfl
      rw [space] at solid
      cases solid
    have symbols : longSymbols.all (fun s => s.toList.all fun d => !Text.isSpace d) = true := by decide
    refine ⟨Text.not_isDecimal_of_isSpace space, differs _ (by decide), differs _ (by decide), differs _ (by decide),
      differs _ (by decide), differs _ (by decide), isHexDigit_of_isSpace space, fun s known member => ?_⟩
    have solid := List.all_eq_true.mp (List.all_eq_true.mp symbols s known) c member
    exact differs c (by simpa using solid) rfl

/-- A token in front of a seam is cut as it is without what follows. -/
theorem cutToken_append {cs rest : List Char} (nonempty : cs ≠ []) (noQuote : ∀ c ∈ cs, isQuote c = false)
    (seam : Seam cs.getLast? rest) : cutToken? (cs ++ rest) = (cutToken? cs).map fun cut => (cut.1, cut.2 ++ rest) := by
  have stops := seam_stops seam
  obtain ⟨c, cs, rfl⟩ := List.exists_cons_of_ne_nil nonempty
  have number := @cutNumber_append (c :: cs) rest fun c head => by
    obtain ⟨digit, point, small, large, plus, minus, -⟩ := stops c head
    exact ⟨digit, point, small, large, plus, minus⟩
  have literal : ∀ text, cutLiteral? (c :: text) = none := by
    intro text
    rw [cutLiteral?, if_neg (by simp [noQuote c List.mem_cons_self])]
  have hex : ∀ c ∈ rest.head?, isHexDigit c = false := fun c head => (stops c head).2.2.2.2.2.2.1
  have space : Text.isSpace c = true → (∀ d ∈ cs, Text.isSpace d = true) → ∀ d ∈ rest.head?, Text.isSpace d = false := by
    intro first others
    refine seam.solid ?_
    rw [List.getLast?_eq_some_getLast nonempty, Option.any_some]
    rcases List.mem_cons.mp (List.getLast_mem nonempty) with last | member
    · rw [last]
      exact first
    · exact others _ member
  have long : (longSymbols.find? fun s => s.toList.isPrefixOf (c :: cs ++ rest)) =
      longSymbols.find? fun s => s.toList.isPrefixOf (c :: cs) := by
    refine find_congr fun s member => ?_
    exact isPrefixOf_append fun d head inside => (stops d head).2.2.2.2.2.2.2 s member inside
  have named : cutName? (c :: cs ++ rest) = (cutName? (c :: cs)).map fun cut => (cut.1, cut.2 ++ rest) := by
    rw [List.cons_append, cutName?, cutName?]
    split
    · rename_i starts
      -- a name that is not ended in front of the seam ends there, where no word goes on
      have ends : (∀ d ∈ cs, isNameChar d = true) → ∀ d ∈ rest.head?, isNameChar d = false := by
        intro names d head
        have wordy : (c :: cs).getLast?.any Text.isWord = true := by
          rw [List.getLast?_eq_some_getLast nonempty, Option.any_some]
          refine isWord_of_isNameChar ?_
          rcases List.mem_cons.mp (List.getLast_mem nonempty) with first | inside
          · rw [first]
            exact isNameChar_of_isNameStart starts
          · exact names _ inside
        refine Bool.eq_false_iff.mpr fun name => ?_
        have noWord := seam.apart wordy d head
        rw [isWord_of_isNameChar name] at noWord
        cases noWord
      rw [takeWhile_append_seam ends, dropWhile_append_seam ends]
      rfl
    · rfl
  rw [cutToken?.eq_def, cutToken?.eq_def, number, long, named, literal]
  rw [show c :: cs ++ rest = c :: (cs ++ rest) from rfl, literal]
  cases cutNumber? (c :: cs) with
  | some cut => rfl
  | none =>
  cases cutName? (c :: cs) with
  | some cut => rfl
  | none =>
  dsimp only [Option.map_none]
  cases found : longSymbols.find? fun s => s.toList.isPrefixOf (c :: cs) with
  | some s =>
    have starts : s.toList <+: c :: cs := by
      have holds := List.find?_some found
      exact List.isPrefixOf_iff_prefix.mp holds
    have short := starts.length_le
    rw [String.length_toList] at short
    dsimp only [Option.map_some]
    rw [← List.cons_append, List.drop_append_of_le_length short]
  | none =>
    dsimp only
    split
    · rfl
    · have digit : (cs ++ rest).head?.any isHexDigit = cs.head?.any isHexDigit := by
        cases cs with
        | nil =>
          cases rest with
          | nil => rfl
          | cons d rest => exact hex d rfl
        | cons d cs => rfl
      rw [digit]
      split
      · rw [takeWhile_append_seam fun _ => hex, dropWhile_append_seam fun _ => hex]
        rfl
      · split
        · rename_i blank
          rw [dropWhile_append_seam (space blank)]
          rfl
        · rfl

/-! ### The tokens of a text -/

/-- The tokens of a text, without the places that messages show. -/
inductive Lexes : List Char → List Token → Prop
  | nil : Lexes [] []
  | cut {c : Char} {text rest : List Char} {found : Option Token} {tokens : List Token} :
      cutToken? (c :: text) = some (.ok found, rest) → Lexes rest tokens → Lexes (c :: text) (found.toList ++ tokens)

theorem cutToken_shorter {text rest : List Char} {found : Except Failure (Option Token)}
    (cut : cutToken? text = some (found, rest)) (allowed : ∀ c ∈ text, isAllowed c = true) :
    ∃ consumed, consumed ≠ [] ∧ text = consumed ++ rest := by
  rcases cutToken_found cut allowed with ⟨word, proper, -, same⟩ | ⟨c, blanks, -, -, -, same⟩
  · exact ⟨word.text, text_ne_nil proper, same⟩
  · exact ⟨c :: blanks, List.cons_ne_nil _ _, same⟩

theorem tokensFrom_smaller {c : Char} {text rest : List Char} {found : Except Failure (Option Token)} {fuel : Nat}
    (short : (c :: text).length ≤ fuel + 1) (allowed : ∀ d ∈ c :: text, isAllowed d = true)
    (cut : cutToken? (c :: text) = some (found, rest)) : rest.length ≤ fuel ∧ ∀ d ∈ rest, isAllowed d = true := by
  obtain ⟨consumed, nonempty, same⟩ := cutToken_shorter cut allowed
  have lengths := congrArg List.length same
  have positive := List.length_pos_iff.mpr nonempty
  rw [List.length_append] at lengths
  exact ⟨by omega, fun d member => allowed d (by rw [same]; exact List.mem_append_right _ member)⟩

theorem tokensFrom_lexes (whole : String) (fuel : Nat) : ∀ (position : Nat) {text : List Char},
    text.length ≤ fuel → (∀ c ∈ text, isAllowed c = true) → Sure (Lexes text) (tokensFrom whole position fuel text) := by
  induction fuel with
  | zero =>
    intro position text short _
    cases text with
    | nil => exact sure_ok .nil
    | cons c text => cases short
  | succ fuel ih =>
    intro position text short allowed
    cases text with
    | nil => exact sure_ok .nil
    | cons c text =>
      rw [tokensFrom]
      · split
        · exact sure_error _
        · rename_i found rest cut
          obtain ⟨fewer, inside⟩ := tokensFrom_smaller short allowed cut
          refine sure_bind fun token same => sure_then (ih _ fewer inside) fun further lexes => sure_pure ?_
          rw [same] at cut
          exact .cut cut lexes
      · exact List.cons_ne_nil _ _

theorem lexes_tokensFrom (whole : String) (fuel : Nat) : ∀ (position : Nat) {text : List Char} {tokens : List Token},
    text.length ≤ fuel → (∀ c ∈ text, isAllowed c = true) → Lexes text tokens →
    tokensFrom whole position fuel text = .ok tokens := by
  induction fuel with
  | zero =>
    intro position text tokens short _ lexes
    cases lexes with
    | nil => rfl
    | cut _ _ => cases short
  | succ fuel ih =>
    intro position text tokens short allowed lexes
    cases lexes with
    | nil => rfl
    | cut cut further =>
      obtain ⟨fewer, inside⟩ := tokensFrom_smaller short allowed cut
      rw [tokensFrom, cut]
      · dsimp only
        rw [ih _ fewer inside further]
        rfl
      · exact List.cons_ne_nil _ _

theorem tokenize_lexes {text : List Char} {tokens : List Token} (allowed : ∀ c ∈ text, isAllowed c = true) :
    tokenize text = .ok tokens ↔ Lexes text tokens :=
  ⟨tokensFrom_lexes _ _ 0 (Nat.le_refl _) allowed tokens, lexes_tokensFrom _ _ 0 (Nat.le_refl _) allowed⟩

end ProceduralScene.Expression
