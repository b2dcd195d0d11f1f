import Mathlib.Data.List.Perm.Basic
import Mathlib.Data.List.Forall2
import ProceduralScene.Proofs.CanonicalWords

/-!
What the canonical text of a value forgets: the order of the entries of maps, and nothing else. Two values made of
null, booleans, numbers, texts, lists and maps with texts as keys have one canonical text only when they are equal up
to that order.
-/

set_option autoImplicit false

namespace ProceduralScene

namespace Value

mutual
/-- Whether a value is made of null, booleans, numbers, texts, lists, and maps whose keys are texts. -/
def isData : Value → Bool
  | .null | .bool _ | .int _ | .float _ | .text _ => true
  | .list items => itemsData items
  | .map entries => entriesData entries
  | _ => false

def itemsData : List Value → Bool
  | [] => true
  | x :: rest => isData x && itemsData rest

def entriesData : List (Key × Value) → Bool
  | [] => true
  | (.text _, x) :: rest => isData x && entriesData rest
  | _ :: _ => false
end

mutual
/-- Equal values up to the order of the entries of maps, at any depth. -/
inductive Reordered : Value → Value → Prop
  | same (value : Value) : Reordered value value
  | list {xs ys : List Value} (items : ReorderedItems xs ys) : Reordered (.list xs) (.list ys)
  | map {xs xs' ys ys' : List (Key × Value)} (order : xs.Perm xs') (entries : ReorderedEntries xs' ys')
      (order' : ys'.Perm ys) : Reordered (.map xs) (.map ys)

inductive ReorderedItems : List Value → List Value → Prop
  | nil : ReorderedItems [] []
  | cons {x y : Value} {xs ys : List Value} (head : Reordered x y) (rest : ReorderedItems xs ys) :
      ReorderedItems (x :: xs) (y :: ys)

inductive ReorderedEntries : List (Key × Value) → List (Key × Value) → Prop
  | nil : ReorderedEntries [] []
  | cons {key : Key} {x y : Value} {xs ys : List (Key × Value)} (head : Reordered x y) (rest : ReorderedEntries xs ys) :
      ReorderedEntries ((key, x) :: xs) ((key, y) :: ys)
end

end Value

namespace Json

open Value

def quotedChars (s : String) : List Char := '"' :: (s.toList.flatMap escapeChar ++ ['"'])

theorem toList_quoted (s : String) : (quoted s).toList = quotedChars s := String.toList_ofList

/-- What separates an item from the one before it. -/
def separator (first : Bool) : List Char := if first then [] else [',', ' ']

mutual
/-- A value with one of its texts in which the entries of maps stand in some order. -/
inductive Spelled : Value → List Char → Prop
  | word {value : Value} {word : List Char} {kind : ℕ} (has : HasWord value word kind) : Spelled value word
  | text (s : String) : Spelled (.text s) (quotedChars s)
  | list {items : List Value} {body : List Char} (spelled : SpelledItems true items body) : Spelled (.list items) ('[' :: body)
  | map {entries ordered : List (Key × Value)} {body : List Char} (order : entries.Perm ordered)
      (spelled : SpelledEntries true ordered body) : Spelled (.map entries) ('\x7b' :: body)

/-- The items of a list with the closing bracket; the flag says whether they start the list. -/
inductive SpelledItems : Bool → List Value → List Char → Prop
  | close (first : Bool) : SpelledItems first [] [']']
  | item (first : Bool) {x : Value} {rest : List Value} {head tail : List Char} (spelled : Spelled x head)
      (further : SpelledItems false rest tail) : SpelledItems first (x :: rest) (separator first ++ (head ++ tail))

inductive SpelledEntries : Bool → List (Key × Value) → List Char → Prop
  | close (first : Bool) : SpelledEntries first [] ['\x7d']
  | entry (first : Bool) (key : String) {x : Value} {rest : List (Key × Value)} {head tail : List Char}
      (spelled : Spelled x head) (further : SpelledEntries false rest tail) :
      SpelledEntries first ((.text key, x) :: rest)
        (separator first ++ (quotedChars key ++ ([':', ' '] ++ (head ++ tail))))
end

/-- What the text of a value starts with. -/
def Opens (c : Char) : Prop := isBare c = true ∨ c = '"' ∨ c = '[' ∨ c = '\x7b'

theorem Spelled.head {value : Value} {text : List Char} (spelled : Spelled value text) :
    ∃ c rest, text = c :: rest ∧ Opens c := by
  cases spelled with
  | word has =>
    obtain ⟨c, rest, parts⟩ := List.exists_cons_of_ne_nil has.nonempty
    exact ⟨c, rest, parts, .inl (has.bare.2 c (by rw [parts]; exact List.mem_cons_self))⟩
  | text s => exact ⟨'"', _, rfl, .inr (.inl rfl)⟩
  | list items => exact ⟨'[', _, rfl, .inr (.inr (.inl rfl))⟩
  | map order entries => exact ⟨'\x7b', _, rfl, .inr (.inr (.inr rfl))⟩

theorem delimited_cons {c : Char} (other : isBare c = false) (rest : List Char) : Delimited (c :: rest) := by
  rintro d head
  rw [← Option.some.inj head]
  exact other

theorem SpelledItems.delimited {first : Bool} {items : List Value} {text : List Char}
    (spelled : SpelledItems first items text) (later : first = false) (rest : List Char) : Delimited (text ++ rest) := by
  cases spelled with
  | close => exact delimited_cons rfl _
  | item _ head further =>
    rw [later]
    exact delimited_cons rfl _

theorem SpelledEntries.delimited {first : Bool} {entries : List (Key × Value)} {text : List Char}
    (spelled : SpelledEntries first entries text) (later : first = false) (rest : List Char) : Delimited (text ++ rest) := by
  cases spelled with
  | close => exact delimited_cons rfl _
  | entry _ key head further =>
    rw [later]
    exact delimited_cons rfl _

theorem quotedChars_unique {s t : String} {rest rest' : List Char} (same : quotedChars s ++ rest = quotedChars t ++ rest') :
    s = t ∧ rest = rest' := by
  simp only [quotedChars, List.cons_append, List.append_assoc, List.cons.injEq, true_and, List.nil_append] at same
  obtain ⟨texts, rests⟩ := quoted_unique _ _ _ _ same
  exact ⟨String.toList_inj.mp texts, rests⟩

/-- The head of a text that starts with a word belongs to a word. -/
theorem HasWord.head {value : Value} {word : List Char} {kind : ℕ} (has : HasWord value word kind) {c : Char}
    {rest rest' : List Char} (same : word ++ rest = c :: rest') : isBare c = true := by
  obtain ⟨d, tail, parts⟩ := List.exists_cons_of_ne_nil has.nonempty
  rw [parts] at same
  rw [← (List.cons.inj same).1]
  exact has.bare.2 d (by rw [parts]; exact List.mem_cons_self)

/-- No item and no entry starts with a closing bracket. -/
theorem Spelled.not_closing {x : Value} {head : List Char} (spelled : Spelled x head) (first : Bool) {close : Char}
    (closing : close = ']' ∨ close = '\x7d') {rest rest' : List Char} :
    close :: rest ≠ separator first ++ (head ++ rest') := by
  intro same
  cases first with
  | false =>
    rw [(List.cons.inj same).1] at closing
    exact absurd closing (by decide)
  | true =>
    obtain ⟨c, tail, parts, opens⟩ := spelled.head
    rw [parts] at same
    rw [← (List.cons.inj same).1] at opens
    rcases closing with rfl | rfl
    · exact absurd opens (by unfold Opens; decide)
    · exact absurd opens (by unfold Opens; decide)

theorem separator_not_closing (first : Bool) (key : String) {rest rest' : List Char} :
    '\x7d' :: rest ≠ separator first ++ (quotedChars key ++ rest') := by
  intro same
  cases first <;> cases (List.cons.inj same).1

mutual
/-- A text determines its value up to the order of entries, and what follows the text. -/
theorem Spelled.unique : ∀ {value : Value} {text : List Char}, Spelled value text →
    ∀ {value' : Value} {text' rest rest' : List Char}, Spelled value' text' → Delimited rest → Delimited rest' →
      text ++ rest = text' ++ rest' → Reordered value value' ∧ rest = rest'
  | _, _, .word has => by
    intro spelled' delimited delimited' same
    cases spelled' with
    | word has' =>
      obtain ⟨words, rests⟩ := bare_unique has.bare.2 has'.bare.2 delimited delimited' same
      rw [has.unique has' words]
      exact ⟨.same _, rests⟩
    | text s => exact absurd (has.head same) (by decide)
    | list items => exact absurd (has.head same) (by decide)
    | map order entries => exact absurd (has.head same) (by decide)
  | _, _, .text s => by
    intro spelled' delimited delimited' same
    cases spelled' with
    | word has' => exact absurd (has'.head same.symm) (by decide)
    | text s' =>
      obtain ⟨texts, rests⟩ := quotedChars_unique same
      rw [texts]
      exact ⟨.same _, rests⟩
    | list items => cases (List.cons.inj same).1
    | map order entries => cases (List.cons.inj same).1
  | _, _, .list items => by
    intro spelled' delimited delimited' same
    cases spelled' with
    | word has' => exact absurd (has'.head same.symm) (by decide)
    | text s => cases (List.cons.inj same).1
    | list items' =>
      obtain ⟨reordered, rests⟩ := items.unique items' (List.cons.inj same).2
      exact ⟨.list reordered, rests⟩
    | map order entries => cases (List.cons.inj same).1
  | _, _, .map order entries => by
    intro spelled' delimited delimited' same
    cases spelled' with
    | word has' => exact absurd (has'.head same.symm) (by decide)
    | text s => cases (List.cons.inj same).1
    | list items => cases (List.cons.inj same).1
    | map order' entries' =>
      obtain ⟨reordered, rests⟩ := entries.unique entries' (List.cons.inj same).2
      exact ⟨.map order reordered order'.symm, rests⟩

theorem SpelledItems.unique : ∀ {first : Bool} {items : List Value} {text : List Char}, SpelledItems first items text →
    ∀ {items' : List Value} {text' rest rest' : List Char}, SpelledItems first items' text' →
      text ++ rest = text' ++ rest' → ReorderedItems items items' ∧ rest = rest'
  | _, _, _, .close first => by
    intro spelled' same
    cases spelled' with
    | close => exact ⟨.nil, (List.cons.inj same).2⟩
    | item _ head further =>
      rw [List.append_assoc, List.append_assoc] at same
      exact absurd same (head.not_closing first (.inl rfl))
  | _, _, _, .item first head further => by
    intro spelled' same
    cases spelled' with
    | close =>
      rw [List.append_assoc, List.append_assoc] at same
      exact absurd same.symm (head.not_closing first (.inl rfl))
    | item _ head' further' =>
      simp only [List.append_assoc] at same
      obtain ⟨reordered, afters⟩ := head.unique head' (further.delimited rfl _) (further'.delimited rfl _)
        (List.append_cancel_left same)
      obtain ⟨others, rests⟩ := further.unique further' afters
      exact ⟨.cons reordered others, rests⟩

theorem SpelledEntries.unique : ∀ {first : Bool} {entries : List (Key × Value)} {text : List Char},
    SpelledEntries first entries text → ∀ {entries' : List (Key × Value)} {text' rest rest' : List Char},
      SpelledEntries first entries' text' → text ++ rest = text' ++ rest' → ReorderedEntries entries entries' ∧ rest = rest'
  | _, _, _, .close first => by
    intro spelled' same
    cases spelled' with
    | close => exact ⟨.nil, (List.cons.inj same).2⟩
    | entry _ key head further =>
      rw [List.append_assoc, List.append_assoc] at same
      exact absurd same (separator_not_closing first key)
  | _, _, _, .entry first key head further => by
    intro spelled' same
    cases spelled' with
    | close =>
      rw [List.append_assoc, List.append_assoc] at same
      exact absurd same.symm (separator_not_closing first key)
    | entry _ key' head' further' =>
      simp only [List.append_assoc] at same
      obtain ⟨keys, values⟩ := quotedChars_unique (List.append_cancel_left same)
      obtain ⟨reordered, afters⟩ := head.unique head' (further.delimited rfl _) (further'.delimited rfl _)
        (List.append_cancel_left values)
      obtain ⟨others, rests⟩ := further.unique further' afters
      rw [keys]
      exact ⟨.cons reordered others, rests⟩
end

section

variable (nodeText : NodeText)

/-- The texts of items between separators and before a closing bracket. -/
def enclosedTail (close : Char) : Bool → List String → List Char
  | _, [] => [close]
  | first, item :: rest => separator first ++ (item.toList ++ enclosedTail close false rest)

theorem intercalate_tail (close : Char) (texts : List String) :
    (", ".intercalate texts).toList ++ [close] = enclosedTail close true texts := by
  rw [String.toList_intercalate]
  cases texts with
  | nil => rfl
  | cons first rest =>
    show _ = first.toList ++ enclosedTail close false rest
    induction rest generalizing first with
    | nil => rw [List.map_cons, List.map_nil, List.intercalate_singleton, enclosedTail]
    | cons second rest ih =>
      rw [List.map_cons, List.map_cons, List.intercalate_cons_cons, List.append_assoc, List.append_assoc,
        ← List.map_cons, ih second, enclosedTail]
      rfl

theorem sortEntries_perm {α : Type} {entries sorted : List (Key × α)} (sorts : sortEntries entries = .ok sorted) :
    entries.Perm sorted := by
  unfold sortEntries at sorts
  split at sorts
  · cases sorts
    exact .refl _
  · cases sorts
    exact .refl _
  · split at sorts
    · cases sorts
      exact (List.mergeSort_perm _ _).symm
    · cases sorts

/-- An entry with its text. -/
def EntrySpelled (entry : Key × Value) (written : Key × String) : Prop :=
  ∃ key head, entry.1 = .text key ∧ Spelled entry.2 head ∧ written.2.toList = quotedChars key ++ ([':', ' '] ++ head)

theorem spelledEntries_of_forall₂ {entries : List (Key × Value)} {written : List (Key × String)}
    (each : List.Forall₂ EntrySpelled entries written) : ∀ first,
    SpelledEntries first entries (enclosedTail '\x7d' first (written.map (·.2))) := by
  induction each with
  | nil => exact fun first => .close first
  | cons head further ih =>
    intro first
    rename_i entry text rest texts
    obtain ⟨key, value⟩ := entry
    obtain ⟨name, body, rfl, spelled, chars⟩ := head
    rw [List.map_cons, enclosedTail, chars, List.append_assoc, List.append_assoc]
    exact .entry first name spelled (ih false)

omit nodeText in
theorem showInt_text {n : ℤ} {written : String} (writes : showInt n = .ok written) : written = toString n := by
  unfold showInt Number.intText? at writes
  by_cases small : n.natAbs < Number.tenTo Number.digitLimit
  · rw [if_pos small] at writes
    cases writes
    rfl
  · rw [if_neg small] at writes
    cases writes

mutual
/-- The canonical text of a value is one of its texts. -/
theorem spelled_canonical : ∀ (value : Value) (text : String), value.isData = true → canonical nodeText value = .ok text →
    Spelled value text.toList
  | .null => by
    intro written _ writes
    rw [canonical] at writes
    cases writes
    exact .word .null
  | .bool b => by
    intro written _ writes
    rw [canonical] at writes
    cases writes
    exact .word (.bool b)
  | .int n => by
    intro written _ writes
    rw [canonical] at writes
    rw [showInt_text writes]
    exact .word (.int n)
  | .float x => by
    intro written _ writes
    rw [canonical] at writes
    cases writes
    exact .word (.float x)
  | .text s => by
    intro written _ writes
    rw [canonical] at writes
    cases writes
    rw [toList_quoted]
    exact .text s
  | .list items => by
    intro text data writes
    rw [canonical] at writes
    cases texts : canonicalItems nodeText items with
    | error failure =>
      rw [texts] at writes
      cases writes
    | ok written =>
      rw [texts] at writes
      cases writes
      rw [String.toList_append, String.toList_append, List.append_assoc]
      have body := intercalate_tail ']' written
      rw [show "]".toList = [']'] from rfl, body]
      exact .list (spelled_canonicalItems items written data texts true)
  | .map entries => by
    intro text data writes
    rw [canonical] at writes
    cases texts : canonicalEntries nodeText entries with
    | error failure =>
      rw [texts] at writes
      cases writes
    | ok written =>
      rw [texts] at writes
      replace writes : (sortEntries written >>= fun sorted =>
        pure ("\x7b" ++ ", ".intercalate (sorted.map (·.2)) ++ "\x7d")) = Except.ok _ := writes
      cases sorts : sortEntries written with
      | error failure =>
        rw [sorts] at writes
        cases writes
      | ok sorted =>
        rw [sorts] at writes
        cases writes
        have each := spelled_canonicalEntries entries written data texts
        obtain ⟨ordered, order, spelled⟩ : Relation.Comp List.Perm (List.Forall₂ EntrySpelled) entries sorted := by
          rw [← List.forall₂_comp_perm_eq_perm_comp_forall₂]
          exact ⟨written, each, sortEntries_perm sorts⟩
        rw [String.toList_append, String.toList_append, List.append_assoc]
        have body := intercalate_tail '\x7d' (sorted.map (·.2))
        rw [show "\x7d".toList = ['\x7d'] from rfl, body]
        exact .map order (spelledEntries_of_forall₂ spelled true)
  | .complex _ _ | .node _ | .marker _ => by
    intro text data
    cases data

theorem spelled_canonicalItems : ∀ (items : List Value) (texts : List String), itemsData items = true →
    canonicalItems nodeText items = .ok texts → ∀ first, SpelledItems first items (enclosedTail ']' first texts)
  | [], texts, _, writes => by
    cases writes
    exact fun first => .close first
  | x :: rest, texts, data, writes => by
    rw [itemsData, Bool.and_eq_true] at data
    rw [canonicalItems] at writes
    cases head : canonical nodeText x with
    | error failure =>
      rw [head] at writes
      cases writes
    | ok written =>
      cases further : canonicalItems nodeText rest with
      | error failure =>
        rw [head, further] at writes
        cases writes
      | ok others =>
        rw [head, further] at writes
        cases writes
        intro first
        exact .item first (spelled_canonical x written data.1 head) (spelled_canonicalItems rest others data.2 further false)

theorem spelled_canonicalEntries : ∀ (entries : List (Key × Value)) (written : List (Key × String)),
    entriesData entries = true → canonicalEntries nodeText entries = .ok written → List.Forall₂ EntrySpelled entries written
  | [] => by
    intro written _ writes
    cases writes
    exact .nil
  | (.text name, x) :: rest => by
    intro texts data writes
    rw [entriesData, Bool.and_eq_true] at data
    rw [canonicalEntries] at writes
    cases head : canonical nodeText x with
    | error failure =>
      rw [head] at writes
      cases writes
    | ok written =>
      cases further : canonicalEntries nodeText rest with
      | error failure =>
        rw [head, further] at writes
        cases writes
      | ok others =>
        rw [head, further] at writes
        cases writes
        refine .cons ⟨name, _, rfl, spelled_canonical x written data.1 head, ?_⟩
          (spelled_canonicalEntries rest others data.2 further)
        rw [String.toList_append, String.toList_append, toList_quoted, List.append_assoc]
        rfl
  | (.int _, _) :: _ | (.bool _, _) :: _ | (.float _, _) :: _ | (.null, _) :: _ => by
    intro texts data
    cases data
end

end

/-- Values with one canonical text are equal up to the order of the entries of maps. -/
theorem reordered_of_canonical {nodeText : NodeText} {value value' : Value} {text : String} (data : value.isData = true)
    (data' : value'.isData = true) (writes : canonical nodeText value = .ok text)
    (writes' : canonical nodeText value' = .ok text) : Reordered value value' := by
  have ended : Delimited [] := fun _ none => nomatch none
  exact ((spelled_canonical nodeText value text data writes).unique (spelled_canonical nodeText value' text data' writes')
    ended ended rfl).1

end Json

end ProceduralScene
