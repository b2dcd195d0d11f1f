import ProceduralScene.Proofs.StackedPrefixes

/-!
When a second rewriting changes nothing: unless older spellings were stacked in the text.
-/

set_option autoImplicit false

namespace ProceduralScene.Spelling

open Expression

/-! ### Equals signs -/

/-- The marks stand here. -/
def Marked (marks : List Char) (parts : List Lexeme) : Prop := ∃ rest, parts = marks.map .mark ++ rest

theorem turns_literal {old new : List Char} {parts : List Lexeme} : Turns (LiteralTurn old new) parts ↔ Marked old parts := by
  constructor
  · rintro ⟨_, _, ⟨⟩⟩
    exact ⟨_, rfl⟩
  · rintro ⟨_, rfl⟩
    exact ⟨_, _, .literal⟩

theorem marked_cons {c : Char} {marks : List Char} {part : Lexeme} {rest : List Lexeme} :
    Marked (c :: marks) (part :: rest) ↔ part = .mark c ∧ Marked marks rest := by
  constructor
  · rintro ⟨more, same⟩
    cases same
    exact ⟨rfl, more, rfl⟩
  · rintro ⟨rfl, more, rfl⟩
    exact ⟨more, rfl⟩

theorem marked_nil {c : Char} {marks : List Char} : ¬ Marked (c :: marks) [] := nofun

theorem marked_pass {turn : Turn} {marks : List Char} (leaves : ∀ c ∈ marks, Leaves turn (.mark c)) :
    ∀ {parts result : List Lexeme}, Pass turn parts result → (Marked marks result ↔ Marked marks parts) := by
  induction marks with
  | nil => exact fun _ => iff_of_true ⟨_, rfl⟩ ⟨_, rfl⟩
  | cons c marks ih =>
    intro parts result pass
    have own := leaves c List.mem_cons_self
    have inner := @ih fun d member => leaves d (List.mem_cons_of_mem c member)
    constructor
    · rintro ⟨more, rfl⟩
      obtain ⟨rest, rfl, _, passed⟩ := pass_to own.puts pass
      exact marked_cons.mpr ⟨rfl, (inner passed).mp ⟨more, rfl⟩⟩
    · rintro ⟨more, rfl⟩
      obtain ⟨rest, rfl, passed⟩ := pass_from (own.takes _) pass
      exact marked_cons.mpr ⟨rfl, (inner passed).mpr ⟨more, rfl⟩⟩

/-- Four equals signs in a row. -/
def equals : List Char := ['=', '=', '=', '=']

theorem equals_word (run : List Char) (rest : List Lexeme) : ¬ Marked equals (.word run :: rest) := by
  rintro ⟨_, ⟨⟩⟩

theorem equals_other {c : Char} (other : c ≠ '=') (rest : List Lexeme) : ¬ Marked equals (.mark c :: rest) := by
  rintro ⟨_, same⟩
  injection same with same
  injection same with same
  exact other same

theorem equals_pass {turn : Turn} (leaves : Leaves turn (.mark '='))
    (apart : ∀ {parts new behind : List Lexeme}, turn parts new behind → ∀ result,
      (Somewhere (Marked equals) (new ++ result) ↔ Somewhere (Marked equals) result) ∧
        (Somewhere (Marked equals) parts ↔ Somewhere (Marked equals) behind))
    {parts result : List Lexeme} (pass : Pass turn parts result) :
    Somewhere (Marked equals) result ↔ Somewhere (Marked equals) parts := by
  have all : ∀ marks : List Char, (∀ c ∈ marks, c = '=') → ∀ c ∈ marks, Leaves turn (.mark c) :=
    fun _ same c member => same c member ▸ leaves
  refine somewhere_pass pass Iff.rfl (fun {part rest result} _ passed => ?_) fun turned _ ih => ?_
  · exact marked_cons.trans ((and_congr_right fun _ => marked_pass (all _ (by simp)) passed).trans marked_cons.symm)
  · rw [(apart turned _).1, ih, ← (apart turned []).2]

theorem context_leaves_equals {parts result : List Lexeme} (pass : Pass ContextTurn parts result) :
    Somewhere (Marked equals) result ↔ Somewhere (Marked equals) parts := by
  have leaves : Leaves ContextTurn (.mark '=') := by
    refine ⟨?_, ?_⟩
    · rintro rest ⟨_, _, ⟨⟩⟩
    · rintro parts new behind ⟨_⟩
      exact ⟨_, _, rfl, by decide⟩
  refine equals_pass leaves ?_ pass
  rintro parts new behind ⟨_⟩ result
  constructor
  · rw [List.cons_append, List.singleton_append, somewhere_rest (equals_other (by decide) _), somewhere_rest (equals_word _ _)]
  · rw [prefixed, prefixed, somewhere_rest (equals_word _ _), somewhere_rest (equals_other (by decide) _),
      somewhere_rest (equals_word _ _)]

theorem constant_leaves_equals {parts result : List Lexeme} (pass : Pass ConstantTurn parts result) :
    Somewhere (Marked equals) result ↔ Somewhere (Marked equals) parts := by
  have leaves : Leaves ConstantTurn (.mark '=') := by
    refine ⟨constant_mark '=', ?_⟩
    rintro parts new behind ⟨_⟩
    exact ⟨_, _, rfl, by simp⟩
  refine equals_pass leaves ?_ pass
  rintro parts new behind ⟨_⟩ result
  constructor
  · rw [List.singleton_append, somewhere_rest (equals_word _ _)]
  · rw [prefixed, prefixed, somewhere_rest (equals_word _ _), somewhere_rest (equals_other (by decide) _),
      somewhere_rest (equals_word _ _)]

theorem call_leaves_equals {parts result : List Lexeme} (pass : Pass CallTurn parts result) :
    Somewhere (Marked equals) result ↔ Somewhere (Marked equals) parts := by
  have leaves : Leaves CallTurn (.mark '=') := by
    refine ⟨?_, ?_⟩
    · rintro rest ⟨_, _, ⟨⟩⟩
    · rintro parts new behind ⟨_⟩
      exact ⟨_, _, rfl, by simp⟩
  have foreign : Foreign (Marked equals) := by
    rintro c rest (rfl | space)
    · exact equals_other (by decide) rest
    · exact equals_other (ne_of_isSpace space (by decide)) rest
  refine equals_pass leaves ?_ pass
  rintro parts new behind ⟨opens⟩ result
  constructor
  · rw [List.cons_append, List.singleton_append, somewhere_rest (equals_word _ _), somewhere_rest (equals_other (by decide) _)]
  · rw [prefixed, prefixed, somewhere_rest (equals_word _ _), somewhere_rest (equals_other (by decide) _),
      somewhere_rest (equals_word _ _), somewhere_opens foreign opens]

abbrev TripleTurn : Turn := LiteralTurn ['=', '=', '='] ['=', '=']

abbrev BangTurn : Turn := LiteralTurn ['!', '=', '='] ['!', '=']

theorem marked_front (first second : List Char) {parts : List Lexeme} (marked : Marked (first ++ second) parts) : Marked first parts := by
  obtain ⟨rest, rfl⟩ := marked
  exact ⟨second.map .mark ++ rest, by rw [List.map_append, List.append_assoc]⟩

theorem triple_one {parts result : List Lexeme} (pass : Pass TripleTurn parts result) : Marked ['='] result ↔ Marked ['='] parts := by
  cases pass with
  | nil => exact Iff.rfl
  | kept _ _ =>
    rw [marked_cons, marked_cons]
    exact and_congr_right fun _ => iff_of_true ⟨_, rfl⟩ ⟨_, rfl⟩
  | turned turned _ =>
    obtain ⟨_⟩ := turned
    exact iff_of_true ⟨_, rfl⟩ ⟨_, rfl⟩

theorem triple_two {parts result : List Lexeme} (pass : Pass TripleTurn parts result) (two : Marked ['=', '='] result) :
    Marked ['=', '='] parts := by
  cases pass with
  | nil => exact two
  | kept _ passed =>
    obtain ⟨here, next⟩ := marked_cons.mp two
    exact marked_cons.mpr ⟨here, (triple_one passed).mp next⟩
  | turned turned _ =>
    obtain ⟨_⟩ := turned
    exact ⟨_, rfl⟩

/-- Of four equals signs three are left. -/
theorem triple_left {parts result : List Lexeme} (pass : Pass TripleTurn parts result) :
    Somewhere (Marked ['=', '=', '=']) result ↔ Somewhere (Marked equals) parts := by
  refine somewhere_pass pass (iff_of_false marked_nil marked_nil) (fun {part rest result} misses passed => ?_) ?_
  · rw [turns_literal] at misses
    refine iff_of_false (fun three => misses ?_) (fun four => misses (marked_front ['=', '=', '='] ['='] four))
    obtain ⟨here, two⟩ := marked_cons.mp three
    exact marked_cons.mpr ⟨here, triple_two passed two⟩
  · rintro parts new behind result ⟨_⟩ passed ih
    have one := triple_one passed
    have fewer : ∀ {parts : List Lexeme}, Marked ['=', '='] parts → Marked ['='] parts := marked_front ['='] ['=']
    have more : Marked ['=', '=', '='] behind → Marked ['='] behind := marked_front ['='] ['=', '=']
    simp only [equals, List.map_cons, List.map_nil, List.cons_append, List.nil_append, somewhere_cons, marked_cons, true_and, ih, one]
    constructor
    · rintro (here | here | inside)
      · exact .inl here
      · exact .inl (one.mp (fewer here))
      · exact .inr (.inr (.inr inside))
    · rintro (here | here | here | inside)
      · exact .inl here
      · exact .inl (fewer here)
      · exact .inl (more here)
      · exact .inr (.inr inside)

/-- A comparison with one equals sign too many. -/
def Overlong (parts : List Lexeme) : Prop := Marked ['=', '=', '='] parts ∨ Marked ['!', '=', '='] parts

theorem overlong_cons {part : Lexeme} {rest : List Lexeme} : Overlong (part :: rest) ↔
    (part = .mark '=' ∨ part = .mark '!') ∧ Marked ['=', '='] rest := by
  rw [Overlong, marked_cons, marked_cons, or_and_right]

theorem bang_left {parts result : List Lexeme} (pass : Pass BangTurn parts result) :
    Somewhere Overlong result ↔ Somewhere (Marked ['=', '=', '=']) parts := by
  have leaves : Leaves BangTurn (.mark '=') := literal_leaves (by decide) (by decide)
  have equal : ∀ n : Nat, ∀ c ∈ List.replicate n '=', Leaves BangTurn (.mark c) :=
    fun n c member => (List.mem_replicate.mp member).2 ▸ leaves
  refine somewhere_pass pass (iff_of_false (by rintro (⟨_, ⟨⟩⟩ | ⟨_, ⟨⟩⟩)) marked_nil) (fun {part rest result} misses passed => ?_) ?_
  · have two : Marked ['=', '='] result ↔ Marked ['=', '='] rest := marked_pass (equal 2) passed
    rw [turns_literal, marked_cons] at misses
    rw [overlong_cons, marked_cons, two]
    constructor
    · rintro ⟨same | bang, next⟩
      · exact ⟨same, next⟩
      · exact absurd ⟨bang, next⟩ misses
    · rintro ⟨same, next⟩
      exact ⟨.inl same, next⟩
  · rintro parts new behind result ⟨_⟩ passed ih
    have one : Marked ['='] result ↔ Marked ['='] behind := marked_pass (equal 1) passed
    have two : Marked ['=', '='] result ↔ Marked ['=', '='] behind := marked_pass (equal 2) passed
    simp [somewhere_cons, overlong_cons, marked_cons, ih, one, two]

theorem plain_of_all {marks : List Char} (all : marks.all (fun c => !Text.isWord c) = true) : ∀ c ∈ marks, Text.isWord c = false :=
  fun c member => by simpa using List.all_eq_true.mp all c member

theorem triple_follows : Follows (literal "===".toList "==".toList) TripleTurn :=
  literal_follows (plain_of_all (by decide)) (by decide) (by decide) (plain_of_all (by decide))

theorem bang_follows : Follows (literal "!==".toList "!=".toList) BangTurn :=
  literal_follows (plain_of_all (by decide)) (by decide) (by decide) (plain_of_all (by decide))

theorem triple_shortens : Shortens TripleTurn := literal_shortens (by decide)

theorem bang_shortens : Shortens BangTurn := literal_shortens (by decide)

theorem literal_constants {c d : Char} {old new : List Char} (oldMark : c = '$' ∨ c = '=' ∨ c = '!')
    (newMark : d = '$' ∨ d = '=' ∨ d = '!') {parts result : List Lexeme} (pass : Pass (LiteralTurn (c :: old) (d :: new)) parts result) :
    Somewhere (Turns ConstantTurn) result ↔ Somewhere (Turns ConstantTurn) parts := by
  have word : ∀ run : List Char, Leaves (LiteralTurn (c :: old) (d :: new)) (.word run) :=
    fun run => literal_leaves (by simp) (by simp)
  have point : Leaves (LiteralTurn (c :: old) (d :: new)) (.mark '.') := literal_punctuation oldMark newMark '.' (.inl rfl)
  refine somewhere_pass pass Iff.rfl (fun {part rest result} _ passed => ?_) ?_
  · rw [turns_constant, turns_constant]
    constructor
    · rintro ⟨before, after, more, known, same⟩
      injection same with here same
      subst here same
      obtain ⟨behind, rfl, _, afterPoint⟩ := pass_to point.puts passed
      obtain ⟨behind, rfl, _, _⟩ := pass_to (word before).puts afterPoint
      exact ⟨before, after, behind, known, rfl⟩
    · rintro ⟨before, after, more, known, same⟩
      injection same with here same
      subst here same
      obtain ⟨behind, rfl, afterPoint⟩ := pass_from (point.takes _) passed
      obtain ⟨behind, rfl, _⟩ := pass_from ((word before).takes _) afterPoint
      exact ⟨before, after, behind, known, rfl⟩
  · rintro parts added behind result ⟨_⟩ _ ih
    rw [somewhere_marks constant_mark, somewhere_marks constant_mark, ih]

/-! ### Texts -/

/-- What the rewriting of a text does to its lexemes, one pass after the other. -/
inductive Rewrites (parts result : List Lexeme) : Prop
  | passes {context constant call triple : List Lexeme} :
      Pass ContextTurn parts context → Pass ConstantTurn context constant → Pass CallTurn constant call →
        Pass TripleTurn call triple → Pass BangTurn triple result → Rewrites parts result

theorem rewrites_exists (parts : List Lexeme) : ∃ result, Rewrites parts result := by
  obtain ⟨context, contextPass⟩ := pass_exists context_shortens parts
  obtain ⟨constant, constantPass⟩ := pass_exists constant_shortens context
  obtain ⟨call, callPass⟩ := pass_exists call_shortens constant
  obtain ⟨triple, triplePass⟩ := pass_exists triple_shortens call
  obtain ⟨result, bangPass⟩ := pass_exists bang_shortens triple
  exact ⟨result, contextPass, constantPass, callPass, triplePass, bangPass⟩

/-- The characters of the rewritten text. -/
def rewritten (text : List Char) : List Char := rules.foldl (fun cs rule => apply rule none 0 cs) text

theorem rewritten_spelled {parts result : List Lexeme} (rewrites : Rewrites parts result) (parted : Parted none parts) :
    rewritten (spelled parts) = spelled result ∧ Parted none result := by
  obtain ⟨contextPass, constantPass, callPass, triplePass, bangPass⟩ := rewrites
  obtain ⟨first, parted⟩ := pass_apply context_follows contextPass parted
  obtain ⟨second, parted⟩ := pass_apply constant_follows constantPass parted
  obtain ⟨third, parted⟩ := pass_apply call_follows callPass parted
  obtain ⟨fourth, parted⟩ := pass_apply triple_follows triplePass parted
  obtain ⟨fifth, parted⟩ := pass_apply bang_follows bangPass parted
  refine ⟨?_, parted⟩
  rw [← fifth, ← fourth, ← third, ← second, ← first]
  rfl

/-- An older spelling begins here. -/
def Older (parts : List Lexeme) : Prop :=
  Turns ContextTurn parts ∨ Turns ConstantTurn parts ∨ Turns CallTurn parts ∨ Overlong parts

/-- Older spellings that stand in one another: four equals signs in a row, an even row of prefixes `ctx.` before a
name, or a prefix `Math.` doubled before a call, tripled where the name is that of a constant. -/
def Stacked (parts : List Lexeme) : Prop :=
  Somewhere (Marked equals) parts ∨ EvenRow parts ∨ Somewhere (CallOf fun name => constantPrefixes name + 2) parts

/-- The rewritten text holds older spellings exactly where they were stacked. -/
theorem older_left {parts result : List Lexeme} (rewrites : Rewrites parts result) : Somewhere Older result ↔ Stacked parts := by
  obtain ⟨contextPass, constantPass, callPass, triplePass, bangPass⟩ := rewrites
  have equal : '=' = '$' ∨ '=' = '=' ∨ '=' = '!' := .inr (.inl rfl)
  have bang : '!' = '$' ∨ '!' = '=' ∨ '!' = '!' := .inr (.inr rfl)
  have rows : Somewhere (Turns ContextTurn) result ↔ EvenRow parts := by
    rw [literal_leaves_context bang bang bangPass, literal_leaves_context equal equal triplePass,
      call_leaves_context callPass, constant_leaves_context constantPass, context_left contextPass]
  have constants : ¬ Somewhere (Turns ConstantTurn) result := by
    rw [literal_constants bang bang bangPass, literal_constants equal equal triplePass]
    exact call_no_constant callPass (constant_none constantPass)
  have calls : Somewhere (Turns CallTurn) result ↔ Somewhere (CallOf fun name => constantPrefixes name + 2) parts := by
    have sites : Turns CallTurn = CallOf fun _ => 1 := funext fun _ => propext turns_call
    rw [sites, literal_leaves_calls bang bang bangPass, literal_leaves_calls equal equal triplePass, call_left_calls callPass,
      constant_left_calls constantPass, context_leaves_calls contextPass]
  have comparisons : Somewhere Overlong result ↔ Somewhere (Marked equals) parts := by
    rw [bang_left bangPass, triple_left triplePass, call_leaves_equals callPass, constant_leaves_equals constantPass,
      context_leaves_equals contextPass]
  unfold Older Stacked
  simp only [somewhere_or, rows, constants, calls, comparisons]
  rw [false_or, ← or_assoc, or_comm]

/-- A rewriting changes a text exactly when an older spelling stands in it. -/
theorem rewrites_same {parts result : List Lexeme} (rewrites : Rewrites parts result) :
    spelled result = spelled parts ↔ ¬ Somewhere Older parts := by
  obtain ⟨contextPass, constantPass, callPass, triplePass, bangPass⟩ := rewrites
  have older : Somewhere Older parts ↔ Somewhere (Turns ContextTurn) parts ∨ Somewhere (Turns ConstantTurn) parts ∨
      Somewhere (Turns CallTurn) parts ∨ Somewhere (Turns TripleTurn) parts ∨ Somewhere (Turns BangTurn) parts := by
    have comparisons : Overlong = fun tail => Turns TripleTurn tail ∨ Turns BangTurn tail :=
      funext fun tail => propext (or_congr turns_literal turns_literal).symm
    unfold Older
    simp only [comparisons, somewhere_or]
  rw [older]
  constructor
  · intro same
    have first := pass_length context_shortens contextPass
    have second := pass_length constant_shortens constantPass
    have third := pass_length call_shortens callPass
    have fourth := pass_length triple_shortens triplePass
    have fifth := pass_length bang_shortens bangPass
    rw [same] at fifth
    obtain ⟨noContext, rfl⟩ := pass_same context_shortens contextPass (by omega)
    obtain ⟨noConstant, rfl⟩ := pass_same constant_shortens constantPass (by omega)
    obtain ⟨noCall, rfl⟩ := pass_same call_shortens callPass (by omega)
    obtain ⟨noTriple, rfl⟩ := pass_same triple_shortens triplePass (by omega)
    obtain ⟨noBang, _⟩ := pass_same bang_shortens bangPass (Nat.le_of_eq (congrArg List.length same.symm))
    simp [noContext, noConstant, noCall, noTriple, noBang]
  · intro none
    simp only [not_or] at none
    obtain ⟨noContext, noConstant, noCall, noTriple, noBang⟩ := none
    obtain rfl := pass_nowhere context_shortens contextPass noContext
    obtain rfl := pass_nowhere constant_shortens constantPass noConstant
    obtain rfl := pass_nowhere call_shortens callPass noCall
    obtain rfl := pass_nowhere triple_shortens triplePass noTriple
    obtain rfl := pass_nowhere bang_shortens bangPass noBang
    rfl

theorem toList_modernText (text : String) : (modernText text).toList = rewritten text.toList :=
  String.toList_ofList

/-- Rewriting a text again changes nothing exactly when no older spellings were stacked in it. -/
theorem modernText_again (text : String) : modernText (modernText text) = modernText text ↔ ¬ Stacked (lexemes text.toList) := by
  obtain ⟨once, rewrites⟩ := rewrites_exists (lexemes text.toList)
  obtain ⟨twice, again⟩ := rewrites_exists once
  obtain ⟨first, parted⟩ := rewritten_spelled rewrites (parted_lexemes _)
  rw [spelled_lexemes] at first
  obtain ⟨second, _⟩ := rewritten_spelled again parted
  rw [← older_left rewrites, ← rewrites_same again, ← second, ← first, ← String.toList_inj, toList_modernText, toList_modernText]

/-! ### Words -/

/-- A pass that never puts nothing, nor just this word, in the place of anything leaves both only where they were. -/
theorem pass_word (word : List Char) {turn : Turn}
    (other : ∀ {parts new behind}, turn parts new behind → new ≠ [] ∧ new ≠ [.word word])
    {parts result : List Lexeme} (pass : Pass turn parts result) :
    (result = [] → parts = []) ∧ (result = [.word word] → parts = [.word word]) := by
  induction pass with
  | nil => exact ⟨fun _ => rfl, nofun⟩
  | kept _ _ ih =>
    refine ⟨nofun, fun whole => ?_⟩
    obtain ⟨rfl, rfl⟩ := List.cons.inj whole
    rw [ih.1 rfl]
  | turned turned _ _ =>
    obtain ⟨some, different⟩ := other turned
    refine ⟨fun whole => absurd (List.append_eq_nil_iff.mp whole).1 some, fun whole => ?_⟩
    rcases List.append_eq_singleton_iff.mp whole with ⟨none, _⟩ | ⟨only, _⟩
    · exact absurd none some
    · exact absurd only different

theorem rewrites_word (word : List Char) (invented : ∀ old, (old, word) ∉ constants) {parts result : List Lexeme}
    (rewrites : Rewrites parts result) :
    (result = [] → parts = []) ∧ (result = [.word word] → parts = [.word word]) := by
  obtain ⟨contextPass, constantPass, callPass, triplePass, bangPass⟩ := rewrites
  have first := pass_word word (fun turned => by cases turned; simp) contextPass
  have second := pass_word word (fun turned => by
    cases turned with
    | constant known => exact ⟨by simp, fun same => invented _ (by cases same; exact known)⟩) constantPass
  have third := pass_word word (fun turned => by cases turned; simp) callPass
  have fourth := pass_word word (fun turned => by cases turned; simp) triplePass
  have fifth := pass_word word (fun turned => by cases turned; simp) bangPass
  exact ⟨fun whole => first.1 (second.1 (third.1 (fourth.1 (fifth.1 whole)))),
    fun whole => first.2 (second.2 (third.2 (fourth.2 (fifth.2 whole))))⟩

theorem spelled_eq_nil {before : Option Char} {parts : List Lexeme} (parted : Parted before parts) (same : spelled parts = []) :
    parts = [] := by
  match parts with
  | [] => rfl
  | .mark c :: rest => cases same
  | .word run :: rest => exact absurd (List.append_eq_nil_iff.mp same).1 parted.2.1.nonempty

theorem modernText_empty {text : String} : modernText text = "" ↔ text = "" := by
  refine ⟨fun empty => ?_, fun same => by rw [same]; decide⟩
  obtain ⟨result, rewrites⟩ := rewrites_exists (lexemes text.toList)
  obtain ⟨spelt, parted⟩ := rewritten_spelled rewrites (parted_lexemes _)
  rw [spelled_lexemes, ← toList_modernText, empty] at spelt
  have parts := (rewrites_word [] (by simp [constants]) rewrites).1 (spelled_eq_nil parted spelt.symm)
  rw [← String.toList_inj, ← spelled_lexemes text.toList, parts]
  rfl

theorem modernText_word {word : String} (name : IsName word.toList) (invented : ∀ old, (old, word.toList) ∉ constants)
    (kept : modernText word = word) {text : String} : modernText text = word ↔ text = word := by
  refine ⟨fun same => ?_, fun same => by rw [same, kept]⟩
  obtain ⟨result, rewrites⟩ := rewrites_exists (lexemes text.toList)
  obtain ⟨spelt, parted⟩ := rewritten_spelled rewrites (parted_lexemes _)
  rw [spelled_lexemes, ← toList_modernText, same] at spelt
  obtain ⟨rest, rfl, empty⟩ := spelled_eq_word parted name (by simp) (spelt.symm.trans (List.append_nil _).symm)
  have alone : rest = [] := spelled_eq_nil parted.2.2 empty.symm
  have parts := (rewrites_word _ invented rewrites).2 (by rw [alone])
  rw [← String.toList_inj, ← spelled_lexemes text.toList, parts]
  exact List.append_nil _

/-! ### Values -/

mutual
/-- The texts in a value, at every depth. -/
def texts : Value → List String
  | .text s => [s]
  | .list items => textsOfItems items
  | .map entries => textsOfEntries entries
  | _ => []

def textsOfItems : List Value → List String
  | [] => []
  | x :: rest => texts x ++ textsOfItems rest

def textsOfEntries : List (Key × Value) → List String
  | [] => []
  | (_, x) :: rest => texts x ++ textsOfEntries rest
end

/-- No older spellings are stacked in the texts. -/
def Unstacked (texts : List String) : Prop := ∀ text ∈ texts, ¬ Stacked (lexemes text.toList)

theorem unstacked_append {first second : List String} : Unstacked (first ++ second) ↔ Unstacked first ∧ Unstacked second := by
  simp only [Unstacked, List.forall_mem_append]

mutual
theorem modern_again (value : Value) : modern (modern value) = modern value ↔ Unstacked (texts value) := by
  match value with
  | .text s => simp [modern, texts, Unstacked, modernText_again]
  | .list items => rw [modern, modern, Value.list.injEq, texts, modernItems_again items]
  | .map entries => rw [modern, modern, Value.map.injEq, texts, modernEntries_again entries]
  | .null | .bool _ | .int _ | .float _ | .complex _ _ | .node _ | .marker _ => simp [modern, texts, Unstacked]

theorem modernItems_again (items : List Value) :
    modernItems (modernItems items) = modernItems items ↔ Unstacked (textsOfItems items) := by
  match items with
  | [] => simp [modernItems, textsOfItems, Unstacked]
  | x :: rest => rw [modernItems, modernItems, List.cons.injEq, textsOfItems, unstacked_append, modern_again x, modernItems_again rest]

theorem modernEntries_again (entries : List (Key × Value)) :
    modernEntries (modernEntries entries) = modernEntries entries ↔ Unstacked (textsOfEntries entries) := by
  match entries with
  | [] => simp [modernEntries, textsOfEntries, Unstacked]
  | (key, x) :: rest =>
    rw [modernEntries, modernEntries, List.cons.injEq, Prod.mk.injEq, eq_self, true_and, textsOfEntries, unstacked_append,
      modern_again x, modernEntries_again rest]
end

end ProceduralScene.Spelling
