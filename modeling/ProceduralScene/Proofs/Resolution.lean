import Mathlib.Data.List.DropRight
import Mathlib.Data.List.TakeWhile
import ProceduralScene.Scene.Registry

/-!
What a target means in a scope. A scope is left by cutting it at its last dot; the scopes met on the way out are the
places where a target is looked for, and after the target itself only the least path that ends in it is left. The
path that is found depends on which paths are registered and not on their order.
-/

set_option autoImplicit false

namespace ProceduralScene.Registry

/-- What stands before the last dot, nothing where there is no dot. -/
def beforeLastDot (scope : List Char) : List Char := (scope.rdropWhile (· != '.')).dropLast

/-- The scope around a scope. -/
def outer (scope : String) : String := String.ofList (beforeLastDot scope.toList)

theorem rdropWhile_absent {scope : List Char} (absent : '.' ∉ scope) : scope.rdropWhile (· != '.') = [] := by
  refine List.rdropWhile_eq_nil_iff.mpr fun c member => ?_
  exact bne_iff_ne.mpr fun dot => absent (dot ▸ member)

theorem rdropWhile_stops {scope : List Char} (present : '.' ∈ scope) : scope.rdropWhile (· != '.') ≠ [] := by
  intro all
  have dropped := List.rdropWhile_eq_nil_iff.mp all '.' present
  simp at dropped

theorem beforeLastDot_absent {scope : List Char} (absent : '.' ∉ scope) : beforeLastDot scope = [] := by
  simp [beforeLastDot, rdropWhile_absent absent]

theorem beforeLastDot_cons {c : Char} {rest : List Char} (later : '.' ∈ rest) :
    beforeLastDot (c :: rest) = c :: beforeLastDot rest := by
  -- what is dropped at the end stops at the later dot, before it reaches `c`
  have stops := rdropWhile_stops later
  have reversed : rest.reverse.dropWhile (· != '.') ≠ [] := fun all => stops (by rw [List.rdropWhile, all]; rfl)
  have kept : (c :: rest).rdropWhile (· != '.') = c :: rest.rdropWhile (· != '.') := by
    rw [List.rdropWhile, List.reverse_cons, List.dropWhile_append, if_neg (by simpa using reversed),
      List.reverse_append, List.rdropWhile]
    rfl
  rw [beforeLastDot, kept, List.dropLast_cons_of_ne_nil stops, beforeLastDot]

theorem beforeLastDot_dot {rest : List Char} (last : '.' ∉ rest) : beforeLastDot ('.' :: rest) = [] := by
  have all : rest.reverse.dropWhile (· != '.') = [] := by
    simpa [List.rdropWhile] using rdropWhile_absent last
  simp [beforeLastDot, List.rdropWhile, List.dropWhile_append, all]

theorem length_beforeLastDot {scope : List Char} (nonempty : scope ≠ []) :
    (beforeLastDot scope).length < scope.length := by
  have shorter := (List.rdropWhile_prefix (· != '.') (l := scope)).length_le
  have positive : 0 < scope.length := List.length_pos_iff.mpr nonempty
  rw [beforeLastDot, List.length_dropLast]
  omega

/-- The way out of a scope is finite. -/
theorem length_outer {scope : String} (inside : scope ≠ "") : (outer scope).length < scope.length := by
  have nonempty : scope.toList ≠ [] := fun empty => inside (String.toList_eq_nil_iff.mp empty)
  have shorter := length_beforeLastDot nonempty
  rwa [outer, String.length_ofList, ← String.length_toList]

/-- Where a target is looked for: under the scope, under each scope around it, and at last by itself. -/
def places (target scope : String) : List String :=
  if _ : scope = "" then [target] else (scope ++ "." ++ target) :: places target (outer scope)
termination_by scope.length
decreasing_by exact length_outer ‹_›

theorem beforeDots_absent {scope : List Char} (absent : '.' ∉ scope) : beforeDots scope = [] := by
  induction scope with
  | nil => rfl
  | cons c rest ih =>
    simp only [List.mem_cons, not_or] at absent
    simp [beforeDots, ih absent.2, Ne.symm absent.1]

/-- The longest text before a dot is the one before the last dot, and the others stand before its dots. -/
theorem beforeDots_present {scope : List Char} (present : '.' ∈ scope) :
    beforeDots scope = beforeLastDot scope :: beforeDots (beforeLastDot scope) := by
  induction scope with
  | nil => cases present
  | cons c rest ih =>
    by_cases later : '.' ∈ rest
    · rw [beforeLastDot_cons later, beforeDots, beforeDots, ih later]
      by_cases dot : c = '.' <;> simp [dot]
    · have dot : c = '.' := by
        rcases List.mem_cons.mp present with here | there
        · exact here.symm
        · exact absurd there later
      rw [dot, beforeLastDot_dot later]
      simp [beforeDots, beforeDots_absent later]

theorem scopesFrom_outer {scope : String} (inside : scope ≠ "") : scopesFrom scope = scope :: scopesFrom (outer scope) := by
  rw [scopesFrom, if_neg (by simpa using inside)]
  congr 1
  by_cases present : '.' ∈ scope.toList
  · rw [beforeDots_present present]
    by_cases top : beforeLastDot scope.toList = []
    · simp [scopesFrom, outer, top, beforeDots]
    · have still : outer scope ≠ "" := by simpa [outer] using top
      rw [scopesFrom, if_neg (by simpa using still)]
      simp [outer, top]
  · simp [scopesFrom, outer, beforeDots_absent present, beforeLastDot_absent present]

theorem candidates_places (target scope : String) : candidates target scope = places target scope := by
  induction scope using places.induct with
  | case1 => simp [candidates, scopesFrom, places]
  | case2 scope inside ih =>
    rw [places, dif_neg inside, ← ih, candidates, candidates, scopesFrom_outer inside]
    rfl

example : candidates "leaf" ".x..y" = [".x..y.leaf", ".x..leaf", ".x.leaf", "leaf"] := by decide

/-! ### The least path -/

/-- Shorter paths stand first, and of two that are equally long the first in the order of their characters. -/
def AtMost (a b : String) : Prop :=
  a.length < b.length ∨ a.length = b.length ∧ ¬ b.toList < a.toList

theorem atMost_refl (a : String) : AtMost a a := .inr ⟨rfl, List.lt_irrefl _⟩

theorem atMost_trans {a b c : String} (first : AtMost a b) (second : AtMost b c) : AtMost a c := by
  rcases first with shorter | ⟨even, before⟩
  · rcases second with shorter' | ⟨even', _⟩
    · exact .inl (Nat.lt_trans shorter shorter')
    · exact .inl (even' ▸ shorter)
  · rcases second with shorter' | ⟨even', before'⟩
    · exact .inl (even ▸ shorter')
    · exact .inr ⟨even.trans even', List.not_lt.mpr (List.le_trans (List.not_lt.mp before) (List.not_lt.mp before'))⟩

theorem atMost_antisymm {a b : String} (first : AtMost a b) (second : AtMost b a) : a = b := by
  rcases first with shorter | ⟨even, before⟩
  · rcases second with shorter' | ⟨even', _⟩ <;> omega
  · rcases second with shorter' | ⟨_, before'⟩
    · omega
    · exact String.toList_inj.mp (List.le_antisymm (List.not_lt.mp before) (List.not_lt.mp before'))

theorem atMost_of_precedes {a b : String} (precedes : precedes a b = true) : AtMost a b := by
  simp only [Registry.precedes, Bool.or_eq_true, decide_eq_true_eq, Bool.and_eq_true, beq_iff_eq] at precedes
  exact precedes.imp_right fun both => ⟨both.1, List.lt_asymm both.2⟩

theorem atMost_of_not_precedes {a b : String} (not : precedes a b = false) : AtMost b a := by
  simp only [Registry.precedes, Bool.or_eq_false_iff, decide_eq_false_iff_not, Bool.and_eq_false_iff,
    beq_eq_false_iff_ne] at not
  obtain ⟨notShorter, notBefore⟩ := not
  by_cases even : a.length = b.length
  · refine .inr ⟨even.symm, ?_⟩
    exact notBefore.resolve_left (not_not_intro even)
  · exact .inl (by omega)

theorem leastPath_none {paths : List String} : leastPath paths = none ↔ paths = [] := by
  cases paths with
  | nil => simp [leastPath]
  | cons first rest =>
    simp only [leastPath, reduceCtorEq, iff_false]
    split
    · simp
    · split <;> simp

theorem leastPath_least {paths : List String} {path : String} (found : leastPath paths = some path) :
    path ∈ paths ∧ ∀ other ∈ paths, AtMost path other := by
  induction paths generalizing path with
  | nil => cases found
  | cons first rest ih =>
    rw [leastPath] at found
    cases later : leastPath rest with
    | none =>
      rw [later] at found
      cases found
      simp [leastPath_none.mp later, atMost_refl]
    | some least =>
      rw [later] at found
      obtain ⟨member, all⟩ := ih later
      dsimp only at found
      by_cases before : precedes least first = true
      · rw [if_pos before] at found
        cases found
        refine ⟨List.mem_cons_of_mem _ member, fun other among => ?_⟩
        rcases List.mem_cons.mp among with rfl | behind
        · exact atMost_of_precedes before
        · exact all other behind
      · rw [if_neg before] at found
        cases found
        have here := atMost_of_not_precedes (Bool.eq_false_iff.mpr before)
        refine ⟨List.mem_cons_self, fun other among => ?_⟩
        rcases List.mem_cons.mp among with rfl | behind
        · exact atMost_refl _
        · exact atMost_trans here (all other behind)

/-! ### Meaning -/

/-- A path ends in a target that stands behind a dot. -/
def EndsIn (target path : String) : Prop := ∃ before, path = before ++ "." ++ target

theorem endsWithTarget_iff {target path : String} : endsWithTarget target path = true ↔ EndsIn target path := by
  rw [endsWithTarget, List.isSuffixOf_iff_suffix]
  constructor
  · rintro ⟨before, same⟩
    refine ⟨String.ofList before, String.toList_inj.mp ?_⟩
    simp [← same]
  · rintro ⟨before, rfl⟩
    exact ⟨before.toList, by simp⟩

/-- The registered path that a target means in a scope: the first registered place, and where no place is registered
the least registered path that ends in the target. -/
inductive Means (paths : List String) (target scope path : String) : Prop
  | placed (before after : List String) (listed : places target scope = before ++ path :: after)
      (first : ∀ place ∈ before, place ∉ paths) (registered : path ∈ paths)
  | ending (nowhere : ∀ place ∈ places target scope, place ∉ paths) (registered : path ∈ paths)
      (ends : EndsIn target path) (least : ∀ other ∈ paths, EndsIn target other → AtMost path other)

theorem resolvePath_means {paths : List String} {target scope path : String}
    (found : resolvePath paths target scope = some path) : Means paths target scope path := by
  rw [resolvePath, candidates_places] at found
  cases first : (places target scope).find? paths.contains with
  | some place =>
    rw [first] at found
    cases found
    obtain ⟨registered, before, after, listed, earlier⟩ := List.find?_eq_some_iff_append.mp first
    exact .placed before after listed (by simpa using earlier) (by simpa using registered)
  | none =>
    rw [first] at found
    obtain ⟨member, all⟩ := leastPath_least found
    obtain ⟨registered, ends⟩ := List.mem_filter.mp member
    refine .ending ?_ registered (endsWithTarget_iff.mp ends) fun other among end' => ?_
    · simpa using List.find?_eq_none.mp first
    · exact all other (List.mem_filter.mpr ⟨among, endsWithTarget_iff.mpr end'⟩)

theorem resolvePath_none {paths : List String} {target scope : String} :
    resolvePath paths target scope = none ↔
      ∀ path ∈ paths, path ∉ places target scope ∧ ¬ EndsIn target path := by
  rw [resolvePath, candidates_places]
  constructor
  · intro missing path registered
    cases first : (places target scope).find? paths.contains with
    | some place =>
      rw [first] at missing
      cases missing
    | none =>
      simp only [first, leastPath_none, List.filter_eq_nil_iff] at missing
      refine ⟨fun place => ?_, fun ends => missing path registered (endsWithTarget_iff.mpr ends)⟩
      exact List.find?_eq_none.mp first path place (by simpa using registered)
  · intro missing
    have nowhere : (places target scope).find? paths.contains = none := by
      refine List.find?_eq_none.mpr fun place listed found => ?_
      exact (missing place (by simpa using found)).1 listed
    have ending : paths.filter (endsWithTarget target) = [] := by
      refine List.filter_eq_nil_iff.mpr fun path registered ends => ?_
      exact (missing path registered).2 (endsWithTarget_iff.mp ends)
    rw [nowhere, ending]
    rfl

theorem means_unique {paths : List String} {target scope a b : String} (left : Means paths target scope a)
    (right : Means paths target scope b) : a = b := by
  -- the place found first decides, and the least path only counts where there is none
  have never : ∀ {c}, c ∈ paths → c ∈ places target scope → ¬ ∀ place ∈ places target scope, place ∉ paths :=
    fun registered listed nowhere => nowhere _ listed registered
  cases left with
  | placed before after listed first registered =>
    cases right with
    | placed before' after' listed' first' registered' =>
      have found : (places target scope).find? paths.contains = some a :=
        List.find?_eq_some_iff_append.mpr ⟨by simpa using registered, before, after, listed, by simpa using first⟩
      have found' : (places target scope).find? paths.contains = some b :=
        List.find?_eq_some_iff_append.mpr ⟨by simpa using registered', before', after', listed', by simpa using first'⟩
      exact Option.some.inj (found.symm.trans found')
    | ending nowhere' _ _ _ => exact absurd nowhere' (never registered (by simp [listed]))
  | ending nowhere registered ends least =>
    cases right with
    | placed before' after' listed' first' registered' =>
      exact absurd nowhere (never registered' (by simp [listed']))
    | ending nowhere' registered' ends' least' =>
      exact atMost_antisymm (least b registered' ends') (least' a registered ends)

theorem resolvePath_iff {paths : List String} {target scope path : String} :
    resolvePath paths target scope = some path ↔ Means paths target scope path := by
  refine ⟨resolvePath_means, fun means => ?_⟩
  cases found : resolvePath paths target scope with
  | some other => rw [means_unique means (resolvePath_means found)]
  | none =>
    have missing := resolvePath_none.mp found
    cases means with
    | placed before after listed first registered => exact absurd (by simp [listed]) (missing path registered).1
    | ending nowhere registered ends least => exact absurd ends (missing path registered).2

theorem means_of_same {paths paths' : List String} (same : ∀ path, path ∈ paths' ↔ path ∈ paths)
    {target scope path : String} (means : Means paths target scope path) : Means paths' target scope path := by
  cases means with
  | placed before after listed first registered =>
    exact .placed before after listed (fun place among => (same place).not.mpr (first place among))
      ((same path).mpr registered)
  | ending nowhere registered ends least =>
    exact .ending (fun place listed => (same place).not.mpr (nowhere place listed)) ((same path).mpr registered) ends
      fun other among => least other ((same other).mp among)

theorem resolvePath_of_same {paths paths' : List String} (same : ∀ path, path ∈ paths' ↔ path ∈ paths)
    (target scope : String) : resolvePath paths' target scope = resolvePath paths target scope := by
  refine Option.ext fun path => ?_
  rw [resolvePath_iff, resolvePath_iff]
  exact ⟨means_of_same fun path => (same path).symm, means_of_same same⟩

section

variable {β : Type}

theorem get_registered {registry : Registry β} {path : String} (registered : path ∈ registry.paths) :
    ∃ entry, registry.get? path = some entry ∧ entry.path = path := by
  obtain ⟨entry, member, here⟩ := List.mem_map.mp registered
  cases found : registry.get? path with
  | none => exact absurd (by simpa using here) (List.find?_eq_none.mp found entry member)
  | some first => exact ⟨first, rfl, by simpa using List.find?_some found⟩

theorem means_registered {paths : List String} {target scope path : String} (means : Means paths target scope path) :
    path ∈ paths := by
  cases means with
  | placed before after listed first registered => exact registered
  | ending nowhere registered ends least => exact registered

theorem resolve_path (registry : Registry β) (target scope : String) :
    (registry.resolve target scope).map (·.path) = resolvePath registry.paths target scope := by
  rw [resolve]
  cases found : resolvePath registry.paths target scope with
  | none => rfl
  | some path =>
    obtain ⟨entry, got, here⟩ := get_registered (means_registered (resolvePath_means found))
    simp [got, here]

/-- A reference means the entry of the first registered path among its places, then of the least path that ends in
it, and nothing exactly when there is no such path; registries with the same paths agree on the path. -/
theorem resolve_precedence (registry : Registry β) (target scope : String) :
    (∀ entry, registry.resolve target scope = some entry ↔
      ∃ path, Means registry.paths target scope path ∧ registry.get? path = some entry) ∧
    (registry.resolve target scope = none ↔
      ∀ path ∈ registry.paths, path ∉ places target scope ∧ ¬ EndsIn target path) ∧
    ∀ other : Registry β, other.paths.Perm registry.paths →
      (other.resolve target scope).map (·.path) = (registry.resolve target scope).map (·.path) := by
  refine ⟨fun entry => ?_, ?_, fun other reordered => ?_⟩
  · rw [resolve, Option.bind_eq_some_iff]
    exact exists_congr fun path => and_congr_left fun _ => resolvePath_iff
  · rw [← resolvePath_none, ← resolve_path, Option.map_eq_none_iff]
  · rw [resolve_path, resolve_path]
    exact resolvePath_of_same (fun path => reordered.mem_iff) target scope

/-- Of two equally long paths the lexically first is meant, whichever was registered first. -/
theorem resolve_precedence_swapped :
    let a : Entry Unit := ⟨"a.leaf", 0, "", ()⟩
    let b : Entry Unit := ⟨"b.leaf", 1, "", ()⟩
    ((⟨[a, b]⟩ : Registry Unit).resolve "leaf" "x.y").map (·.path) = some "a.leaf" ∧
      ((⟨[b, a]⟩ : Registry Unit).resolve "leaf" "x.y").map (·.path) = some "a.leaf" := by
  intro a b
  have found : ((⟨[a, b]⟩ : Registry Unit).resolve "leaf" "x.y").map (·.path) = some "a.leaf" := by decide
  refine ⟨found, Eq.trans ?_ found⟩
  exact (resolve_precedence ⟨[a, b]⟩ "leaf" "x.y").2.2 ⟨[b, a]⟩ ((List.Perm.swap a b []).map _)

end

end ProceduralScene.Registry
