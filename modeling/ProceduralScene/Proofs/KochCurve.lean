import Mathlib.Algebra.Ring.Nat
import Mathlib.Data.List.Basic
import ProceduralScene.Path2D.Generator

/-!
The Koch curve over a segment. A level is four curves of the level below over consecutive segments, joined where they
meet; each joint is written once, so no level loses or repeats a point, and each one refines the level below.
-/

set_option autoImplicit false

namespace ProceduralScene.Path2D

/-! ### Paths that lead on -/

structure Leads (a b : Point) (path : Path) : Prop where
  starts : path.head? = some a
  ends : path.getLast? = some b

-- The second path starts at the last point of the first.
def join (first second : Path) : Path := first ++ second.drop 1

section

variable {a b c : Point} {first second : Path}

theorem exists_of_leads (leads : Leads a b first) : ∃ later, first = a :: later :=
  List.head?_eq_some_iff.mp leads.starts

theorem leads_join (leads : Leads a b first) (further : Leads b c second) : Leads a c (join first second) := by
  obtain ⟨later, rfl⟩ := exists_of_leads further
  refine ⟨?_, ?_⟩
  · rw [join, List.head?_append, leads.starts, Option.some_or]
  · have ends := further.ends
    cases later with
    | nil =>
      -- the second path is a single point, its start and its end
      cases ends
      simpa [join] using leads.ends
    | cons next later =>
      rw [List.getLast?_cons_cons] at ends
      rw [join, List.drop_one, List.tail_cons, List.getLast?_append, ends, Option.some_or]

theorem length_join (first second : Path) : (join first second).length = first.length + (second.length - 1) := by
  simp [join]

-- A common start is needed only of the second paths: it is the point that each join leaves out.
theorem sublist_join {finer finest : Path} {d : Point} (leads : Leads b c second) (leads' : Leads b d finest)
    (refines : first.Sublist finer) (refines' : second.Sublist finest) :
    (join first second).Sublist (join finer finest) := by
  obtain ⟨later, rfl⟩ := exists_of_leads leads
  obtain ⟨later', rfl⟩ := exists_of_leads leads'
  exact refines.append (List.cons_sublist_cons.mp refines')

end

/-! ### Levels -/

/-- The points between the four segments that replace a segment. -/
structure Corners where
  rise : Point
  peak : Point
  fall : Point

def corners (a b : Point) : Corners :=
  let rise : Point := ⟨a.x + (b.x - a.x) / 3, a.y + (b.y - a.y) / 3⟩
  let fall : Point := ⟨a.x + (b.x - a.x) * 2 / 3, a.y + (b.y - a.y) * 2 / 3⟩
  ⟨rise, kochPeak a b rise fall, fall⟩

theorem kochCurve_succ (level : Nat) (a b : Point) : kochCurve (level + 1) a b =
    join (join (join (kochCurve level a (corners a b).rise) (kochCurve level (corners a b).rise (corners a b).peak))
      (kochCurve level (corners a b).peak (corners a b).fall)) (kochCurve level (corners a b).fall b) := rfl

theorem leads_kochCurve (level : Nat) : ∀ a b : Point, Leads a b (kochCurve level a b) := by
  induction level with
  | zero => exact fun a b => ⟨rfl, rfl⟩
  | succ level ih =>
    intro a b
    rw [kochCurve_succ]
    exact leads_join (leads_join (leads_join (ih a _) (ih _ _)) (ih _ _)) (ih _ b)

theorem length_kochCurve (level : Nat) : ∀ a b : Point, (kochCurve level a b).length = 4 ^ level + 1 := by
  induction level with
  | zero => exact fun _ _ => rfl
  | succ level ih =>
    intro a b
    simp only [kochCurve_succ, length_join, ih, Nat.pow_succ]
    omega

theorem kochCurve_refines (level : Nat) : ∀ a b : Point, (kochCurve level a b).Sublist (kochCurve (level + 1) a b) := by
  induction level with
  | zero =>
    intro a b
    exact List.Sublist.cons_cons a (List.singleton_sublist.mpr (by simp [kochCurve]))
  | succ level ih =>
    intro a b
    -- both levels stand on the same corners, so each part is refined by the part over the same segment
    rw [kochCurve_succ level, kochCurve_succ (level + 1)]
    have refined : ∀ {finer coarser : Path} (c d : Point), coarser.Sublist finer →
        (join coarser (kochCurve level c d)).Sublist (join finer (kochCurve (level + 1) c d)) := fun c d refines =>
      sublist_join (leads_kochCurve level c d) (leads_kochCurve (level + 1) c d) refines (ih c d)
    exact refined _ b (refined _ _ (refined _ _ (ih a _)))

/-! ### The generator -/

theorem endPoint_toValue (p : Point) : endPoint p.toValue = .ok p := rfl

theorem koch_ok {p0 p1 level : Value} {a b : Point} {n : Nat} (first : endPoint p0 = .ok a) (second : endPoint p1 = .ok b)
    (leveled : level.toInt = .ok (n : Int)) : koch p0 p1 level = .ok (kochCurve n a b) := by
  have noDescent : ¬ (n : Int) < 0 := by omega
  rw [koch, first, second]
  simp only [bind, Except.bind, leveled, if_neg noDescent]
  rfl

/-- For any two points and any level the Koch curve has all its points, from the first point to the second one as they
are. From level 1 on it is made of the curves of the level below over four segments, each of which starts where the one
before it ends, with that joint written once; and it keeps the whole curve of the level below over its own segment. -/
theorem koch_chains {p0 p1 level : Value} {a b : Point} {n : Nat} (first : endPoint p0 = .ok a) (second : endPoint p1 = .ok b)
    (leveled : level.toInt = .ok (n : Int)) : ∃ path, koch p0 p1 level = .ok path ∧ path.length = 4 ^ n + 1 ∧
      path.head? = some a ∧ path.getLast? = some b ∧
      ∀ below : Nat, n = below + 1 → ∃ (c d e : Point) (rise up down fall coarse : Path),
        koch p0 c.toValue (.int below) = .ok rise ∧ koch c.toValue d.toValue (.int below) = .ok up ∧
        koch d.toValue e.toValue (.int below) = .ok down ∧ koch e.toValue p1 (.int below) = .ok fall ∧
        rise.getLast? = up.head? ∧ up.getLast? = down.head? ∧ down.getLast? = fall.head? ∧
        path = rise ++ up.drop 1 ++ down.drop 1 ++ fall.drop 1 ∧
        koch p0 p1 (.int below) = .ok coarse ∧ coarse.Sublist path := by
  have leads := leads_kochCurve n a b
  refine ⟨kochCurve n a b, koch_ok first second leveled, length_kochCurve n a b, leads.starts, leads.ends, ?_⟩
  rintro below rfl
  have lower : (Value.int below).toInt = .ok (below : Int) := rfl
  have meet : ∀ c d e : Point, (kochCurve below c d).getLast? = (kochCurve below d e).head? := fun c d e => by
    rw [(leads_kochCurve below c d).ends, (leads_kochCurve below d e).starts]
  refine ⟨(corners a b).rise, (corners a b).peak, (corners a b).fall, _, _, _, _, _,
    koch_ok first (endPoint_toValue _) lower, koch_ok (endPoint_toValue _) (endPoint_toValue _) lower,
    koch_ok (endPoint_toValue _) (endPoint_toValue _) lower, koch_ok (endPoint_toValue _) second lower,
    meet _ _ _, meet _ _ _, meet _ _ _, kochCurve_succ below a b, koch_ok first second lower, kochCurve_refines below a b⟩

/-- An end point with an integer and a text for its coordinates, and a fraction for the level. -/
theorem koch_chains_mixed : ∃ path, koch (.list [.int 3, .text "-2.5"]) (.list [.float 0.5, .bool true, .int 7]) (.float 2.75) =
    .ok path ∧ path.length = 17 ∧ path.head? = some ⟨3.0, -2.5⟩ ∧ path.getLast? = some ⟨0.5, 1.0⟩ := by
  have first : endPoint (.list [.int 3, .text "-2.5"]) = .ok ⟨3.0, -2.5⟩ := rfl
  have second : endPoint (.list [.float 0.5, .bool true, .int 7]) = .ok ⟨0.5, 1.0⟩ := rfl
  have leveled : (Value.float 2.75).toInt = .ok ((2 : Nat) : Int) := rfl
  obtain ⟨path, made, length, starts, ends, -⟩ := koch_chains first second leveled
  exact ⟨path, made, length, starts, ends⟩

end ProceduralScene.Path2D
