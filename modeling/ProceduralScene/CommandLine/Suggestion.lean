import ProceduralScene.Text.Order

/-!
Suggestions for words that are not known. A word is suggested when it shares enough characters with the given one,
in runs that keep their order.
-/

set_option autoImplicit false

namespace ProceduralScene.CommandLine.Suggestion

/-- The length of the common start of two texts. -/
def commonStart : List Char → List Char → Nat
  | a :: as, b :: bs => if a == b then commonStart as bs + 1 else 0
  | _, _ => 0

/-- A run of characters that two texts share, by its start in each of them and its length. -/
structure SharedRun where
  first : Nat
  second : Nat
  size : Nat

/-- The longest run that two texts share, the earliest one if there are several. -/
def longestRun (a b : List Char) : SharedRun :=
  let starts := (List.range a.length).flatMap fun i => (List.range b.length).map fun j => (i, j)
  starts.foldl (fun (best : SharedRun) (i, j) =>
    let size := commonStart (a.drop i) (b.drop j)
    if best.size < size then ⟨i, j, size⟩ else best) ⟨0, 0, 0⟩

/-- How many characters two texts share: those of the longest run, and those on either side of it. -/
def sharedWithin : Nat → List Char → List Char → Nat
  | 0, _, _ => 0
  | depth + 1, a, b =>
    let run := longestRun a b
    if run.size == 0 then 0
    else
      sharedWithin depth (a.take run.first) (b.take run.second) + run.size +
        sharedWithin depth (a.drop (run.first + run.size)) (b.drop (run.second + run.size))

/-- How many characters a known word shares with the given one, and how many both have together. -/
structure Score where
  word : String
  shared : Nat
  total : Nat

def score (given known : String) : Score :=
  ⟨known, sharedWithin known.length known.toList given.toList, known.length + given.length⟩

/-- At least three fifths of all characters are shared. -/
def Score.isClose (score : Score) : Bool := 6 * score.total ≤ 20 * score.shared

/-- The closer word comes first. -/
def Score.precedes (a b : Score) : Bool :=
  b.shared * a.total < a.shared * b.total ||
    (b.shared * a.total == a.shared * b.total && Text.ordered b.word a.word)

/-- At most three of the known words that are close to a given one, the closest first. -/
def closeWords (given : String) (known : List String) : List String :=
  (((known.map (score given)).filter Score.isClose).mergeSort Score.precedes |>.take 3).map (·.word)

/-- How suggestions follow a message. -/
def describe (words : List String) : String :=
  match words with
  | [] => ""
  | [word] => " Did you mean " ++ word ++ "?"
  | words =>
    " (Possible options: " ++ ", ".intercalate (words.mergeSort Text.ordered) ++ ")"

end ProceduralScene.CommandLine.Suggestion
