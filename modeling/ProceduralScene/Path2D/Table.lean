import ProceduralScene.Value.Convert

/-!
Rectangular tables of numbers read from nested lists, and evenly spaced samples of an interval.
-/

set_option autoImplicit false

namespace ProceduralScene.Path2D

/-- Numbers in rows of equal sizes: the size at each depth, and the numbers in order. -/
structure Table where
  shape : List Nat
  data : List Float

/-- A number of a table; null stands for the number that is none. -/
def cell : Value → Except Failure Float
  | .null => .ok (0.0 / 0.0)
  | value => value.toFloat

def stackTables : List Table → Except Failure Table
  | [] => .ok ⟨[0], []⟩
  | first :: rest =>
    if rest.all fun table => table.shape == first.shape then
      .ok ⟨(rest.length + 1) :: first.shape, first.data ++ rest.flatMap Table.data⟩
    else .error .badContent

mutual
/-- The table that nested lists hold; rows of different sizes are refused. -/
def Table.ofValue : Value → Except Failure Table
  | .list items => do stackTables (← Table.ofItems items)
  | value => return ⟨[], [← cell value]⟩

def Table.ofItems : List Value → Except Failure (List Table)
  | [] => .ok []
  | x :: rest => return (← Table.ofValue x) :: (← Table.ofItems rest)
end

def rowsOf (width : Nat) : Nat → List Float → List (List Float)
  | 0, _ => []
  | count + 1, data => data.take width :: rowsOf width count (data.drop width)

/-- The largest count of samples that a path may have. -/
def sampleLimit : Nat := Number.twoTo 22

def sampleCount (n : Int) : Except Failure Nat :=
  if n > sampleLimit then .error .tooLarge else .ok n.toNat

def natFloat (n : Nat) : Float := Float.ofNat n

/-- The first natural numbers as floating numbers. -/
def ramp (count : Nat) : List Float :=
  (List.range count).map natFloat

/-- Evenly spaced numbers from `start` to `stop`, both included. -/
def evenly (start stop : Float) (count : Nat) : List Float :=
  if count ≤ 1 then List.replicate count (0.0 * (stop - start) + start)
  else
    let parts := natFloat (count - 1)
    let step := (stop - start) / parts
    let at' (i : Float) : Float := if step == 0.0 then i / parts * (stop - start) + start else i * step + start
    (ramp (count - 1)).map at' ++ [stop]

/-- Evenly spaced samples; a negative count is refused. -/
def samples (start stop : Float) (count : Int) : Except Failure (List Float) :=
  if count < 0 then .error .badContent else return evenly start stop (← sampleCount count)

end ProceduralScene.Path2D
