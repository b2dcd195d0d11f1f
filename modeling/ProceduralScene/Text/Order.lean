/-!
The order of texts by their characters, the first difference deciding.
-/

set_option autoImplicit false

namespace ProceduralScene.Text

/-- Whether the first characters stand at or before the second ones. -/
def charsOrdered : List Char → List Char → Bool
  | [], _ => true
  | _ :: _, [] => false
  | a :: as, b :: bs => a.toNat < b.toNat || (a == b && charsOrdered as bs)

/-- Whether a text stands at or before another one. -/
def ordered (a b : String) : Bool := charsOrdered a.toList b.toList

end ProceduralScene.Text
