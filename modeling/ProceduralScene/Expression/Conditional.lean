import ProceduralScene.Expression.Scan

/-!
Conditional calls as ternaries: `if(c, a, b)` becomes `((c)?(a):(b))`. One pass replaces every call that it meets
from left to right and goes on behind the text that it wrote, so a call nested in another waits for the next pass;
the number of passes is bounded.
-/

set_option autoImplicit false

namespace ProceduralScene.Expression

def conditionalName : List Char := ['i', 'f']

/-- The ternary with each part in parentheses. -/
def ternaryText (condition whenTrue whenFalse : List Char) : List Char :=
  "((".toList ++ condition ++ ")?(".toList ++ whenTrue ++ "):(".toList ++ whenFalse ++ "))".toList

/-- Whether a found call stands in a literal or is the end of a longer name. -/
def CallSite.isBlocked (site : CallSite) (quote previous : Option Char) : Bool :=
  (quoteAfter quote site.before).isSome || site.head.head?.any isQuote ||
    blocksCall (site.before.getLast?.or previous)

/-- One pass from a text whose surroundings to the left are the open quote and the previous character. The flag
says whether anything was replaced. -/
def convertPass : Nat → Option Char → Option Char → List Char → Bool × List Char
  | 0, _, _, text => (false, text)
  | fuel + 1, quote, previous, text =>
    match findCall? conditionalName previous text with
    | none => (false, text)
    | some site =>
      let skipped :=
        let rest := convertPass fuel (quoteAfter quote (site.before ++ site.head)) (some '(') site.rest
        (rest.1, site.before ++ site.head ++ rest.2)
      if site.isBlocked quote previous then skipped
      else
        match cutAtClosing site.rest with
        | none => (false, text)
        | some (inner, rest) =>
          match splitArgs inner with
          | [condition, whenTrue, whenFalse] =>
            let written := ternaryText condition whenTrue whenFalse
            let after := convertPass fuel (quoteAfter quote (site.before ++ written)) (some ')') rest
            (true, site.before ++ written ++ after.2)
          | _ => skipped

/-- At most `passes` passes, and none after one that changed nothing. -/
def convertConditionals : Nat → List Char → List Char
  | 0, text => text
  | passes + 1, text =>
    let (changed, written) := convertPass (text.length + 1) none none text
    if changed then convertConditionals passes written else written

end ProceduralScene.Expression
