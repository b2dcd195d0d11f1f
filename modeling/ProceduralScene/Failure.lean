/-!
Why an operation fails. Each cause is a constructor; the text that a reader sees is made in one place. Some
causes carry no wording of their own and are all shown alike.
-/

set_option autoImplicit false

namespace ProceduralScene

/-- What is wrong with an expression. Found texts are already in quoted notation. -/
inductive ExpressionFault where
  | empty
  | unsafeCharacters (text : String)
  | unexpectedCharacter (position : Nat) (text : String)
  | expected (symbol found : String)
  | unexpectedToken (found : String)
  | trailingToken (found : String)
  | unknownFunction (name : String)
  | unknownIdentifier (name : String)
  | divisionByZero
  | moduloByZero
  deriving DecidableEq, Repr

def ExpressionFault.message : ExpressionFault → String
  | .empty => "empty expression"
  | .unsafeCharacters text => "unsafe characters in expression: " ++ text
  | .unexpectedCharacter position text =>
    "unexpected character in expression at position " ++ toString position ++ ": " ++ text
  | .expected symbol found => "expected " ++ symbol ++ ", got " ++ found ++ " in expression"
  | .unexpectedToken found => "unexpected token in expression: " ++ found
  | .trailingToken found => "unexpected token after expression: " ++ found
  | .unknownFunction name => "unknown function in expression: " ++ name
  | .unknownIdentifier name => "unknown identifier in expression: " ++ name
  | .divisionByZero => "division by zero in expression"
  | .moduloByZero => "modulo by zero in expression"

inductive Failure where
  | expression (fault : ExpressionFault)
  /-- A value of the right kind was turned down, with a reason. -/
  | rejected (reason : String)
  /-- A value of the wrong kind was turned down, with a reason. -/
  | refused (reason : String)
  /-- An operation met a value of a kind that it is not defined on. -/
  | wrongKind
  /-- A value of the right kind has a content that cannot be used. -/
  | badContent
  /-- A number is too large for its destination. -/
  | tooLarge
  /-- A key, an index or a quotient does not exist. -/
  | absent
  /-- The fields at these paths do not fit the model of a document. -/
  | invalid (paths : List String)
  | badSchema (reason : String)
  | helperNotFound (shown : String)
  | helperFailed (reason : String)
  | unresolved (reason : String)
  | escalated (reason : String)
  | notExported (reason : String)
  deriving DecidableEq, Repr

namespace Failure

/-- The text that stands for a cause without wording. -/
def unworded : String := "<error>"

def message : Failure → String
  | .expression fault => fault.message
  | .rejected reason | .refused reason | .badSchema reason | .helperFailed reason | .unresolved reason
  | .escalated reason | .notExported reason => reason
  | .helperNotFound shown => "helper not found: " ++ shown
  | .invalid paths => "<invalid: " ++ ", ".intercalate paths ++ ">"
  | .wrongKind | .badContent | .tooLarge | .absent => unworded

/-- A value that is not a number, or that does not read as one. -/
def isBadNumber : Failure → Bool
  | .rejected _ | .refused _ | .wrongKind | .badContent | .invalid _ => true
  | _ => false

end Failure

end ProceduralScene
