/-!
A place in the text of a YAML document, with its line and column, and the ways to move on from it.
-/

set_option autoImplicit false

namespace ProceduralScene.Yaml

/-- Why a document has no value. -/
inductive Fault where
  /-- The text is no document. -/
  | malformed
  /-- A scalar has the form of a number but no value. -/
  | unusable
  deriving DecidableEq, Repr

structure Cursor where
  rest : List Char
  index : Nat
  line : Nat
  column : Nat

/-- What stands for the end of the text. -/
def endMark : Char := Char.ofNat 0

def isBreak (c : Char) : Bool :=
  c == '\n' || c == '\r' || c.toNat == 0x85 || c.toNat == 0x2028 || c.toNat == 0x2029

def isBlank (c : Char) : Bool := c == ' ' || c == '\t'

def isBreakOrEnd (c : Char) : Bool := isBreak c || c == endMark

def isGap (c : Char) : Bool := isBlank c || isBreakOrEnd c

/-- Whether a document may hold a character. -/
def isPrintable (c : Char) : Bool :=
  let n := c.toNat
  n == 9 || n == 10 || n == 13 || (32 ≤ n && n ≤ 126) || n == 0x85 || (0xa0 ≤ n && n ≤ 0xd7ff) ||
    (0xe000 ≤ n && n ≤ 0xfffd && n != 0xfeff) || 0x10000 ≤ n

namespace Cursor

def ofText (cs : List Char) : Cursor := ⟨cs, 0, 0, 0⟩

def peek (cursor : Cursor) (offset : Nat) : Char := cursor.rest.getD offset endMark

def current (cursor : Cursor) : Char := cursor.peek 0

def atEnd (cursor : Cursor) : Bool := cursor.rest.isEmpty

/-- Moves over one character of a line. -/
def skip (cursor : Cursor) : Cursor :=
  match cursor.rest with
  | [] => cursor
  | _ :: rest => ⟨rest, cursor.index + 1, cursor.line, cursor.column + 1⟩

def skipBy (cursor : Cursor) (count : Nat) : Cursor :=
  (List.range count).foldl (fun cursor _ => cursor.skip) cursor

/-- Moves over one line break. -/
def skipBreak (cursor : Cursor) : Cursor :=
  match cursor.rest with
  | '\r' :: '\n' :: rest => ⟨rest, cursor.index + 2, cursor.line + 1, 0⟩
  | _ :: rest => ⟨rest, cursor.index + 1, cursor.line + 1, 0⟩
  | [] => cursor

/-- What a line break contributes to a scalar. -/
def breakText (cursor : Cursor) : List Char :=
  if cursor.current.toNat == 0x2028 || cursor.current.toNat == 0x2029 then [cursor.current] else ['\n']

/-- Moves over the characters of a line that satisfy a test, and gives them. -/
def takeWhile (cursor : Cursor) (test : Char → Bool) : List Char × Cursor :=
  let found := cursor.rest.takeWhile test
  (found, ⟨cursor.rest.drop found.length, cursor.index + found.length, cursor.line,
    cursor.column + found.length⟩)

def dropWhile (cursor : Cursor) (test : Char → Bool) : Cursor := (cursor.takeWhile test).2

/-- Whether three characters and a gap stand at the start of a line. -/
def isIndicator (cursor : Cursor) (c : Char) : Bool :=
  cursor.column == 0 && cursor.peek 0 == c && cursor.peek 1 == c && cursor.peek 2 == c && isGap (cursor.peek 3)

/-- Whether a line starts or ends a document. -/
def atDocumentMark (cursor : Cursor) : Bool :=
  cursor.isIndicator '-' || cursor.isIndicator '.'

end Cursor

end ProceduralScene.Yaml
