/-
A cursor in a JSON text.

* `Cursor.failHere`, `Cursor.failNext` — a fault at the cursor, and one byte further;
* `Cursor.skipBlanks`, `Cursor.expectWord` — blanks and the rest of a word.
-/
import GraphFolding.Json.Error
namespace GraphFolding.Json

/-- What is left to read and its place in the text. -/
structure Cursor where
  position : Position
  rest : List Char
  deriving Repr

/-- The blanks between tokens. -/
def isBlank (c : Char) : Bool := c = ' ' || c = '\n' || c = '\t' || c = '\r'

/-- Whether a character is a decimal digit. -/
def isDigit (c : Char) : Bool := '0' ≤ c && c ≤ '9'

namespace Cursor

/-- The start of a text. -/
def ofString (s : String) : Cursor := ⟨.start, s.toList⟩

/-- Past one character. -/
def advance (k : Cursor) : Cursor :=
  match k.rest with
  | [] => k
  | c :: rest => ⟨k.position.after c, rest⟩

/-- The place one byte further, or the end. -/
def nextPosition (k : Cursor) : Position :=
  match k.rest with
  | [] => k.position
  | c :: _ => k.position.afterByte c

/-- A fault at the cursor. -/
def failHere {α : Type} (k : Cursor) (fault : Fault) : Except Error α :=
  .error ⟨fault, k.position⟩

/-- A fault one byte after the cursor. -/
def failNext {α : Type} (k : Cursor) (fault : Fault) : Except Error α :=
  .error ⟨fault, k.nextPosition⟩

/-- A value that is not as expected, at the cursor. -/
def failMismatch {α : Type} (k : Cursor) (m : Data.Mismatch) : Except Error α :=
  k.failHere (.mismatch m)

/-- Past the characters of a class. -/
def skipWhile (p : Char → Bool) : Position → List Char → Cursor
  | position, [] => ⟨position, []⟩
  | position, c :: rest =>
    if p c then skipWhile p (position.after c) rest else ⟨position, c :: rest⟩

/-- Past the blanks that come next. -/
def skipBlanks (k : Cursor) : Cursor := skipWhile isBlank k.position k.rest

/-- Past the digits that come next. -/
def skipDigits (k : Cursor) : Cursor := skipWhile isDigit k.position k.rest

/-- Past the rest of a word. -/
def expectWord : List Char → Cursor → Except Error Cursor
  | [], k => .ok k
  | expected :: more, k =>
    match k.rest with
    | [] => k.failHere .endInValue
    | c :: _ => if c = expected then expectWord more k.advance else k.failNext .expectedWord

/-- Past the colon between a key and its value. -/
def expectColon (k : Cursor) : Except Error Cursor :=
  let k := k.skipBlanks
  match k.rest with
  | [] => k.failNext .endInObject
  | ':' :: _ => .ok k.advance
  | _ => k.failNext .expectedColon

end Cursor
end GraphFolding.Json
