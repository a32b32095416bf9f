/-
Where a JSON text goes wrong, and how.

* `Position` — line from 1 and column from 0, a column being a byte;
* `Fault` — the ways in which a text breaks the notation or what is expected of it;
* `Error` — a fault at a place.
-/
import GraphFolding.Data.Value
namespace GraphFolding.Json

/-- A line, from 1, and the bytes before a place on it. -/
structure Position where
  line : Nat
  column : Nat
  deriving DecidableEq, Repr

namespace Position

/-- The start of a text. -/
def start : Position := ⟨1, 0⟩

/-- The place after a character. -/
def after (p : Position) (c : Char) : Position :=
  if c = '\n' then ⟨p.line + 1, 0⟩ else ⟨p.line, p.column + c.utf8Size⟩

/-- The place after the first byte of a character. -/
def afterByte (p : Position) (c : Char) : Position :=
  if c = '\n' then ⟨p.line + 1, 0⟩ else ⟨p.line, p.column + 1⟩

/-- The place a number of bytes into a text, if it is that long. -/
def afterBytes : Nat → Position → List Char → Option Position
  | n, p, [] => if n = 0 then some p else none
  | n, p, c :: rest =>
    if n = 0 then some p
    else if c.utf8Size ≤ n then afterBytes (n - c.utf8Size) (p.after c) rest
    else some ⟨p.line, p.column + n⟩

/-- The place after a text. -/
def afterAll (p : Position) (text : List Char) : Position := text.foldl after p

end Position

/-- The ways in which a text breaks the notation, or what is expected of it. -/
inductive Fault where
  | endInList
  | endInObject
  | endInString
  | endInValue
  | expectedColon
  | expectedCommaOrBracket
  | expectedCommaOrBrace
  | expectedWord
  | expectedValue
  | invalidEscape
  | invalidNumber
  | numberOutOfRange
  | controlCharacter
  | keyNotString
  | loneSurrogate
  | escapePairCut
  | trailingComma
  | trailingCharacters
  | tooDeep
  | mismatch (m : Data.Mismatch)
  deriving DecidableEq, Repr

/-- A null is called so, and numbers have their compact layout. -/
def wording : Data.Wording := ⟨"null", .compact⟩

/-- The text that names a fault. -/
def Fault.message : Fault → String
  | endInList => "EOF while parsing a list"
  | endInObject => "EOF while parsing an object"
  | endInString => "EOF while parsing a string"
  | endInValue => "EOF while parsing a value"
  | expectedColon => "expected `:`"
  | expectedCommaOrBracket => "expected `,` or `]`"
  | expectedCommaOrBrace => "expected `,` or `\x7d`"
  | expectedWord => "expected ident"
  | expectedValue => "expected value"
  | invalidEscape => "invalid escape"
  | invalidNumber => "invalid number"
  | numberOutOfRange => "number out of range"
  | controlCharacter => "control character (\\u0000-\\u001F) found while parsing a string"
  | keyNotString => "key must be a string"
  | loneSurrogate => "lone leading surrogate in hex escape"
  | escapePairCut => "unexpected end of hex escape"
  | trailingComma => "trailing comma"
  | trailingCharacters => "trailing characters"
  | tooDeep => "recursion limit exceeded"
  | mismatch m => m.message wording

/-- A fault at a place. -/
structure Error where
  fault : Fault
  position : Position
  deriving DecidableEq, Repr

/-- The text that names the fault and its place. -/
def Error.message (e : Error) : String :=
  e.fault.message ++ " at line " ++ toString e.position.line ++
    " column " ++ toString e.position.column

end GraphFolding.Json
