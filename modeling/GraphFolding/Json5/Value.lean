/-
Values of JSON5 texts as they are written: numbers as their text, strings as pieces, so that
what they stand for is looked at only where it is wanted.

* `Literal`, `Piece` — strings and their pieces;
* `Value`, `Error` — values, and why they cannot be decoded;
* `Literal.decode` — the characters of a string, the two halves of a pair joined;
* `Value.decode` — the data value of a written one.
-/
import GraphFolding.Data.Value
import GraphFolding.Number.Decimal
namespace GraphFolding.Json5

/-- Whether a character is a digit of base 16. -/
def isHexDigit (c : Char) : Bool :=
  c.isDigit || ('a' ≤ c && c ≤ 'f') || ('A' ≤ c && c ≤ 'F')

/-- The value of a digit of base 16. -/
def hexValue (c : Char) : Nat :=
  if c.isDigit then c.toNat - '0'.toNat else c.toLower.toNat - 'a'.toNat + 10

/-- The value of some digits of base 16. -/
def hexNumber (figures : List Char) : Nat :=
  figures.foldl (fun n c => 16 * n + hexValue c) 0

/-- A piece of a string: a character, alone or after a backslash, or a code unit named by its
digits of base 16, which may be half of a pair. -/
inductive Piece where
  | plain (c : Char)
  | escaped (c : Char)
  | numbered (figures : List Char)
  deriving DecidableEq, Repr

/-- A string as it is written. -/
abbrev Literal := List Piece

/-- A value as it is written; of a string, a list or an object also the character is kept that
comes right after its opening mark. -/
inductive Value where
  | null
  | bool (b : Bool)
  | number (written : List Char)
  | text (next : Option Char) (written : Literal)
  | list (next : Option Char) (items : List Value)
  | object (next : Option Char) (members : List (Literal × Value))
  deriving Repr

/-- Why a text cannot be decoded. -/
inductive Error where
  /-- The text breaks the notation. -/
  | malformed
  | invalidNumber
  | numberTooLarge
  | invalidInteger
  | invalidHexadecimal
  /-- A trailing surrogate where a character begins. -/
  | strayTrail
  /-- The end of a string after a leading surrogate. -/
  | missingTrail
  /-- Another code unit after a leading surrogate. -/
  | wrongTrail
  /-- A fault: the mark of a base was looked for in two bytes that end within a character. -/
  | cutCharacter
  | mismatch (m : Data.Mismatch)
  deriving DecidableEq, Repr

/-- A null is called a unit value, and numbers are always positional. -/
def wording : Data.Wording := ⟨"unit value", .positional⟩

/-- The text that says why a text cannot be decoded; a fault has none. -/
def Error.message? : Error → Option String
  | malformed => some "<json5 syntax>"
  | invalidNumber => some "error parsing number"
  | numberTooLarge => some "error parsing number: too large"
  | invalidInteger => some "error parsing integer"
  | invalidHexadecimal => some "error parsing hex"
  | strayTrail => some "unexpected unicode trail surrogate"
  | missingTrail => some "missing unicode trail surrogate"
  | wrongTrail => some "expecting unicode trail surrogate"
  | cutCharacter => none
  | mismatch m => some (m.message wording)

/-- The characters that a letter or a zero after a backslash stands for. -/
def letterEscapes : List (Char × Char) :=
  [('b', '\x08'), ('f', '\x0c'), ('n', '\n'), ('r', '\r'), ('t', '\t'), ('v', '\x0b'),
    ('0', '\x00')]

namespace Piece

/-- The number of the character or of the code unit that a piece stands for. -/
def code : Piece → Nat
  | plain c => c.toNat
  | escaped c => ((letterEscapes.lookup c).getD c).toNat
  | numbered figures => hexNumber figures

/-- A piece as it is written, without a backslash and the letter that announces digits. -/
def written : Piece → List Char
  | plain c => [c]
  | escaped c => [c]
  | numbered figures => figures

/-- What is written as a piece, read as a number of base 16. -/
def asHexadecimal (p : Piece) : Except Error Nat :=
  if p.written.all isHexDigit then .ok (hexNumber p.written) else .error .invalidHexadecimal

end Piece

/-- Whether a code unit is the first of a pair. -/
def isLeading (n : Nat) : Bool := 0xd800 ≤ n && n < 0xdc00

/-- Whether a code unit is the second of a pair. -/
def isTrailing (n : Nat) : Bool := 0xdc00 ≤ n && n < 0xe000

/-- The character of a pair: the bits of the first unit, from the tenth place on, joined to
those of 65536 and the second unit; a bit that both have counts once. -/
def joinPair (leading trailing : Nat) : Char :=
  Char.ofNat (((leading - 0xd800) <<< 10) ||| (trailing - 0xdc00 + 0x10000))

/-- The characters of a string, the two halves of a pair joined. -/
def Literal.decode : Literal → Except Error (List Char)
  | [] => .ok []
  | piece :: rest =>
    if isTrailing piece.code then .error .strayTrail
    else if isLeading piece.code then
      match rest with
      | [] => .error .missingTrail
      | next :: rest => do
        let n ← next.asHexadecimal
        if isTrailing n then return joinPair piece.code n :: (← decode rest)
        else throw .wrongTrail
    else do return Char.ofNat piece.code :: (← decode rest)

/-- A string from the way it is written. -/
def Literal.text (written : Literal) : Except Error String := do
  return String.ofList (← written.decode)

namespace Numeral

/-- Whether a number is written with base 16. -/
def isHexadecimal : List Char → Bool
  | '0' :: 'x' :: _ :: _ => true
  | '0' :: 'X' :: _ :: _ => true
  | _ => false

/-- The value of a number with base 16, which has to fit 32 bits. -/
def hexadecimal (figures : List Char) : Except Error Nat :=
  let n := hexNumber figures
  if n < Nat.pow 2 32 then .ok n else .error .invalidHexadecimal

/-- The words for numbers without digits. -/
def words : List (List Char) :=
  ["Infinity".toList, "-Infinity".toList, "NaN".toList, "-NaN".toList]

/-- Whether a number is written as an integer. -/
def isInteger (written : List Char) : Bool :=
  !written.contains '.' &&
    (isHexadecimal written || !(written.contains 'e' || written.contains 'E')) &&
    !(words.contains written)

/-- The value of an integer, which has to fit 64 bits with a sign. -/
def integer (written : List Char) : Except Error Data.Numeral :=
  if isHexadecimal written then do return .natural (← hexadecimal (written.drop 2))
  else
    let (negative, figures) := Decimal.takeSign written
    let n := Decimal.valueOf figures
    if figures.isEmpty || !figures.all Decimal.isDigit then .error .invalidInteger
    else if negative && 0 < n then
      if n ≤ Nat.pow 2 63 then .ok (.negative n) else .error .invalidInteger
    else if n < Nat.pow 2 63 then .ok (.natural n)
    else .error .invalidInteger

/-- The nearest 64-bit number to a text, if it is a number. -/
def real (written : List Char) : Except Error Binary :=
  if written = "Infinity".toList then .ok (.infinite false)
  else if written = "-Infinity".toList then .ok (.infinite true)
  else if written = "NaN".toList || written = "-NaN".toList then .ok (.nan false)
  else if isHexadecimal written then do
    return Format.double.ofNat (← hexadecimal (written.drop 2))
  else
    match Decimal.ofString? (String.ofList written) with
    | none => .error .invalidNumber
    | some d =>
      let x := d.toBinary .double
      if x.isFinite then .ok x else .error .numberTooLarge

/-- The value of a number. -/
def decode (written : List Char) : Except Error Data.Numeral :=
  if isInteger written then integer written else do return .real (← real written)

end Numeral

mutual

/-- The data value of a written one. -/
def Value.decode : Value → Except Error Data.Value
  | .null => .ok .null
  | .bool b => .ok (.bool b)
  | .number written => do return .number (← Numeral.decode written)
  | .text _ written => do return .text (← written.text)
  | .list _ items => do return .list (← decodeItems items)
  | .object _ members => do return .object (← decodeMembers members)

/-- The data values of several written ones. -/
def decodeItems : List Value → Except Error (List Data.Value)
  | [] => .ok []
  | item :: rest => do
    let item ← item.decode
    return item :: (← decodeItems rest)

/-- The members of an object, keys and values in turn. -/
def decodeMembers : List (Literal × Value) → Except Error (List (String × Data.Value))
  | [] => .ok []
  | (key, value) :: rest => do
    let key ← key.text
    let value ← value.decode
    return (key, value) :: (← decodeMembers rest)

end

/-- The kind of a value, with the value itself if it is a simple one. -/
def Value.found : Value → Except Error Data.Found
  | .list .. => .ok .list
  | .object .. => .ok .object
  | value => do return (← value.decode).found

end GraphFolding.Json5
