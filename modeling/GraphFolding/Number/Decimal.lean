/-
Decimal numerals: `[sign] digits [. digits] [e [sign] digits]` with a digit on at least one
side of the point, and the words `inf`, `infinity` and `nan` in either case.

* `Decimal.ofString?` — the value of a numeral;
* `Decimal.toBinary` — its nearest number of a binary format.
-/
import GraphFolding.Number.Binary
namespace GraphFolding

/-- The value of a numeral; `plain` stands for `± digits · 10 ^ exponent`. -/
inductive Decimal where
  | plain (negative : Bool) (digits : Nat) (exponent : Int)
  | infinity (negative : Bool)
  | notANumber (negative : Bool)
  deriving DecidableEq, Repr

namespace Decimal

/-- Whether a character is a decimal digit. -/
def isDigit (c : Char) : Bool := '0' ≤ c && c ≤ '9'

/-- The value of a run of decimal digits. -/
def valueOf (figures : List Char) : Nat :=
  figures.foldl (fun n c => 10 * n + (c.toNat - '0'.toNat)) 0

/-- A sign, if there is one, and the rest. -/
def takeSign : List Char → Bool × List Char
  | '-' :: rest => (true, rest)
  | '+' :: rest => (false, rest)
  | text => (false, text)

/-- The power of ten at the end of a numeral; no text at all stands for 0. -/
def exponentOf? : List Char → Option Int
  | [] => some 0
  | c :: rest =>
    if c = 'e' || c = 'E' then
      let (negative, figures) := takeSign rest
      if figures.isEmpty || !figures.all isDigit then none
      else some (if negative then -(valueOf figures : Int) else valueOf figures)
    else none

/-- The value of an unsigned numeral made of digits. -/
def figuresOf? (negative : Bool) (text : List Char) : Option Decimal :=
  let whole := text.takeWhile isDigit
  let rest := text.dropWhile isDigit
  let (fraction, rest) :=
    match rest with
    | '.' :: more => (more.takeWhile isDigit, more.dropWhile isDigit)
    | _ => ([], rest)
  if whole.isEmpty && fraction.isEmpty then none
  else (exponentOf? rest).map fun e =>
    .plain negative (valueOf (whole ++ fraction)) (e - fraction.length)

/-- The value of a numeral. -/
def ofString? (text : String) : Option Decimal :=
  let (negative, rest) := takeSign text.toList
  let word := rest.map Char.toLower
  if word = "inf".toList || word = "infinity".toList then some (.infinity negative)
  else if word = "nan".toList then some (.notANumber negative)
  else figuresOf? negative rest

/-- The nearest number of a binary format. -/
def toBinary (f : Format) : Decimal → Binary
  | plain negative digits exponent => f.ofDecimal negative digits exponent
  | infinity negative => .infinite negative
  | notANumber negative => .nan negative

end Decimal
end GraphFolding
