/-
The shortest decimal text of a binary floating-point number.

* `Shortest.digits` — the fewest digits that read back as the same number, and of those
  the nearest to it;
* `NumberLayout.text` — the digits laid out with a point, or with a power of ten outside
  the range in which the layout is positional.
-/
import GraphFolding.Number.Binary
namespace GraphFolding

namespace Shortest

/-- A fraction as numerator and denominator. -/
abbrev Fraction := Nat × Nat

/-- `n · 2 ^ e` as a fraction. -/
def twos (n : Nat) (e : Int) : Fraction := Format.timesPowerOfTwo n 1 e

/-- `n · 10 ^ e` as a fraction. -/
def tens (n : Nat) (e : Int) : Fraction :=
  if 0 ≤ e then (n * Nat.pow 10 e.toNat, 1) else (n, Nat.pow 10 (-e).toNat)

/-- Whether the first fraction is less than the second. -/
def less (a b : Fraction) : Bool := a.1 * b.2 < b.1 * a.2

/-- The distance of two fractions. -/
def distance (a b : Fraction) : Fraction :=
  (a.1 * b.2 - b.1 * a.2 + (b.1 * a.2 - a.1 * b.2), a.2 * b.2)

/-- The power of ten at or below the positive number `significand · 2 ^ exponent`. -/
def floorLog10 (significand : Nat) (exponent : Int) : Int :=
  let value := twos significand exponent
  let guess := ((significand.log2 : Int) + exponent) * 30103 / 100000
  if less value (tens 1 guess) then guess - 1
  else if less value (tens 1 (guess + 1)) then guess
  else guess + 1

/-- The numbers that read back as a given one: an interval, with its ends if the
significand is even. -/
structure Interval where
  low : Fraction
  high : Fraction
  closed : Bool

/-- The interval around `significand · 2 ^ exponent`; below a power of two the neighbours
are twice as close. -/
def interval (f : Format) (significand : Nat) (exponent : Int) : Interval where
  low :=
    if significand = Nat.pow 2 (f.precision - 1) && f.leastExponent < exponent then
      twos (4 * significand - 1) (exponent - 2)
    else twos (4 * significand - 2) (exponent - 2)
  high := twos (4 * significand + 2) (exponent - 2)
  closed := significand % 2 = 0

/-- Whether a fraction lies in an interval. -/
def Interval.contains (i : Interval) (x : Fraction) : Bool :=
  if i.closed then !less x i.low && !less i.high x else less i.low x && less x i.high

/-- Of the two points of the grid `10 ^ e` next to a value, the nearer one that reads
back; at equal distance the even one. -/
def nearestOn (i : Interval) (value : Fraction) (e : Int) : Option Nat :=
  let unit := tens 1 e
  let below := value.1 * unit.2 / (value.2 * unit.1)
  let above := below + 1
  let reads (n : Nat) : Bool := i.contains (tens n e)
  match reads below, reads above with
  | false, false => none
  | true, false => some below
  | false, true => some above
  | true, true =>
    let down := distance value (tens below e)
    let up := distance (tens above e) value
    if less down up then some below
    else if less up down then some above
    else some (if below % 2 = 0 then below else above)

/-- The first grid with a point that reads back, from one digit on. -/
def search (i : Interval) (value : Fraction) : Nat → Int → Nat × Int
  | 0, e => (value.1 / value.2, e)
  | fuel + 1, e =>
    match nearestOn i value e with
    | some n => (n, e)
    | none => search i value fuel (e - 1)

/-- A number without its trailing zeros, and how many it had. -/
def stripZeros : Nat → Nat → Int → Nat × Int
  | 0, n, e => (n, e)
  | fuel + 1, n, e => if n ≠ 0 && n % 10 = 0 then stripZeros fuel (n / 10) (e + 1) else (n, e)

/-- The shortest decimal `digits · 10 ^ exponent` of a number that is not zero. -/
def digits (f : Format) (significand : Nat) (exponent : Int) : Nat × Int :=
  let i := interval f significand exponent
  let (n, e) := search i (twos significand exponent) 25 (floorLog10 significand exponent)
  stripZeros 25 n e

end Shortest

/-- How numbers are written: the places of the decimal point, counted from the first digit,
between which the positional form is used, as it always is without bounds; and whether a power
of ten that is not negative has a plus sign. -/
structure NumberLayout where
  leastPoint : Option Int
  greatestPoint : Option Int
  signedPower : Bool
  deriving DecidableEq, Repr

namespace NumberLayout

/-- Positional for every number. -/
def positional : NumberLayout := ⟨none, none, false⟩

/-- Positional from `0.00001` up to sixteen places before the point; powers of ten have a
sign. -/
def compact : NumberLayout := ⟨some (-4), some 16, true⟩

/-- Whether the layout writes a number with its point at this place positionally. -/
def isPositional (l : NumberLayout) (point : Int) : Bool :=
  l.leastPoint.all (· ≤ point) && l.greatestPoint.all (point ≤ ·)

/-- The text of a power of ten. -/
def powerText (l : NumberLayout) (power : Int) : String :=
  if l.signedPower && 0 ≤ power then "+" ++ toString power else toString power

/-- The text of a positive number with the given digits and exponent. -/
def layOut (l : NumberLayout) (digits : Nat) (exponent : Int) : String :=
  let figures := Nat.toDigits 10 digits
  let point : Int := figures.length + exponent
  let zeros (n : Int) : List Char := List.replicate n.toNat '0'
  if l.isPositional point then
    if 0 ≤ exponent then String.ofList (figures ++ zeros exponent ++ ['.', '0'])
    else if 0 < point then
      String.ofList (figures.take point.toNat ++ '.' :: figures.drop point.toNat)
    else String.ofList ('0' :: '.' :: (zeros (-point) ++ figures))
  else
    let power := "e" ++ l.powerText (point - 1)
    match figures with
    | [figure] => String.ofList [figure] ++ power
    | figure :: more => String.ofList (figure :: '.' :: more) ++ power
    | [] => power

/-- The text of a number of the 64-bit format. -/
def text (l : NumberLayout) : Binary → String
  | .finite negative significand exponent =>
    let sign := if negative then "-" else ""
    if significand = 0 then sign ++ "0.0"
    else
      let (digits, power) := Shortest.digits Format.double significand exponent
      sign ++ l.layOut digits power
  | .infinite negative => if negative then "-inf" else "inf"
  | .nan _ => "NaN"

end NumberLayout
end GraphFolding
