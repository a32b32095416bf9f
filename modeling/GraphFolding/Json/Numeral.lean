/-
Numbers of JSON texts.

* `scaled?` — a significand times a power of ten as a 64-bit number: both are rounded
  first, and powers beyond 10 ^ 308 are taken in steps;
* `Cursor.numeral` — the value of a number;
* `Cursor.skipNumeral` — past a number whose value is not wanted, where size does not
  matter.

The digits of a significand count as long as it fits 64 bits; later ones only shift it.
Both readers begin after the sign.
-/
import GraphFolding.Json.Cursor
namespace GraphFolding.Json

/-- The greatest significand. -/
def maxSignificand : Nat := Nat.pow 2 64 - 1

/-- The greatest exponent as it is written. -/
def maxExponent : Nat := Nat.pow 2 31 - 1

/-- A number times a power of ten, in steps of 10 ^ 308; none if it is too large. -/
def scaled? (x : Binary) (exponent : Int) : Option Binary :=
  if exponent < -308 then
    if x.isZero then some x
    else scaled? (x.dividedBy .double (Format.double.powerOfTen 308)) (exponent + 308)
  else if exponent < 0 then
    some (x.dividedBy .double (Format.double.powerOfTen (-exponent).toNat))
  else if exponent ≤ 308 then
    match x.times .double (Format.double.powerOfTen exponent.toNat) with
    | .infinite _ => none
    | y => some y
  else if x.isZero then some x
  else none
termination_by (-exponent).toNat
decreasing_by omega

namespace Cursor

/-- The significand with the digits that come next, while it fits, and how many they are. -/
def gather : Nat → Nat → Position → List Char → Nat × Nat × Cursor
  | significand, count, position, [] => (significand, count, ⟨position, []⟩)
  | significand, count, position, c :: rest =>
    let grown := significand * 10 + (c.toNat - '0'.toNat)
    if isDigit c && grown ≤ maxSignificand then
      gather grown (count + 1) (position.after c) rest
    else (significand, count, ⟨position, c :: rest⟩)

/-- Whether a digit comes next. -/
def startsDigit (k : Cursor) : Bool :=
  match k.rest with
  | c :: _ => isDigit c
  | [] => false

/-- Whether the mark of an exponent comes next. -/
def startsExponent (k : Cursor) : Bool :=
  match k.rest with
  | c :: _ => c = 'e' || c = 'E'
  | [] => false

/-- A floating-point number from its parts, all of it having been read. -/
def finishReal (k : Cursor) (negative : Bool) (significand : Nat) (exponent : Int) :
    Except Error (Data.Numeral × Cursor) :=
  match scaled? (Format.double.ofNat significand) exponent with
  | some x => .ok (.real (if negative then x.negate else x), k)
  | none => k.failHere .numberOutOfRange

/-- The digits of an exponent, or the cursor behind the digit that makes it too large. -/
def exponentDigits : Nat → Position → List Char → Except Cursor (Nat × Cursor)
  | exponent, position, [] => .ok (exponent, ⟨position, []⟩)
  | exponent, position, c :: rest =>
    if isDigit c then
      let grown := exponent * 10 + (c.toNat - '0'.toNat)
      if maxExponent < grown then .error ⟨position.after c, rest⟩
      else exponentDigits grown (position.after c) rest
    else .ok (exponent, ⟨position, c :: rest⟩)

/-- A sign, if one comes next. -/
def sign (k : Cursor) : Bool × Cursor :=
  match k.rest with
  | '+' :: _ => (false, k.advance)
  | '-' :: _ => (true, k.advance)
  | _ => (false, k)

/-- The exponent of a number, the cursor standing at its mark. -/
def exponentPart (k : Cursor) (negative : Bool) (significand : Nat) (shift : Int) :
    Except Error (Data.Numeral × Cursor) :=
  let (negativeExponent, k) := k.advance.sign
  match k.rest with
  | [] => k.failHere .endInValue
  | c :: _ =>
    if !isDigit c then k.failNext .invalidNumber
    else match exponentDigits 0 k.position k.rest with
      | .ok (exponent, k) =>
        k.finishReal negative significand
          (if negativeExponent then shift - exponent else shift + exponent)
      | .error k =>
        if significand ≠ 0 && !negativeExponent then k.failHere .numberOutOfRange
        else k.skipDigits.finishReal negative 0 0

/-- The digits after the point, the cursor standing at the point. -/
def fractionPart (k : Cursor) (negative : Bool) (significand : Nat) (shift : Int) :
    Except Error (Data.Numeral × Cursor) :=
  let k := k.advance
  let (significand, count, k) := gather significand 0 k.position k.rest
  if count = 0 && !k.startsDigit then
    if k.rest.isEmpty then k.failNext .endInValue else k.failNext .invalidNumber
  else
    let k := k.skipDigits
    if k.startsExponent then k.exponentPart negative significand (shift - count)
    else k.finishReal negative significand (shift - count)

/-- An integer; zero with a sign, and what fits no 64-bit integer, is floating-point. -/
def finishInteger (k : Cursor) (negative : Bool) (significand : Nat) :
    Data.Numeral × Cursor :=
  if !negative then (.natural significand, k)
  else if significand = 0 || Nat.pow 2 63 < significand then
    (.real (Format.double.ofNat significand).negate, k)
  else (.negative significand, k)

/-- What follows the digits before the point, `shift` of which did not fit. -/
def numeralTail (k : Cursor) (negative : Bool) (significand shift : Nat) :
    Except Error (Data.Numeral × Cursor) :=
  match k.rest with
  | '.' :: _ => k.fractionPart negative significand shift
  | _ =>
    if k.startsExponent then k.exponentPart negative significand shift
    else if shift = 0 then .ok (k.finishInteger negative significand)
    else k.finishReal negative significand shift

/-- The value of a number, the cursor standing after its sign. -/
def numeral (k : Cursor) (negative : Bool) : Except Error (Data.Numeral × Cursor) :=
  match k.rest with
  | [] => k.failHere .endInValue
  | '0' :: _ =>
    if k.advance.startsDigit then k.advance.failNext .invalidNumber
    else k.advance.numeralTail negative 0 0
  | c :: _ =>
    if !isDigit c then k.failNext .invalidNumber
    else
      let (significand, _, next) := gather 0 0 k.position k.rest
      let last := next.skipDigits
      last.numeralTail negative significand (next.rest.length - last.rest.length)

/-- Past an exponent, the cursor standing at its mark. -/
def skipExponent (k : Cursor) : Except Error Cursor :=
  let (_, k) := k.advance.sign
  match k.rest with
  | c :: _ => if isDigit c then .ok k.skipDigits else k.failNext .invalidNumber
  | [] => k.failHere .invalidNumber

/-- Past what may follow the digits before the point. -/
def skipNumeralTail (k : Cursor) : Except Error Cursor :=
  match k.rest with
  | '.' :: _ =>
    let next := k.advance.skipDigits
    if !k.advance.startsDigit then next.failNext .invalidNumber
    else if next.startsExponent then next.skipExponent
    else .ok next
  | _ => if k.startsExponent then k.skipExponent else .ok k

/-- Past a number, the cursor standing after its sign. -/
def skipNumeral (k : Cursor) : Except Error Cursor :=
  match k.rest with
  | [] => k.failHere .invalidNumber
  | '0' :: _ =>
    if k.advance.startsDigit then k.advance.failNext .invalidNumber
    else k.advance.skipNumeralTail
  | c :: _ => if isDigit c then k.skipDigits.skipNumeralTail else k.failNext .invalidNumber

end Cursor
end GraphFolding.Json
