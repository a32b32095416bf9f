/-
Colours written as a hash sign and three channels of two characters.

* `Colour.takeChannel` — one channel off the front of a text;
* `Colour.ofString` — the colour that a text stands for, if it does.

A channel is two digits of base 16, or a plus sign and one digit.  The channels are cut by
bytes: six bytes have to follow the hash sign, and a cut inside a character is a fault.
-/
namespace GraphFolding

/-- A colour without transparency. -/
structure Colour where
  red : UInt8
  green : UInt8
  blue : UInt8
  deriving DecidableEq, Repr

/-- A channel would end inside a character. -/
inductive ColourFault where
  | cutCharacter
  deriving DecidableEq, Repr

namespace Colour

/-- The digits of base 16 in order. -/
def digits : List Char := "0123456789abcdef".toList

/-- The value of a digit of base 16 in either case. -/
def digit? (c : Char) : Option Nat := digits.idxOf? c.toLower

/-- The value of a channel. -/
def channel? (first second : Char) : Option UInt8 :=
  if first = '+' then (digit? second).map UInt8.ofNat
  else do return UInt8.ofNat (16 * (← digit? first) + (← digit? second))

/-- A channel off the front of a text, and the rest. -/
def takeChannel : List Char → Except ColourFault (Option (UInt8 × List Char))
  | [] => .ok none
  | first :: rest =>
    if first.utf8Size = 2 then .ok none
    else if first.utf8Size ≠ 1 then .error .cutCharacter
    else match rest with
      | [] => .ok none
      | second :: rest =>
        if second.utf8Size ≠ 1 then .error .cutCharacter
        else .ok ((channel? first second).map (·, rest))

/-- The channels of a text, one after the other; after one that is none no other is cut. -/
def takeChannels : Nat → List Char → Except ColourFault (Option (List UInt8))
  | 0, _ => .ok (some [])
  | n + 1, text => do
    match ← takeChannel text with
    | none => return none
    | some (channel, rest) => return (← takeChannels n rest).map (channel :: ·)

/-- The colour that a text stands for. -/
def ofString (text : String) : Except ColourFault (Option Colour) :=
  match text.toList with
  | '#' :: rest =>
    if (String.ofList rest).utf8ByteSize ≠ 6 then .ok none
    else do
      match ← takeChannels 3 rest with
      | some [red, green, blue] => return some ⟨red, green, blue⟩
      | _ => return none
  | _ => .ok none

end Colour
end GraphFolding
