/-
Binary floating-point numbers as exact values: a sign, a significand and a power of two.

* `Format.round` — the nearest number of a format to a quotient of naturals, a half going
  to the even significand, and infinity beyond the largest number;
* `Format.encode` — the interchange bits of a number.

All arithmetic is on naturals and integers, so every result is exact by construction.
-/
namespace GraphFolding

/-- A binary format: the bits of its significand (the leading one included) and of its
exponent field. -/
structure Format where
  precision : Nat
  exponentBits : Nat
  deriving DecidableEq, Repr

/-- A floating-point number; `finite` stands for `± significand · 2 ^ exponent`. -/
inductive Binary where
  | finite (negative : Bool) (significand : Nat) (exponent : Int)
  | infinite (negative : Bool)
  | nan (negative : Bool)
  deriving DecidableEq, Repr

namespace Format

/-- The 32-bit format. -/
def single : Format := ⟨24, 8⟩

/-- The 64-bit format. -/
def double : Format := ⟨53, 11⟩

/-- The bias of the exponent field. -/
def bias (f : Format) : Nat := Nat.pow 2 (f.exponentBits - 1) - 1

/-- The least exponent of a significand. -/
def leastExponent (f : Format) : Int := 2 - (f.bias : Int) - f.precision

/-- The greatest exponent of a significand. -/
def greatestExponent (f : Format) : Int := (f.bias : Int) + 1 - f.precision

/-- The quotient rounded to the nearest natural, a half to the even one. -/
def roundQuotient (numerator denominator : Nat) : Nat :=
  let q := numerator / denominator
  let r := numerator % denominator
  if 2 * r < denominator then q
  else if denominator < 2 * r then q + 1
  else q + q % 2

/-- Numerator and denominator of a fraction times a power of two. -/
def timesPowerOfTwo (numerator denominator : Nat) (exponent : Int) : Nat × Nat :=
  if 0 ≤ exponent then (numerator * Nat.pow 2 exponent.toNat, denominator)
  else (numerator, denominator * Nat.pow 2 (-exponent).toNat)

/-- The power of two at or below a positive fraction. -/
def floorLog2 (numerator denominator : Nat) : Int :=
  let guess : Int := (numerator.log2 : Int) - denominator.log2
  let (n, d) := timesPowerOfTwo numerator denominator (-guess)
  if d ≤ n then guess else guess - 1

/-- The number of the format nearest to a fraction. -/
def round (f : Format) (negative : Bool) (numerator denominator : Nat) : Binary :=
  if numerator = 0 then .finite negative 0 f.leastExponent
  else
    let exponent := max f.leastExponent (floorLog2 numerator denominator + 1 - f.precision)
    let (n, d) := timesPowerOfTwo numerator denominator (-exponent)
    let significand := roundQuotient n d
    let (significand, exponent) :=
      if significand = Nat.pow 2 f.precision then (Nat.pow 2 (f.precision - 1), exponent + 1)
      else (significand, exponent)
    if f.greatestExponent < exponent then .infinite negative
    else .finite negative significand exponent

/-- The number of the format nearest to `± significand · 2 ^ exponent`. -/
def ofScaled (f : Format) (negative : Bool) (significand : Nat) (exponent : Int) : Binary :=
  let (n, d) := timesPowerOfTwo significand 1 exponent
  f.round negative n d

/-- The number of the format nearest to a natural. -/
def ofNat (f : Format) (n : Nat) : Binary := f.round false n 1

/-- The number of the format nearest to a power of ten. -/
def powerOfTen (f : Format) (n : Nat) : Binary := f.ofNat (Nat.pow 10 n)

/-- The number of the format nearest to `digits · 10 ^ exponent`.  Outside four hundred
decimal places every format here is at infinity or at zero already. -/
def ofDecimal (f : Format) (negative : Bool) (digits : Nat) (exponent : Int) : Binary :=
  let magnitude := exponent + (Nat.toDigits 10 digits).length
  if digits = 0 || magnitude < -400 then .finite negative 0 f.leastExponent
  else if 400 < magnitude then .infinite negative
  else if 0 ≤ exponent then f.round negative (digits * Nat.pow 10 exponent.toNat) 1
  else f.round negative digits (Nat.pow 10 (-exponent).toNat)

/-- The interchange bits of a number of the format. -/
def encode (f : Format) : Binary → Nat
  | .finite negative significand exponent =>
    let hidden := Nat.pow 2 (f.precision - 1)
    let magnitude :=
      if significand < hidden then significand
      else ((exponent - f.leastExponent).toNat + 1) * hidden + (significand - hidden)
    signed negative magnitude
  | .infinite negative => signed negative specialExponent
  | .nan negative => signed negative (specialExponent + Nat.pow 2 (f.precision - 2))
where
  specialExponent : Nat := (Nat.pow 2 f.exponentBits - 1) * Nat.pow 2 (f.precision - 1)
  signed (negative : Bool) (magnitude : Nat) : Nat :=
    if negative then Nat.pow 2 (f.precision - 1 + f.exponentBits) + magnitude else magnitude

end Format

namespace Binary

/-- Whether a number is a zero of either sign. -/
def isZero : Binary → Bool
  | finite _ 0 _ => true
  | _ => false

/-- Whether a number is neither infinite nor the absence of a number. -/
def isFinite : Binary → Bool
  | finite .. => true
  | _ => false

/-- Whether a number is greater than zero and finite. -/
def isPositiveFinite : Binary → Bool
  | finite false significand _ => significand ≠ 0
  | _ => false

/-- The number with its sign turned. -/
def negate : Binary → Binary
  | finite negative significand exponent => finite (!negative) significand exponent
  | infinite negative => infinite (!negative)
  | nan negative => nan (!negative)

/-- The nearest number of another format. -/
def convert (f : Format) : Binary → Binary
  | finite negative significand exponent => f.ofScaled negative significand exponent
  | x => x

/-- The product of two finite numbers, rounded to the format; a factor that is not finite
is the result. -/
def times (f : Format) : Binary → Binary → Binary
  | finite n₁ s₁ e₁, finite n₂ s₂ e₂ => f.ofScaled (n₁ != n₂) (s₁ * s₂) (e₁ + e₂)
  | finite .., y => y
  | x, _ => x

/-- The quotient of two finite numbers, rounded to the format; a dividend that is not
finite is the result. -/
def dividedBy (f : Format) : Binary → Binary → Binary
  | finite n₁ s₁ e₁, finite n₂ s₂ e₂ =>
    let (n, d) := Format.timesPowerOfTwo s₁ s₂ (e₁ - e₂)
    f.round (n₁ != n₂) n d
  | x, _ => x

/-- The least natural at or above a number, and at least `low`. -/
def ceilAtLeast (low : Nat) : Binary → Nat
  | finite false significand exponent =>
    let (n, d) := Format.timesPowerOfTwo significand 1 exponent
    max low ((n + d - 1) / d)
  | _ => low

end Binary
end GraphFolding
