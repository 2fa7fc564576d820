/-!
# Numbers of 64 bits

A word holds an integer between two bounds, with a sign or without.

A binary floating point number is taken apart: it is a sign and a product of an integer and a power
of two, or it is infinite or no number at all. All that is asked of it is answered on the two
factors, in exact integer arithmetic.
-/
namespace RouteScript

namespace Word64

/-- The greatest integer with a sign, one less than the 63rd power of two. -/
def signedMax : Nat := 0x7FFFFFFFFFFFFFFF

/-- The greatest integer without a sign, one less than the 64th power of two. -/
def unsignedMax : Nat := 0xFFFFFFFFFFFFFFFF

/-- Whether a word with a sign can hold the integer. -/
def fitsSigned (n : Int) : Bool := -(signedMax : Int) - 1 ≤ n && n ≤ signedMax

end Word64

/-- The value of a floating point number. -/
inductive Binary64 where
  /-- `mantissa * 2 ^ exponent`. The mantissa has at most 53 bits, and fewer only where the exponent
  is the least one. -/
  | finite (negative : Bool) (mantissa : Nat) (exponent : Int)
  | infinite (negative : Bool)
  | notANumber
  deriving DecidableEq

namespace Binary64

/-- The least mantissa of 53 bits, the 52nd power of two. -/
def leadingBit : Nat := 0x10000000000000

/-- The exponent of the numbers next to zero. -/
def leastExponent : Int := -1074

/-- The exponent of the greatest numbers. -/
def greatestExponent : Int := 971

/-- The value that 64 bits stand for: a sign, eleven bits of exponent, 52 of mantissa. -/
def ofBits (bits : Nat) : Binary64 :=
  let negative : Bool := (bits >>> 63) % 2 = 1
  let exponent : Nat := (bits >>> 52) % 2048
  let fraction : Nat := bits % leadingBit
  if exponent = 2047 then
    if fraction = 0 then .infinite negative else .notANumber
  else if exponent = 0 then .finite negative fraction leastExponent
  else .finite negative (fraction + leadingBit) ((exponent : Int) - 1 + leastExponent)

/-- Whether the value is a zero of either sign. -/
def isZero : Binary64 → Bool
  | .finite _ mantissa _ => mantissa = 0
  | _ => false

/-- The nearest natural number, half a unit rounded up, and `limit` for anything greater. Negative
values and what is no number count as zero. -/
def toNat (limit : Nat) : Binary64 → Nat
  | .finite false mantissa exponent =>
    let rounded :=
      if 0 ≤ exponent then mantissa <<< exponent.toNat
      else (2 * mantissa + (1 <<< (-exponent).toNat)) >>> ((-exponent).toNat + 1)
    min rounded limit
  | .infinite false => limit
  | _ => 0

/-! ## The nearest number -/

/-- A fraction times a power of two. -/
def shifted (num den : Nat) (power : Int) : Nat × Nat :=
  if 0 ≤ power then (num <<< power.toNat, den) else (num, den <<< (-power).toNat)

/-- A fraction times a power of ten. -/
def scaled (num den : Nat) (power : Int) : Nat × Nat :=
  if 0 ≤ power then (num * Nat.pow 10 power.toNat, den)
  else (num, den * Nat.pow 10 (-power).toNat)

/-- The integer that a fraction is nearest to, of two the even one. -/
def roundToEven (num den : Nat) : Nat :=
  let below := num / den
  let rest := 2 * (num % den)
  if rest < den ∨ (rest = den ∧ below % 2 = 0) then below else below + 1

/-- The greatest power of two that a positive fraction is not less than. -/
def binaryLog (num den : Nat) : Int :=
  let guess : Int := (num.log2 : Int) - den.log2
  let (n, d) := shifted num den (-guess)
  if n < d then guess - 1 else guess

/-- The number that a fraction is nearest to, of two the one with an even mantissa. -/
def ofFraction (negative : Bool) (num den : Nat) : Binary64 :=
  if num = 0 then .finite negative 0 leastExponent
  else
    let exponent := max (binaryLog num den - 52) leastExponent
    let (n, d) := shifted num den (-exponent)
    let mantissa := roundToEven n d
    let (mantissa, exponent) :=
      if mantissa = 2 * leadingBit then (leadingBit, exponent + 1) else (mantissa, exponent)
    if greatestExponent < exponent then .infinite negative else .finite negative mantissa exponent

/-- The number that decimal digits times a power of ten are nearest to. What has 400 places or more
before the point is infinite, and what starts 400 places or more behind it is zero. -/
def ofDecimal (negative : Bool) (digits : Nat) (power : Int) : Binary64 :=
  let size : Int := (toString digits).length
  if digits = 0 ∨ size + power < -400 then .finite negative 0 leastExponent
  else if 400 < size + power then .infinite negative
  else
    let (n, d) := scaled digits 1 power
    ofFraction negative n d

end Binary64
end RouteScript
