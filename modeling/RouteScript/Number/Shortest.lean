import RouteScript.Number.Binary64
/-!
# Numbers in the fewest digits

A number is written in the fewest decimal digits that read back as it, and of the texts of that
length in the one nearest to it; where two are equally near, in the one farther from zero.
-/
namespace RouteScript.Binary64

/-- Whether the numbers below the value lie half as far apart as those above it. -/
def isNarrow (mantissa : Nat) (exponent : Int) : Bool :=
  mantissa = leadingBit && leastExponent < exponent

/-- The point of the grid of step `10 ^ grid` that lies nearest to a positive value, if it reads
back as that value. All is counted in quarters of the distance to the next number. -/
def gridPoint? (mantissa : Nat) (exponent : Int) (grid : Int) : Option Nat :=
  let (num, den) := shifted 1 1 (exponent - 2)
  let (n, d) := scaled num den (-grid)
  let value := 4 * mantissa * n
  let low := (4 * mantissa - if isNarrow mantissa exponent then 1 else 2) * n
  let high := (4 * mantissa + 2) * n
  let even : Bool := mantissa % 2 = 0
  let reads (point : Nat) : Bool :=
    if even then low ≤ point * d && point * d ≤ high else low < point * d && point * d < high
  let below := value / d
  let above := below + 1
  match reads below, reads above with
  | true, true => some (if value - below * d < above * d - value then below else above)
  | true, false => some below
  | false, true => some above
  | false, false => none

/-- The coarsest decimal grid, from `10 ^ top` on down, with a point that reads back as the value:
that point, counted in steps, and the grid. -/
def shortestFrom (mantissa : Nat) (exponent : Int) : Nat → Int → Nat × Int
  | 0, grid => (0, grid)
  | steps + 1, grid =>
    match gridPoint? mantissa exponent grid with
    | some point => (point, grid)
    | none => shortestFrom mantissa exponent steps (grid - 1)

/-- The digits of a positive value, as few as read back as it, and the power of ten of the last of
them. -/
def shortest (mantissa : Nat) (exponent : Int) : Nat × Int :=
  shortestFrom mantissa exponent 700 309

/-- Digits times a power of ten without an exponent, with at least one digit on both sides of the
point. -/
def positional (digits : Nat) (power : Int) : String :=
  let text := (toString digits).toList
  if 0 ≤ power then
    String.ofList (text ++ List.replicate power.toNat '0') ++ ".0"
  else
    let places := (-power).toNat
    let padded := List.replicate (places + 1 - text.length) '0' ++ text
    let whole := padded.length - places
    String.ofList (padded.take whole ++ '.' :: padded.drop whole)

/-- The number in the fewest digits that read back as it, always with a point. -/
def display : Binary64 → String
  | .finite negative mantissa exponent =>
    (if negative then "-" else "") ++
      if mantissa = 0 then "0.0"
      else
        let (digits, power) := shortest mantissa exponent
        positional digits power
  | .infinite negative => if negative then "-inf" else "inf"
  | .notANumber => "NaN"

end RouteScript.Binary64
