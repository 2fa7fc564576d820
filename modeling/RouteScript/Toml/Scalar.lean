import RouteScript.Number.Binary64
import RouteScript.Settings.Value
import RouteScript.Toml.Moment
import RouteScript.Toml.Quotation
/-!
# Numbers and words of TOML

Integers in four bases, floats, truth values and moments, all of which end where a character
follows that none of them holds. Moments are kept as texts.
-/
namespace RouteScript.Toml

/-- A character of a number or of a word that is a value. -/
def inWord (c : Char) : Bool := c.isAlphanum || c = '_' || c = '+' || c = '-' || c = '.'

/-- Digits with single underscores between them, at least one. -/
def digits? (isDigit : Char → Bool) (cs : List Char) : Option (List Char) :=
  match cs with
  | [] => none
  | c :: rest => if isDigit c then go rest else none
where
  /-- What may follow a digit. -/
  go : List Char → Option (List Char)
    | [] => some (cs.filter (· ≠ '_'))
    | c :: rest =>
      if isDigit c then go rest
      else if c = '_' then
        match rest with
        | [] => none
        | d :: _ => if isDigit d then go rest else none
      else none

/-- The number that digits write in some base. -/
def digitsValue (base : Nat) (digits : List Char) : Nat :=
  digits.foldl (fun n c => base * n + (hexValue? c).getD 0) 0

/-- Decimal digits without a leading zero. -/
def decimal? (cs : List Char) : Option Nat :=
  (digits? Char.isDigit cs).bind fun ds =>
    if ds.head? = some '0' ∧ cs ≠ ['0'] then none else some (digitsValue 10 ds)

/-- The sign of a number, whether it is negative, and what follows it. -/
def sign : List Char → Bool × List Char
  | '-' :: cs => (true, cs)
  | '+' :: cs => (false, cs)
  | cs => (false, cs)

/-- An integer that fits in a word: decimal with a sign, or in another base without one. -/
def integer? (cs : List Char) : Option Int :=
  let based (base : Nat) (isDigit : Char → Bool) (ds : List Char) :=
    (digits? isDigit ds).map fun ds => (digitsValue base ds : Int)
  let n := match cs with
    | '0' :: 'x' :: ds => based 16 (fun c => (hexValue? c).isSome) ds
    | '0' :: 'o' :: ds => based 8 (fun c => '0' ≤ c && c ≤ '7') ds
    | '0' :: 'b' :: ds => based 2 (fun c => c = '0' || c = '1') ds
    | _ =>
      let (negative, ds) := sign cs
      (decimal? ds).map fun n => if negative then -(n : Int) else n
  n.filter Word64.fitsSigned

/-- The power of ten that the rest of a float gives, after its mark. -/
def exponent? (cs : List Char) : Option Int :=
  let (negative, ds) := sign cs
  (digits? Char.isDigit ds).map fun ds =>
    if negative then -(digitsValue 10 ds : Int) else digitsValue 10 ds

/-- A float: decimal digits, and after them a fraction, an exponent or both. One that is too great
is refused; one that is too far below zero is not. -/
def float? (cs : List Char) : Option Binary64 :=
  let (negative, cs) := sign cs
  if cs = ['i', 'n', 'f'] then some (.infinite negative)
  else if cs = ['n', 'a', 'n'] then some .notANumber
  else
    let mark := fun c : Char => c = 'e' || c = 'E'
    let mantissa := cs.takeWhile fun c => !mark c
    let whole := mantissa.takeWhile (· ≠ '.')
    let fraction := mantissa.drop whole.length
    let tail := cs.drop mantissa.length
    if fraction.isEmpty ∧ tail.isEmpty then none
    else do
      let n ← decimal? whole
      let places ← if fraction.isEmpty then some [] else digits? Char.isDigit (fraction.drop 1)
      let power ← if tail.isEmpty then some 0 else exponent? (tail.drop 1)
      let x := Binary64.ofDecimal negative
        (n * Nat.pow 10 places.length + digitsValue 10 places) (power - places.length)
      if x = .infinite false then none else some x

/-- The value that a word stands for. -/
def word? (cs : List Char) : Option Value :=
  if cs = ['t', 'r', 'u', 'e'] then some (.boolean true)
  else if cs = ['f', 'a', 'l', 's', 'e'] then some (.boolean false)
  else match integer? cs with
    | some n => some (.integer n)
    | none => (float? cs).map .float

/-- A value that is made of no others. -/
def scalar? (cs : List Char) : Option (Value × List Char) :=
  match string? cs with
  | some (s, rest) => some (.string s, rest)
  | none =>
    match moment? cs with
    | some (m, rest) => some (.string m.display, rest)
    | none =>
      let word := cs.takeWhile inWord
      (word? word).map fun v => (v, cs.drop word.length)

end RouteScript.Toml
