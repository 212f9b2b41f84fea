import Prebuilt.Decimal.Double
/-!
The shortest decimal that reads back as a given number, and its text. On the grid of decimals with `n` digits only the
two neighbours of the number are tried: if any point of the grid reads back, so does one of them.
-/
set_option autoImplicit false

namespace Prebuilt

namespace Double

/-- How many decimal digits the whole number has. -/
def decimalLength (n : Nat) : Nat := (Nat.toDigits 10 n).length

/-- The greatest `k` with `10 ^ k` at most the quotient of two positive numbers. -/
def decimalOrder (num den : Nat) : Int :=
  let guess : Int := (decimalLength num : Int) - decimalLength den
  if num * power 10 (-guess) < den * power 10 guess then guess - 1 else guess

/-- The reals that round to a number, all in one unit: below, the number itself and above, with the divisor of the
unit. Both ends belong to it if and only if the mantissa is even. -/
structure Interval where
  low : Nat
  value : Nat
  high : Nat
  den : Nat
  closed : Bool

def interval (mantissa : Nat) (exponent : Int) : Interval :=
  let below := if mantissa = leastFull ∧ -1074 < exponent then 1 else 2
  let unit := power 2 (exponent - 2)
  { low := (4 * mantissa - below) * unit
    value := 4 * mantissa * unit
    high := (4 * mantissa + 2) * unit
    den := power 2 (2 - exponent)
    closed := mantissa % 2 = 0 }

/-- Whether `digits * 10 ^ exponent` rounds to the number. -/
def Interval.holds (i : Interval) (digits : Nat) (exponent : Int) : Bool :=
  let num := digits * power 10 exponent * i.den
  let scale := power 10 (-exponent)
  if i.closed then i.low * scale ≤ num && num ≤ i.high * scale
  else i.low * scale < num && num < i.high * scale

/-- The nearer one of the two neighbours on the grid of the exponent that reads back, a tie going to the even one. -/
def Interval.onGrid (i : Interval) (exponent : Int) : Option Nat :=
  let num := i.value * power 10 (-exponent)
  let den := i.den * power 10 exponent
  let lower := num / den
  match i.holds lower exponent, i.holds (lower + 1) exponent with
  | true, true => some (roundDiv num den)
  | true, false => some lower
  | false, true => some (lower + 1)
  | false, false => none

/-- Digits and exponent of the shortest decimal of a positive number. -/
def shortest (mantissa : Nat) (exponent : Int) : Nat × Int :=
  let i := interval mantissa exponent
  let order := decimalOrder i.value i.den
  let grids : List Int := (List.range 17).map fun (n : Nat) => order - n
  (grids.findSome? fun e => (i.onGrid e).map (·, e)).getD (0, 0)

/-- The digits without closing zeros, each zero moved to the exponent. -/
def trimZeros : Nat → Nat → Int → Nat × Int
  | 0, digits, exponent => (digits, exponent)
  | fuel + 1, digits, exponent =>
    if digits % 10 = 0 then trimZeros fuel (digits / 10) (exponent + 1) else (digits, exponent)

end Double

/-- How the digits of a number are laid out. -/
structure NumberStyle where
  /-- Orders of magnitude from here on are written with an exponent, -/
  large : Int
  /-- and so are those below this one. -/
  small : Int
  /-- Least count of digits in the exponent. -/
  exponentWidth : Nat
  /-- Whether a whole number ends in `.0`. -/
  wholePart : Bool

/-- A number of seconds: positional from 0.0001 up to sixteen digits before the point. -/
def NumberStyle.seconds : NumberStyle := ⟨16, -4, 2, true⟩

namespace Double

def layout (style : NumberStyle) (digits : Nat) (exponent : Int) : Text :=
  let ds := Nat.toDigits 10 digits
  let order : Int := ds.length + exponent - 1
  if style.large ≤ order ∨ order < style.small then
    let fraction := match ds.drop 1 with
      | [] => []
      | more => '.' :: more
    let width := Text.ofDigits 10 style.exponentWidth order.natAbs
    Text.ofChars (ds.take 1 ++ fraction) ++ (if order < 0 then "e-" else "e+") ++ width
  else if order < 0 then
    Text.ofChars ('0' :: '.' :: (List.replicate (-order - 1).toNat '0' ++ ds))
  else
    let whole := order.toNat + 1
    let front := ds.take whole ++ List.replicate (whole - ds.length) '0'
    match ds.drop whole with
    | [] => Text.ofChars (front ++ if style.wholePart then ['.', '0'] else [])
    | more => Text.ofChars (front ++ '.' :: more)

def render (style : NumberStyle) : Double → Text
  | .nan => "nan"
  | .infinite negative => if negative then "-inf" else "inf"
  | .finite negative mantissa exponent =>
    let sign : Text := if negative then "-" else ""
    if mantissa = 0 then sign ++ layout style 0 0
    else
      let (digits, e) := shortest mantissa exponent
      let (digits, e) := trimZeros 20 digits e
      sign ++ layout style digits e

end Double

end Prebuilt
