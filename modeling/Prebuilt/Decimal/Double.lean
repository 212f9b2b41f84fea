import Prebuilt.Text.Basic
/-!
Binary floating point numbers of 64 bits as mathematical values: a sign and `mantissa * 2 ^ exponent`. A decimal is read
by rounding its exact value to the nearest number, a tie to the even mantissa.
-/
set_option autoImplicit false

namespace Prebuilt

inductive Double where
  | nan
  | infinite (negative : Bool)
  /-- The mantissa is below `2 ^ 53`, and below `2 ^ 52` only at the least exponent, -1074. -/
  | finite (negative : Bool) (mantissa : Nat) (exponent : Int)
  deriving DecidableEq, Repr

/-- The whole number nearest to a quotient, a tie going to the even one. -/
def roundDiv (num den : Nat) : Nat :=
  let q := num / den
  let twice := 2 * (num % den)
  if twice < den then q else if den < twice then q + 1 else q + q % 2

/-- `base ^ exponent` where the exponent is positive, and one where it is not. -/
def power (base : Nat) (exponent : Int) : Nat := Nat.pow base exponent.toNat

/-- The least number with 53 binary digits, `2 ^ 52`. -/
def leastFull : Nat := 0x10000000000000

/-- `num / den / 2 ^ exponent`, rounded. -/
def scaledMantissa (num den : Nat) (exponent : Int) : Nat :=
  roundDiv (num * power 2 (-exponent)) (den * power 2 exponent)

namespace Double

/-- Before the bounds of the exponent: the one that gives the quotient 53 binary digits. -/
def fullExponent (num den : Nat) : Int :=
  let guess : Int := (num.log2 : Int) - den.log2 - 52
  if num * power 2 (-guess) < leastFull * (den * power 2 guess) then guess - 1 else guess

def ofRatio (negative : Bool) (num den : Nat) : Double :=
  if num = 0 then .finite negative 0 (-1074)
  else
    let exponent := max (-1074) (fullExponent num den)
    let mantissa := scaledMantissa num den exponent
    let (mantissa, exponent) := if mantissa = 2 * leastFull then (leastFull, exponent + 1) else (mantissa, exponent)
    if 971 < exponent then .infinite negative else .finite negative mantissa exponent

/-- The number nearest to `digits * 10 ^ exponent`. Exponents that decide the answer alone are not multiplied out. -/
def ofDecimal (negative : Bool) (digits : Nat) (exponent : Int) : Double :=
  let size : Int := (Nat.toDigits 10 digits).length + exponent
  if digits = 0 ∨ size < -330 then .finite negative 0 (-1074)
  else if 310 < size then .infinite negative
  else ofRatio negative (digits * power 10 exponent) (power 10 (-exponent))

end Double

end Prebuilt
