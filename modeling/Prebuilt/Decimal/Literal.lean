import Prebuilt.Decimal.Double
import Prebuilt.Text.Digit
import Prebuilt.Text.Blank
/-!
Numbers as people write them: decimal digits of any script, blanks around, single underscores between digits, a point,
an exponent, and the words for infinity and for no number.
-/
set_option autoImplicit false

namespace Prebuilt

/-- The number that a run of digits writes. -/
def digitsValue (ds : Text) : Nat := ds.foldl (fun n c => 10 * n + (c.value - 48)) 0

def leadingDigits (t : Text) : Text × Text :=
  (t.takeWhile CodePoint.isAsciiDigit, t.dropWhile CodePoint.isAsciiDigit)

/-- The sign, if one is there, and what follows. -/
def leadingSign : Text → Bool × Text
  | .char '-' :: r => (true, r)
  | .char '+' :: r => (false, r)
  | t => (false, t)

namespace Double

/-- A decimal from its digits before and after the point and its exponent. -/
def ofParts (negative : Bool) (whole fraction : Text) (exponent : Int) : Double :=
  ofDecimal negative (digitsValue (whole ++ fraction)) (exponent - fraction.length)

/-- The exponent that closes a number; no exponent is zero. -/
def closingExponent? : Text → Option Int
  | [] => some 0
  | c :: r =>
    if c = 'e' ∨ c = 'E' then
      let (negative, r) := leadingSign r
      let (ds, rest) := leadingDigits r
      if ds.isEmpty ∨ !rest.isEmpty then none
      else some (if negative then -(digitsValue ds : Int) else digitsValue ds)
    else none

def ofPlain? (t : Text) : Option Double :=
  let (negative, t) := leadingSign t
  let word := Text.toLowerAscii t
  if word = "inf" ∨ word = "infinity" then some (.infinite negative)
  else if word = "nan" then some .nan
  else
    let (whole, r) := leadingDigits t
    let (fraction, r) := match r with
      | .char '.' :: r => leadingDigits r
      | r => ([], r)
    if whole.isEmpty && fraction.isEmpty then none
    else (closingExponent? r).map (ofParts negative whole fraction)

/-- Takes the underscores out; each has to stand between two digits. -/
def dropUnderscores? : Option CodePoint → Text → Option Text
  | before, [] => if before = some '_' then none else some []
  | before, c :: r =>
    let afterDigit := match before with
      | some d => d.isAsciiDigit
      | none => false
    if c = '_' then if afterDigit then dropUnderscores? (some c) r else none
    else if before = some '_' ∧ !c.isAsciiDigit then none
    else (dropUnderscores? (some c) r).map (c :: ·)

/-- Digits and blanks of any script become those of ASCII; the information separators are no blanks here. -/
def plain (t : Text) : Text :=
  t.map fun c =>
    if c.isAscii then c
    else if c.isBlank then .char ' '
    else match c.digit? with
      | some d => .ofValue (48 + d)
      | none => c

def isPlainBlank (c : CodePoint) : Bool := (9 ≤ c.value && c.value ≤ 13) || c.value == 32

def parse? (t : Text) : Option Double :=
  (dropUnderscores? none (Text.stripWith isPlainBlank (plain t))).bind ofPlain?

end Double

/-- Most digits that are read as a whole number. -/
def digitLimit : Nat := 4300

/-- A whole number as people write it, in digits of the base, by the same rules for blanks, scripts and underscores. -/
def wholeNumber? (t : Text) : Option Int :=
  match Double.dropUnderscores? none (Text.stripWith Double.isPlainBlank (Double.plain t)) with
  | none => none
  | some t =>
    let (negative, digits) := leadingSign t
    if digits.isEmpty ∨ digitLimit < digits.length ∨ !digits.all CodePoint.isAsciiDigit then none
    else some (if negative then -(digitsValue digits : Int) else digitsValue digits)

end Prebuilt
