import Prebuilt.Text.Digit
/-!
Semantic versions: three numbers, then optionally a pre-release after a dash and a build after a plus sign. Numbers may
be written in the decimal digits of any script, and one line end may close the text.
-/
set_option autoImplicit false

namespace Prebuilt.Version

/-- Without leading zeros: `0`, or a digit from `1` to `9` and any decimal digits. -/
def isNumber : Text → Bool
  | [] => false
  | c :: r => if c = '0' then r.isEmpty else c.isAsciiDigit && r.all CodePoint.isDigit

def isLetter (c : CodePoint) : Bool := c.isAsciiLetter || c == '-'

def isIdentifierPart (c : CodePoint) : Bool := c.isAsciiDigit || isLetter c

/-- Decimal digits, then a letter or dash, then letters, dashes and the digits `0` to `9`. -/
def isName (t : Text) : Bool :=
  match t.dropWhile CodePoint.isDigit with
  | [] => false
  | c :: r => isLetter c && r.all isIdentifierPart

def isPreRelease (t : Text) : Bool := (Text.splitOn '.' t).all fun part => isNumber part || isName part

def isBuild (t : Text) : Bool := (Text.splitOn '.' t).all fun part => !part.isEmpty && part.all isIdentifierPart

def isCore (t : Text) : Bool :=
  match Text.splitOn '.' t with
  | [major, minor, patch] => isNumber major && isNumber minor && isNumber patch
  | _ => false

def isRelease (t : Text) : Bool :=
  match Text.cut? '-' t with
  | some (core, preRelease) => isCore core && isPreRelease preRelease
  | none => isCore t

/-- The text without one line end at its end. -/
def withoutLineEnd (t : Text) : Text := if t.getLast? = some '\n' then t.dropLast else t

def isSemantic (t : Text) : Bool :=
  let t := withoutLineEnd t
  match Text.cut? '+' t with
  | some (release, build) => isRelease release && isBuild build
  | none => isRelease t

end Prebuilt.Version
