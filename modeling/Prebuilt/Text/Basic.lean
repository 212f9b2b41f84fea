/-!
Text: code points in order. A code point is a character or, as file names and JSON strings may hold one,
half of a surrogate pair that stands alone.
-/
set_option autoImplicit false

namespace Prebuilt

inductive CodePoint where
  | char (c : Char)
  /-- The surrogate `0xD800 + n`. -/
  | lone (n : Fin 2048)
  deriving DecidableEq, Repr

namespace CodePoint

instance : Inhabited CodePoint := ⟨.char ' '⟩

instance : Coe Char CodePoint := ⟨.char⟩

def value : CodePoint → Nat
  | .char c => c.toNat
  | .lone n => 0xD800 + n.val

/-- Numbers that are no code point give U+FFFD. -/
def ofValue (n : Nat) : CodePoint :=
  if h : n.isValidChar then .char (Char.ofNatAux n h)
  else if 0xD800 ≤ n ∧ n < 0xE000 then .lone (Fin.ofNat 2048 (n - 0xD800))
  else .char '\uFFFD'

def isChar : CodePoint → Bool
  | .char _ => true
  | .lone _ => false

def isAscii (c : CodePoint) : Bool := c.value < 128

/-- One of `0` to `9`. -/
def isAsciiDigit (c : CodePoint) : Bool := 48 ≤ c.value && c.value ≤ 57

def isAsciiLetter (c : CodePoint) : Bool :=
  (65 ≤ c.value && c.value ≤ 90) || (97 ≤ c.value && c.value ≤ 122)

def hexDigit? (c : CodePoint) : Option Nat :=
  let n := c.value
  if 48 ≤ n ∧ n ≤ 57 then some (n - 48)
  else if 97 ≤ n ∧ n ≤ 102 then some (n - 87)
  else if 65 ≤ n ∧ n ≤ 70 then some (n - 55)
  else none

end CodePoint

abbrev Text := List CodePoint

/-- Texts are equal if and only if they are found equal. -/
instance : LawfulBEq Text := inferInstance

instance : Coe String Text := ⟨fun s => s.toList.map CodePoint.char⟩

namespace Text

def ofString (s : String) : Text := s.toList.map .char

def ofChars (cs : List Char) : Text := cs.map .char

/-- The text as a string, when no surrogate stands alone in it. -/
def toString? (t : Text) : Option String :=
  (t.mapM fun c => match c with
    | CodePoint.char c => some c
    | CodePoint.lone _ => none).map String.ofList

def isString (t : Text) : Bool := t.all CodePoint.isChar

/-- Order by code points, a text before its extensions. -/
def le : Text → Text → Bool
  | [], _ => true
  | _ :: _, [] => false
  | a :: s, b :: t => a.value < b.value || (a.value == b.value && le s t)

def sorted (ts : List Text) : List Text := ts.mergeSort le

def join (ts : List Text) : Text := ts.flatten

def joinWith (sep : Text) : List Text → Text
  | [] => []
  | [t] => t
  | t :: u :: r => t ++ sep ++ joinWith sep (u :: r)

/-- The pieces between the separators; one piece if there is none. -/
def splitOn (sep : CodePoint) : Text → List Text
  | [] => [[]]
  | c :: r =>
    if c = sep then [] :: splitOn sep r
    else match splitOn sep r with
      | [] => [[c]]
      | p :: ps => (c :: p) :: ps

example : splitOn '/' "a//b" = [("a" : Text), "", "b"] := by cbv

/-- What follows the last separator. -/
def afterLast (sep : CodePoint) (t : Text) : Text :=
  (t.reverse.takeWhile (· != sep)).reverse

/-- Before and after the first separator. -/
def cut? (sep : CodePoint) (t : Text) : Option (Text × Text) :=
  match t.dropWhile (· != sep) with
  | [] => none
  | _ :: r => some (t.takeWhile (· != sep), r)

def stripWith (p : CodePoint → Bool) (t : Text) : Text :=
  ((t.dropWhile p).reverse.dropWhile p).reverse

def replaceChar (old new : CodePoint) (t : Text) : Text :=
  t.map fun c => if c = old then new else c

def has (t : Text) (c : CodePoint) : Bool := t.any (· == c)

/-- Whether the piece occurs in the text. -/
def includes (t piece : Text) : Bool :=
  match t with
  | [] => piece.isEmpty
  | c :: r => piece.isPrefixOf (c :: r) || includes r piece

def ofNat (n : Nat) : Text := ofString (toString n)

def ofInt : Int → Text
  | .ofNat n => ofNat n
  | .negSucc n => CodePoint.char '-' :: ofNat (n + 1)

/-- Digits in the base, at least `width` of them, in lower case. -/
def ofDigits (base width n : Nat) : Text :=
  let ds := Nat.toDigits base n
  ofChars (List.replicate (width - ds.length) '0' ++ ds)

def hex (width n : Nat) : Text := ofDigits 16 width n

def toUpperAscii (t : Text) : Text :=
  t.map fun c => match c with
    | CodePoint.char c => .char c.toUpper
    | CodePoint.lone n => .lone n

def toLowerAscii (t : Text) : Text :=
  t.map fun c => match c with
    | CodePoint.char c => .char c.toLower
    | CodePoint.lone n => .lone n

end Text

end Prebuilt
