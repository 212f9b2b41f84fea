import Prebuilt.Json.Basic
import Prebuilt.Decimal.Literal
/-!
Reading JSON text. Besides the standard's values it takes the words for infinity and for no number. A fault says what
was expected and where; values nested too deeply and numbers with too many digits are refused.
-/
set_option autoImplicit false

namespace Prebuilt.Json

inductive Expectation where
  | value
  | name
  | colon
  | comma
  | controlCharacter
  | escape
  | unicodeEscape
  | closingQuote
  | end
  | noByteOrderMark
  deriving DecidableEq, Repr

def Expectation.message : Expectation → Text
  | .value => "Expecting value"
  | .name => "Expecting property name enclosed in double quotes"
  | .colon => "Expecting ':' delimiter"
  | .comma => "Expecting ',' delimiter"
  | .controlCharacter => "Invalid control character at"
  | .escape => "Invalid \\escape"
  | .unicodeEscape => "Invalid \\uXXXX escape"
  | .closingQuote => "Unterminated string starting at"
  | .end => "Extra data"
  | .noByteOrderMark => "Unexpected UTF-8 BOM (decode using utf-8-sig)"

inductive Fault where
  | malformed (what : Expectation) (position : Nat)
  | tooDeep (inObject : Bool)
  | tooManyDigits (count : Nat)
  deriving DecidableEq, Repr

/-- Line and column of a position, both counted from one. -/
def lineColumn (document : Text) (position : Nat) : Nat × Nat :=
  let before := document.take position
  (before.count (CodePoint.char '\n') + 1, (Text.afterLast '\n' before).length + 1)

def malformedMessage (document : Text) (what : Expectation) (position : Nat) : Text :=
  let (line, column) := lineColumn document position
  Text.join [what.message, ": line ", Text.ofNat line, " column ", Text.ofNat column, " (char ", Text.ofNat position, ")"]

/-- Most digits of a whole number. -/
def digitLimit : Nat := 4300

/-- How deep arrays and objects may nest. -/
def depthLimit : Nat := 970

/-- A place in a document: what is left of it and how much was read. -/
structure Cursor where
  position : Nat
  rest : Text

abbrev Step (α : Type) := Except Fault (α × Cursor)

def isSpace (c : CodePoint) : Bool := c == ' ' || c == '\t' || c == '\n' || c == '\r'

namespace Cursor

def skip (c : Cursor) (n : Nat) : Cursor := ⟨c.position + n, c.rest.drop n⟩

def skipSpace (c : Cursor) : Cursor := c.skip (c.rest.takeWhile isSpace).length

def startsWith (c : Cursor) (t : Text) : Bool := t.isPrefixOf c.rest

def fail {α : Type} (c : Cursor) (what : Expectation) : Step α := .error (.malformed what c.position)

end Cursor

def simpleEscape? (c : CodePoint) : Option CodePoint :=
  if c = '"' ∨ c = '\\' ∨ c = '/' then some c
  else if c = 'b' then some '\x08'
  else if c = 'f' then some '\x0c'
  else if c = 'n' then some '\n'
  else if c = 'r' then some '\r'
  else if c = 't' then some '\t'
  else none

/-- The value of four hexadecimal digits. -/
def hexFour? : Text → Option Nat
  | [a, b, c, d] =>
    match a.hexDigit?, b.hexDigit?, c.hexDigit?, d.hexDigit? with
    | some a, some b, some c, some d => some (((a * 16 + b) * 16 + c) * 16 + d)
    | _, _, _, _ => none
  | _ => none

/-- The code point after `\u`, and how many code points of text write it after the first four: six if a second escape
completes a surrogate pair. `position` is that of the letter `u`; text has to follow the escape. -/
def unicodeEscape (position : Nat) (rest : Text) : Except Fault (CodePoint × Nat) :=
  if (rest.drop 4).isEmpty then .error (.malformed .unicodeEscape position)
  else match hexFour? (rest.take 4) with
    | none => .error (.malformed .unicodeEscape position)
    | some high =>
      let more := rest.drop 4
      if 0xD800 ≤ high ∧ high < 0xDC00 ∧ !(more.drop 6).isEmpty ∧ ("\\u" : Text).isPrefixOf more then
        match hexFour? ((more.drop 2).take 4) with
        | none => .error (.malformed .unicodeEscape (position + 6))
        | some low =>
          if 0xDC00 ≤ low ∧ low < 0xE000 then .ok (.ofValue (0x10000 + (high - 0xD800) * 0x400 + (low - 0xDC00)), 6)
          else .ok (.ofValue high, 0)
      else .ok (.ofValue high, 0)

/-- The string after its opening quote, which stands at `start`. -/
def stringFrom (start : Nat) (done : Text) (position : Nat) : Text → Step Text
  | [] => .error (.malformed .closingQuote start)
  | c :: r =>
    if c = '"' then .ok (done.reverse, ⟨position + 1, r⟩)
    else if c = '\\' then
      match r with
      | [] => .error (.malformed .closingQuote start)
      | e :: r =>
        if e = 'u' then
          match unicodeEscape (position + 1) r with
          | .error fault => .error fault
          | .ok (u, more) => stringFrom start (u :: done) (position + 6 + more) (r.drop (4 + more))
        else match simpleEscape? e with
          | some u => stringFrom start (u :: done) (position + 2) r
          | none => .error (.malformed .escape position)
    else if c.value < 32 then .error (.malformed .controlCharacter position)
    else stringFrom start (c :: done) (position + 1) r
  termination_by rest => rest.length
  decreasing_by all_goals (subst_vars; simp only [List.length_drop, List.length_cons]; omega)

/-- A string at its opening quote. -/
def string (c : Cursor) : Step Text := stringFrom c.position [] (c.position + 1) (c.rest.drop 1)

/-- The digits after a point, if there are any. -/
def fractionDigits (t : Text) : Text :=
  match t with
  | .char '.' :: r => r.takeWhile CodePoint.isAsciiDigit
  | _ => []

/-- The exponent part and its length, if it has digits. -/
def exponentPart? (t : Text) : Option (Int × Nat) :=
  match t with
  | c :: r =>
    if c = 'e' ∨ c = 'E' then
      let (negative, digits) := leadingSign r
      let ds := digits.takeWhile CodePoint.isAsciiDigit
      if ds.isEmpty then none
      else
        let n := digitsValue ds
        some (if negative then -(n : Int) else n, 1 + (r.length - digits.length) + ds.length)
    else none
  | [] => none

def number (c : Cursor) : Step Json :=
  let negative := c.startsWith "-"
  let body := if negative then c.rest.drop 1 else c.rest
  let whole := if ("0" : Text).isPrefixOf body then ("0" : Text) else body.takeWhile CodePoint.isAsciiDigit
  if whole.isEmpty then c.fail .value
  else
    let afterWhole := body.drop whole.length
    let fraction := fractionDigits afterWhole
    let fractionLength := if fraction.isEmpty then 0 else fraction.length + 1
    let next := c.skip ((if negative then 1 else 0) + whole.length + fractionLength)
    match exponentPart? (afterWhole.drop fractionLength) with
    | some (exponent, n) => .ok (.float (.ofParts negative whole fraction exponent), next.skip n)
    | none =>
      if !fraction.isEmpty then .ok (.float (.ofParts negative whole fraction 0), next)
      else if digitLimit < whole.length then .error (.tooManyDigits whole.length)
      else
        let n : Int := digitsValue whole
        .ok (.int (if negative then -n else n), next)

def words : List (Text × Json) :=
  [("null", .null), ("true", .bool true), ("false", .bool false), ("NaN", .float .nan),
   ("Infinity", .float (.infinite false)), ("-Infinity", .float (.infinite true))]

def word? (c : Cursor) : Option (Json × Cursor) :=
  (words.find? fun (w, _) => c.startsWith w).map fun (w, x) => (x, c.skip w.length)

/-- The items of an array after its first one began; `fuel` bounds their number. -/
def items (item : Cursor → Step Json) (fuel : Nat) (done : List Json) (c : Cursor) : Step Json :=
  match fuel with
  | 0 => c.fail .value
  | fuel + 1 =>
    match item c with
    | .error fault => .error fault
    | .ok (x, c) =>
      let c := c.skipSpace
      if c.startsWith "]" then .ok (.array (x :: done).reverse, c.skip 1)
      else if c.startsWith "," then items item fuel (x :: done) (c.skip 1).skipSpace
      else c.fail .comma

/-- The members of an object after its first one began. -/
def members (item : Cursor → Step Json) (fuel : Nat) (done : Fields) (c : Cursor) : Step Json :=
  match fuel with
  | 0 => c.fail .name
  | fuel + 1 =>
    if !c.startsWith "\"" then c.fail .name
    else match string c with
      | .error fault => .error fault
      | .ok (key, c) =>
        let c := c.skipSpace
        if !c.startsWith ":" then c.fail .colon
        else match item (c.skip 1).skipSpace with
          | .error fault => .error fault
          | .ok (x, c) =>
            let c := c.skipSpace
            let done := Table.put key x done
            if c.startsWith "\x7d" then .ok (.object done, c.skip 1)
            else if c.startsWith "," then members item fuel done (c.skip 1).skipSpace
            else c.fail .comma

/-- The value at the cursor, with at most `depth` arrays and objects around one another; `size` bounds the number of
items in one of them. -/
def value (size : Nat) : (depth : Nat) → Cursor → Step Json
  | depth, c =>
    match c.rest with
    | [] => c.fail .value
    | first :: _ =>
      if first = '"' then (string c).map fun (t, c) => (.text t, c)
      else if first = '\x7b' then
        match depth with
        | 0 => .error (.tooDeep true)
        | depth + 1 =>
          let c := (c.skip 1).skipSpace
          if c.startsWith "\x7d" then .ok (.object [], c.skip 1) else members (value size depth) size [] c
      else if first = '[' then
        match depth with
        | 0 => .error (.tooDeep false)
        | depth + 1 =>
          let c := (c.skip 1).skipSpace
          if c.startsWith "]" then .ok (.array [], c.skip 1) else items (value size depth) size [] c
      else match word? c with
        | some step => .ok step
        | none => number c

def parse (depth : Nat) (document : Text) : Except Fault Json :=
  if ("\uFEFF" : Text).isPrefixOf document then .error (.malformed .noByteOrderMark 0)
  else match value (document.length + 1) depth (Cursor.skipSpace ⟨0, document⟩) with
    | .error fault => .error fault
    | .ok (x, c) =>
      let c := c.skipSpace
      if c.rest.isEmpty then .ok x else .error (.malformed .end c.position)

end Prebuilt.Json
