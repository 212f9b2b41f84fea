import Prebuilt.Archive.Gzip
/-!
A file that is read from a position: plain, or through gzip.
-/
set_option autoImplicit false

namespace Prebuilt

inductive Source where
  | plain (content : Bytes) (position : Nat)
  | gzip (reader : Gzip.Reader)

namespace Source

def ofBytes (compressed : Bool) (content : Bytes) : Source :=
  if compressed then .gzip (.ofBytes content) else .plain content 0

def inputLength : Source → Nat
  | .plain content _ => content.length
  | .gzip reader => reader.stream.input.length

/-- At most `n` bytes; fewer only at the end. -/
def read (n : Nat) : Source → Except Error (Bytes × Source)
  | .plain content position =>
    let data := Bytes.slice content position n
    .ok (data, .plain content (position + data.length))
  | .gzip reader => (reader.read n).map fun (data, reader) => (data, .gzip reader)

/-- Positions are smaller than this. -/
def positionLimit : Int := 0x8000000000000000

/-- A position in front of the start is refused by a plain file and taken for the start by a compressed one. -/
def seekTo (target : Int) (source : Source) : Except Error Source :=
  if positionLimit ≤ target then .error (.value .positionTooLarge)
  else match source with
    | .plain content _ =>
      if target < 0 then .error (.system ⟨.invalid, none, none⟩) else .ok (.plain content target.toNat)
    | .gzip reader => (reader.seek target.toNat).map .gzip

def tell : Source → Nat × Source
  | .plain content position => (position, .plain content position)
  | .gzip reader => let (position, reader) := reader.tell; (position, .gzip reader)

end Source

end Prebuilt
