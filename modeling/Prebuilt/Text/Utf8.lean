import Prebuilt.Text.Quoted
/-!
UTF-8. Reading accepts the well-formed sequences only and says where and why it stops; file names keep a byte that is
no part of one as the lone surrogate U+DC00 plus the byte.
-/
set_option autoImplicit false

namespace Prebuilt

abbrev Bytes := List UInt8

namespace Utf8

inductive Fault where
  | startByte
  | continuation
  | endOfData
  deriving DecidableEq, Repr

def Fault.reason : Fault → Text
  | .startByte => "invalid start byte"
  | .continuation => "invalid continuation byte"
  | .endOfData => "unexpected end of data"

/-- The bytes from `start` up to `stop` are no UTF-8; the first of them is `byte`. -/
structure DecodeError where
  start : Nat
  stop : Nat
  byte : UInt8
  fault : Fault
  deriving DecidableEq, Repr

def DecodeError.message (e : DecodeError) : Text :=
  if e.stop = e.start + 1 then
    Text.join ["'utf-8' codec can't decode byte 0x", Text.hex 2 e.byte.toNat, " in position ", Text.ofNat e.start, ": ",
      e.fault.reason]
  else
    Text.join ["'utf-8' codec can't decode bytes in position ", Text.ofNat e.start, "-", Text.ofNat (e.stop - 1), ": ",
      e.fault.reason]

def isContinuation (b : UInt8) : Bool := 0x80 ≤ b && b ≤ 0xBF

/-- The bytes that may follow the lead byte, as Unicode's table of well-formed sequences has them. -/
def isSecond (lead b : UInt8) : Bool :=
  if lead = 0xE0 then 0xA0 ≤ b && b ≤ 0xBF
  else if lead = 0xED then 0x80 ≤ b && b ≤ 0x9F
  else if lead = 0xF0 then 0x90 ≤ b && b ≤ 0xBF
  else if lead = 0xF4 then 0x80 ≤ b && b ≤ 0x8F
  else isContinuation b

/-- How many bytes follow the lead byte. -/
def followers (lead : UInt8) : Option Nat :=
  if lead < 0x80 then some 0
  else if lead < 0xC2 then none
  else if lead < 0xE0 then some 1
  else if lead < 0xF0 then some 2
  else if lead < 0xF5 then some 3
  else none

/-- The leading well-formed sequence and how many bytes it takes after the first; or the fault, and how many bytes
after the first belong to it. -/
def unitAt (lead : UInt8) (rest : Bytes) : Except (Fault × Nat) (CodePoint × Nat) :=
  let low (b : UInt8) : Nat := b.toNat % 64
  match followers lead with
  | none => .error (.startByte, 0)
  | some 0 => .ok (.ofValue lead.toNat, 0)
  | some n =>
    match rest with
    | [] => .error (.endOfData, 0)
    | b :: r =>
      if !isSecond lead b then .error (.continuation, 0)
      else if n = 1 then .ok (.ofValue ((lead.toNat - 0xC0) * 64 + low b), 1)
      else match r with
        | [] => .error (.endOfData, 1)
        | c :: r =>
          if !isContinuation c then .error (.continuation, 1)
          else if n = 2 then .ok (.ofValue (((lead.toNat - 0xE0) * 64 + low b) * 64 + low c), 2)
          else match r with
            | [] => .error (.endOfData, 2)
            | d :: _ =>
              if !isContinuation d then .error (.continuation, 2)
              else .ok (.ofValue ((((lead.toNat - 0xF0) * 64 + low b) * 64 + low c) * 64 + low d), 3)

def decodeFrom (position : Nat) (done : Text) : Bytes → Except DecodeError Text
  | [] => .ok done.reverse
  | b :: r =>
    match unitAt b r with
    | .ok (c, n) => decodeFrom (position + 1 + n) (c :: done) (r.drop n)
    | .error (fault, n) => .error ⟨position, position + 1 + n, b, fault⟩
  termination_by bytes => bytes.length
  decreasing_by simp only [List.length_drop, List.length_cons]; omega

def decode (bytes : Bytes) : Except DecodeError Text := decodeFrom 0 [] bytes

def decodeNameFrom (done : Text) : Bytes → Text
  | [] => done.reverse
  | b :: r =>
    match unitAt b r with
    | .ok (c, n) => decodeNameFrom (c :: done) (r.drop n)
    | .error _ => decodeNameFrom (.ofValue (0xDC00 + b.toNat) :: done) r
  termination_by bytes => bytes.length
  decreasing_by
    · simp only [List.length_drop, List.length_cons]; omega
    · simp only [List.length_cons]; omega

/-- Every byte string is the name of something: a stray byte becomes a lone surrogate. -/
def decodeName (bytes : Bytes) : Text := decodeNameFrom [] bytes

/-- The code points from `start` up to `stop` cannot be written; the first of them is `first`. -/
structure EncodeError where
  start : Nat
  stop : Nat
  first : CodePoint
  deriving DecidableEq, Repr

def EncodeError.message (e : EncodeError) : Text :=
  if e.stop = e.start + 1 then
    Text.join ["'utf-8' codec can't encode character '\\u", Text.hex 4 e.first.value, "' in position ", Text.ofNat e.start,
      ": surrogates not allowed"]
  else
    Text.join ["'utf-8' codec can't encode characters in position ", Text.ofNat e.start, "-", Text.ofNat (e.stop - 1),
      ": surrogates not allowed"]

/-- The byte that a lone surrogate stands for in a file name. -/
def strayByte? (n : Fin 2048) : Option UInt8 :=
  if 0x480 ≤ n.val ∧ n.val ≤ 0x4FF then some (UInt8.ofNat (n.val - 0x400)) else none

def encodeFrom (position : Nat) (stray : Fin 2048 → Option UInt8) : Text → Except EncodeError Bytes
  | [] => .ok []
  | .char c :: r => (encodeFrom (position + 1) stray r).map (String.utf8EncodeChar c ++ ·)
  | .lone n :: r =>
    match stray n with
    | some b => (encodeFrom (position + 1) stray r).map (b :: ·)
    | none => .error ⟨position, position + 1 + (r.takeWhile (!·.isChar)).length, .lone n⟩

def encode (t : Text) : Except EncodeError Bytes := encodeFrom 0 (fun _ => none) t

def encodeName (t : Text) : Except EncodeError Bytes := encodeFrom 0 strayByte? t

end Utf8

end Prebuilt
