import Prebuilt.Text.Utf8
/-!
Reading numbers out of bytes, and the checksum that gzip and zip archives carry.
-/
set_option autoImplicit false

namespace Prebuilt

namespace Bytes

/-- The number whose bytes come least significant first. -/
def little : Bytes → Nat
  | [] => 0
  | b :: r => b.toNat + 256 * little r

/-- The number whose bytes come most significant first. -/
def big (bytes : Bytes) : Nat := bytes.foldl (fun n b => 256 * n + b.toNat) 0

def slice (bytes : Bytes) (start length : Nat) : Bytes := (bytes.drop start).take length

/-- The little-endian number of `length` bytes at `start`. -/
def littleAt (bytes : Bytes) (start length : Nat) : Nat := little (slice bytes start length)

/-- The bytes before the first zero. -/
def untilZero (bytes : Bytes) : Bytes := bytes.takeWhile (· != 0)

end Bytes

namespace Crc32

/-- One bit of the division by the polynomial, least significant bit first. -/
def shift (c : UInt32) : UInt32 := if c &&& 1 = 1 then (c >>> 1) ^^^ 0xEDB88320 else c >>> 1

def step (c : UInt32) (b : UInt8) : UInt32 :=
  shift (shift (shift (shift (shift (shift (shift (shift (c ^^^ b.toUInt32))))))))

/-- The checksum of more bytes after those that gave `before`. -/
def extend (before : UInt32) (bytes : Bytes) : UInt32 := (bytes.foldl step (before ^^^ 0xFFFFFFFF)) ^^^ 0xFFFFFFFF

def ofBytes (bytes : Bytes) : UInt32 := extend 0 bytes

end Crc32

end Prebuilt
