import Prebuilt.Archive.Inflate
import Prebuilt.Error
/-!
Gzip files: members one after another, each a header, a deflate stream and a checksum. A file is read forward in pieces;
going back starts over. The end of a member's stream is noticed with its last byte, its checksum only on the next read.
-/
set_option autoImplicit false

namespace Prebuilt.Gzip

def truncated : Error := .truncatedStream "Compressed file ended before the end-of-stream marker was reached"

/-- A member's trailer holds the size of its data modulo this. -/
def sizeModulus : Nat := 0x100000000

/-- What follows so many bytes, all of which have to be there. -/
def skipExactly (n : Nat) (bytes : Bytes) : Except Error Bytes :=
  if bytes.length < n then .error truncated else .ok (bytes.drop n)

/-- What follows a text that a zero ends, or the end of the file. -/
def skipText (bytes : Bytes) : Bytes := (bytes.dropWhile (· != 0)).drop 1

def hasFlag (flags : UInt8) (flag : UInt8) : Bool := flags &&& flag != 0

/-- What follows the header of a member; nothing if no member follows. -/
def skipHeader (bytes : Bytes) : Except Error (Option Bytes) := do
  match bytes with
  | [] => return none
  | [a] => throw (.gzip (.magic [a]))
  | a :: b :: rest =>
    if a != 0x1f || b != 0x8b then throw (.gzip (.magic [a, b]))
    let after ← skipExactly 8 rest
    match rest with
    | method :: flags :: _ =>
      if method != 8 then throw (.gzip .method)
      let after ←
        if hasFlag flags 4 then do
          let more ← skipExactly 2 after
          skipExactly (Bytes.littleAt after 0 2) more
        else pure after
      let after := if hasFlag flags 8 then skipText after else after
      let after := if hasFlag flags 16 then skipText after else after
      let after ← if hasFlag flags 2 then skipExactly 2 after else pure after
      return some after
    | _ => throw truncated

inductive Phase where
  /-- Before the header of a member or at the end. -/
  | between (rest : Bytes)
  /-- In the data of a member: what of it is still to come, how it ends, and what follows it. -/
  | inside (pending : Bytes) (ending : Inflate.Ending) (rest : Bytes)
  /-- Before the checksum of a member. -/
  | trailer (rest : Bytes)

/-- The decompressed file as it is read. -/
structure Stream where
  input : Bytes
  position : Nat
  phase : Phase
  /-- Checksum and length of the member's data so far. -/
  crc : UInt32
  size : Nat

namespace Stream

def ofBytes (input : Bytes) : Stream := ⟨input, 0, .between input, 0, 0⟩

/-- Opens the next member; `false` if there is none. -/
def openMember (s : Stream) (rest : Bytes) : Except Error (Bool × Stream) := do
  match ← skipHeader rest with
  | none => return (false, { s with phase := .between [] })
  | some data =>
    let result := Inflate.run data
    let used := match result.ending with
      | .complete n => n
      | _ => data.length
    return (true, { s with phase := .inside result.output result.ending (data.drop used), crc := 0, size := 0 })

/-- Checks the end of a member; zeros may stand between members. -/
def closeMember (s : Stream) (rest : Bytes) : Except Error Stream := do
  let after ← skipExactly 8 rest
  let stored := Bytes.littleAt rest 0 4
  if stored ≠ s.crc.toNat then throw (.gzip (.checksum stored s.crc.toNat))
  if Bytes.littleAt rest 4 4 ≠ s.size % sizeModulus then throw (.gzip .length)
  return { s with phase := .between (after.dropWhile (· == 0)) }

/-- How a stream goes on after its last byte of data. -/
def endPhase (ending : Inflate.Ending) (rest : Bytes) : Except Error Phase :=
  match ending with
  | .complete _ => .ok (.trailer rest)
  | .truncated => .ok (.inside [] .truncated rest)
  | .corrupt => .error .corruptStream

/-- At most `n` bytes, and at least one unless the file is at its end. The first number bounds the steps between members. -/
def readUpTo (n : Nat) : Nat → Stream → Except Error (Bytes × Stream)
  | 0, s => .ok ([], s)
  | fuel + 1, s =>
    match s.phase with
    | .trailer rest => do readUpTo n fuel (← s.closeMember rest)
    | .between rest => do
      let (opened, s) ← s.openMember rest
      if opened then readUpTo n fuel s else return ([], s)
    | .inside [] ending rest =>
      match ending with
      | .complete _ => readUpTo n fuel { s with phase := .trailer rest }
      | .truncated => .error truncated
      | .corrupt => .error .corruptStream
    | .inside pending ending rest => do
      let data := pending.take n
      let phase ← if pending.length ≤ n then endPhase ending rest else pure (.inside (pending.drop n) ending rest)
      return (data, { s with
        position := s.position + data.length
        phase := phase
        crc := Crc32.extend s.crc data
        size := s.size + data.length })

def read (n : Nat) (s : Stream) : Except Error (Bytes × Stream) := readUpTo n (3 * s.input.length + 3) s

/-- Reads on until the position is reached or the file ends. -/
def skipTo (target : Nat) : Nat → Stream → Except Error Stream
  | 0, s => .ok s
  | fuel + 1, s =>
    if target ≤ s.position then .ok s
    else do
      let (data, s) ← s.read (min 8192 (target - s.position))
      if data.isEmpty then return s else skipTo target fuel s

def seek (target : Nat) (s : Stream) : Except Error Stream :=
  skipTo target (target + 1) (if target < s.position then ofBytes s.input else s)

end Stream

/-- How much is read ahead. -/
def bufferSize : Nat := 8192

/-- A stream with what was read ahead of it: `buffer` holds the bytes before the stream's position, of which the first
`used` were handed out. -/
structure Reader where
  stream : Stream
  buffer : Bytes
  used : Nat

namespace Reader

def ofBytes (input : Bytes) : Reader := ⟨.ofBytes input, [], 0⟩

def ahead (r : Reader) : Nat := r.buffer.length - r.used

/-- The position of the next byte that is handed out. -/
def position (r : Reader) : Nat := r.stream.position - r.ahead

/-- Whole buffers are read past the buffer. -/
def readWhole (n : Nat) (done : Bytes) : Nat → Reader → Except Error (Bytes × Bool × Reader)
  | 0, r => .ok (done, true, r)
  | fuel + 1, r =>
    let wanted := (n - done.length) / bufferSize * bufferSize
    if wanted = 0 then .ok (done, false, r)
    else do
      let (data, stream) ← r.stream.read wanted
      let r := { r with stream := stream }
      if data.isEmpty then return (done, true, r) else readWhole n (done ++ data) fuel r

/-- The rest of a request comes out of a buffer that is filled for it. -/
def readRest (n : Nat) (done : Bytes) : Nat → Reader → Except Error (Bytes × Reader)
  | 0, r => .ok (done, r)
  | fuel + 1, r =>
    if n ≤ done.length ∨ bufferSize ≤ r.buffer.length then .ok (done, r)
    else do
      let (data, stream) ← r.stream.read (bufferSize - r.buffer.length)
      let take := min (n - done.length) data.length
      let r : Reader := ⟨stream, r.buffer ++ data, r.used + take⟩
      if data.isEmpty then return (done, r) else readRest n (done ++ data.take take) fuel r

def read (n : Nat) (r : Reader) : Except Error (Bytes × Reader) :=
  if n ≤ r.ahead then .ok ((r.buffer.drop r.used).take n, { r with used := r.used + n })
  else do
    let (done, ended, r) ← readWhole n (r.buffer.drop r.used) (n + 1) ⟨r.stream, [], 0⟩
    if ended then return (done, r) else readRest n done (n + 1) r

/-- Stays within the buffer if the target is there. -/
def seek (target : Nat) (r : Reader) : Except Error Reader :=
  if 0 < r.ahead ∧ r.position - r.used ≤ target ∧ target ≤ r.stream.position then
    .ok { r with used := r.buffer.length - (r.stream.position - target) }
  else do return ⟨← r.stream.seek target, [], 0⟩

/-- Asking for the position gives up a buffer that is used up. -/
def tell (r : Reader) : Nat × Reader := if 0 < r.ahead then (r.position, r) else (r.stream.position, ⟨r.stream, [], 0⟩)

end Reader

/-- The content of a body that was sent as a gzip file, complete or not; none if it breaks the format. Nothing after the
first member counts. -/
def content? (body : Bytes) : Option Bytes :=
  match body with
  | a :: b :: method :: flags :: rest =>
    if a != 0x1f || b != 0x8b || method != 8 || flags &&& 0xe0 != 0 then none
    else match (skipHeader (a :: b :: method :: flags :: rest)).toOption with
      | some (some data) =>
        let result := Inflate.run data
        match result.ending with
        | .truncated => some result.output
        | .corrupt => none
        | .complete used =>
          let trailer := data.drop used
          if 4 ≤ trailer.length ∧ Bytes.littleAt trailer 0 4 ≠ (Crc32.ofBytes result.output).toNat then none
          else if 8 ≤ trailer.length ∧ Bytes.littleAt trailer 4 4 ≠ result.output.length % sizeModulus then none
          else some result.output
      | _ => some []
  | [] => some []
  | [_] => some []
  | a :: b :: _ => if a != 0x1f || b != 0x8b then none else some []

end Prebuilt.Gzip
