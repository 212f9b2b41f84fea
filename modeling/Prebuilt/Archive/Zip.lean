import Prebuilt.Archive.Inflate
import Prebuilt.Error
/-!
Zip archives: a directory at the end of the file names the members and says where each one stands. A member starts with a
header of its own, which has to agree with the directory, and its data may be deflated.
-/
set_option autoImplicit false

namespace Prebuilt.Zip

/-- What the bytes from 128 on stand for in names that are not marked as UTF-8. -/
def highLetters : String :=
  "ÇüéâäàåçêëèïîìÄÅÉæÆôöòûùÿÖÜ¢£¥₧ƒáíóúñÑªº¿⌐¬½¼¡«»░▒▓│┤╡╢╖╕╣║╗╝╜╛┐└┴┬├─┼╞╟╚╔╩╦╠═╬╧╨╤╥╙╘╒╓╫╪┘┌█▄▌▐▀αßΓπΣσµτΦΘΩδ∞φε∩≡±≥≤⌠⌡÷≈°∙·√ⁿ²■\u00a0"

def letters : Text := (List.range 128).map CodePoint.ofValue ++ Text.ofString highLetters

def decodeName (utf8 : Bool) (bytes : Bytes) : Except Error Text :=
  if utf8 then
    match Utf8.decode bytes with
    | .ok t => .ok t
    | .error fault => .error (.undecodable fault)
  else .ok (bytes.map fun b => letters.getD b.toNat (.char ' '))

structure Entry where
  /-- As the directory has it. -/
  fullName : Text
  flags : Nat
  method : Nat
  crc : Nat
  compressedSize : Nat
  size : Nat
  attributes : Nat
  /-- Where the member's header stands. -/
  offset : Int
  /-- Where the next member or the directory starts. -/
  limit : Int
  deriving DecidableEq, Repr

/-- Bits of the flags. -/
def hasFlag (flags bit : Nat) : Bool := flags.testBit bit

def encryptedBit : Nat := 0
def patchBit : Nat := 5
def strongBit : Nat := 6
def utf8Bit : Nat := 11

/-- A name ends at the first zero. -/
def Entry.name (e : Entry) : Text := e.fullName.takeWhile fun c => c.value != 0

def Entry.isDirectory (e : Entry) : Bool := e.name.getLast? == some (CodePoint.char '/')

/-- The end of the directory: its size and offset as written, where this record stands, and whether the long form holds. -/
structure Trailer where
  size : Nat
  offset : Nat
  location : Nat
  isLong : Bool

def trailerMark : Bytes := [0x50, 0x4b, 5, 6]
def longTrailerMark : Bytes := [0x50, 0x4b, 6, 6]
def locatorMark : Bytes := [0x50, 0x4b, 6, 7]
def entryMark : Bytes := [0x50, 0x4b, 1, 2]
def memberMark : Bytes := [0x50, 0x4b, 3, 4]

/-- The last place where the mark stands. -/
def lastIndexOf (mark bytes : Bytes) : Option Nat := go 0 none bytes
where
  go (index : Nat) (found : Option Nat) : Bytes → Option Nat
    | [] => found
    | b :: r => go (index + 1) (if mark.isPrefixOf (b :: r) then some index else found) r

def trailerAt? (bytes : Bytes) : Option Nat :=
  let last := bytes.length - 22
  if bytes.length < 22 then none
  else
    let final := bytes.drop last
    if trailerMark.isPrefixOf final ∧ final.drop 20 = [0, 0] then some last
    else
      let start := bytes.length - (65536 + 22)
      match lastIndexOf trailerMark (bytes.drop start) with
      | none => none
      | some index => if (bytes.drop (start + index)).length < 22 then none else some (start + index)

/-- The long form of the trailer stands before the short one, with a locator between them. -/
def longTrailer? (bytes : Bytes) (location : Nat) : Except Error (Option (Nat × Nat)) := do
  if location < 20 then return none
  let locator := Bytes.slice bytes (location - 20) 20
  if !locatorMark.isPrefixOf locator then return none
  if Bytes.littleAt locator 4 4 ≠ 0 ∨ 1 < Bytes.littleAt locator 16 4 then throw (.zip .manyDisks)
  if location < 76 then throw (.zip .notZip)
  let record := Bytes.slice bytes (location - 76) 56
  if !longTrailerMark.isPrefixOf record then return none
  return some (Bytes.littleAt record 40 8, Bytes.littleAt record 48 8)

def trailer (bytes : Bytes) : Except Error Trailer :=
  match trailerAt? bytes with
  | none => .error (.zip .notZip)
  | some location => do
    match ← longTrailer? bytes location with
    | some (size, offset) => return ⟨size, offset, location, true⟩
    | none => return ⟨Bytes.littleAt bytes (location + 12) 4, Bytes.littleAt bytes (location + 16) 4, location, false⟩

def longMark : Nat := 0xFFFFFFFF

/-- A number of eight bytes that the long form has in place of a short one. -/
def longNumber (what : Text) (data : Bytes) : Except Error (Nat × Bytes) :=
  if data.length < 8 then .error (.zip (.zip64Field what)) else .ok (Bytes.littleAt data 0 8, data.drop 8)

/-- Takes the extra fields into account; only the one with long sizes counts. -/
def applyExtra (e : Entry) (fuel : Nat) (extra : Bytes) : Except Error Entry :=
  match fuel with
  | 0 => .ok e
  | fuel + 1 =>
    if extra.length < 4 then .ok e
    else do
      let id := Bytes.littleAt extra 0 2
      let length := Bytes.littleAt extra 2 2
      if extra.length < length + 4 then throw (.zip (.extraField id length))
      if id ≠ 1 then applyExtra e fuel (extra.drop (length + 4))
      else
        let data := Bytes.slice extra 4 length
        let (size, data) ←
          if e.size = longMark ∨ e.size = 0xFFFFFFFFFFFFFFFF then longNumber "File size" data else pure (e.size, data)
        let (compressedSize, data) ←
          if e.compressedSize = longMark then longNumber "Compress size" data else pure (e.compressedSize, data)
        let offset ← if e.offset = longMark then do
            let (n, _) ← longNumber "Header offset" data
            pure (n : Int)
          else pure e.offset
        applyExtra { e with size, compressedSize, offset } fuel (extra.drop (length + 4))

/-- Most recent version of the format that is understood, in tenths. -/
def versionLimit : Nat := 63

/-- The entries of the directory. Its size as written counts, not the number of entries. -/
def entries (shift : Int) (size : Nat) (done : List Entry) (total fuel : Nat) (rest : Bytes) : Except Error (List Entry) :=
  match fuel with
  | 0 => .ok done.reverse
  | fuel + 1 =>
    if size ≤ total then .ok done.reverse
    else do
      let head := rest.take 46
      if head.length ≠ 46 then throw (.zip .truncatedDirectory)
      if !entryMark.isPrefixOf head then throw (.zip .directoryMagic)
      let nameLength := Bytes.littleAt head 28 2
      let extraLength := Bytes.littleAt head 30 2
      let commentLength := Bytes.littleAt head 32 2
      let flags := Bytes.littleAt head 8 2
      let rest := rest.drop 46
      let fullName ← decodeName (hasFlag flags utf8Bit) (rest.take nameLength)
      let rest := rest.drop nameLength
      let version := Bytes.littleAt head 6 1
      if versionLimit < version then
        throw (.notSupported (Text.join ["zip file version ", Text.ofNat (version / 10), ".", Text.ofNat (version % 10)]))
      let entry : Entry :=
        { fullName, flags
          method := Bytes.littleAt head 10 2
          crc := Bytes.littleAt head 16 4
          compressedSize := Bytes.littleAt head 20 4
          size := Bytes.littleAt head 24 4
          attributes := Bytes.littleAt head 38 4
          offset := Bytes.littleAt head 42 4
          limit := 0 }
      let entry ← applyExtra entry (extraLength + 1) (rest.take extraLength)
      let entry := { entry with offset := entry.offset + shift }
      entries shift size (entry :: done) (total + 46 + nameLength + extraLength + commentLength) fuel
        (rest.drop (extraLength + commentLength))

/-- Gives each entry the start of what follows it: the directory after the last one, else the entry after it. -/
def withLimits (start : Int) (es : List Entry) : List Entry :=
  let order := (es.zipIdx.mergeSort fun a b => b.1.offset ≤ a.1.offset).map fun (e, index) => (index, e.offset)
  let limits := order.zip (start :: order.map (·.2))
  es.zipIdx.map fun (e, index) =>
    match limits.find? fun ((i, _), _) => i == index with
    | some (_, limit) => { e with limit }
    | none => e

/-- The entries of an archive. What stands before the archive in its file shifts all offsets. -/
def directory (bytes : Bytes) : Except Error (List Entry) := do
  let t ← trailer bytes
  let shift : Int := (t.location : Int) - t.size - t.offset - (if t.isLong then 76 else 0)
  let start : Int := t.offset + shift
  if start < 0 then throw (.zip .badDirectoryOffset)
  let data := Bytes.slice bytes start.toNat t.size
  return withLimits start (← entries shift t.size [] 0 (data.length + 2) data)

/-- The permissions as a listing shows them. -/
def modeText (mode : Nat) : Text :=
  let kind := mode / 4096 % 16
  let first : Char :=
    if kind = 8 then '-' else if kind = 4 then 'd' else if kind = 10 then 'l' else if kind = 6 then 'b'
    else if kind = 2 then 'c' else if kind = 1 then 'p' else if kind = 12 then 's' else '?'
  let bit (n : Nat) : Bool := hasFlag mode n
  let letter (n : Nat) (c : Char) : Char := if bit n then c else '-'
  let last (n special : Nat) (both only : Char) : Char :=
    if bit special then (if bit n then both else only) else letter n 'x'
  Text.ofChars [first, letter 8 'r', letter 7 'w', last 6 11 's' 'S', letter 5 'r', letter 4 'w', last 3 10 's' 'S',
    letter 2 'r', letter 1 'w', last 0 9 't' 'T']

/-- Names of compression methods. -/
def methodNames : List (Nat × String) :=
  [(1, "shrink"), (2, "reduce"), (3, "reduce"), (4, "reduce"), (5, "reduce"), (6, "implode"), (7, "tokenize"),
    (8, "deflate"), (9, "deflate64"), (10, "implode"), (12, "bzip2"), (14, "lzma"), (18, "terse"), (19, "lz77"),
    (97, "wavpack"), (98, "ppmd")]

/-- A description of an entry, for messages. -/
def Entry.describe (e : Entry) : Text :=
  let method : Text := match methodNames.find? (·.1 == e.method) with
    | some (_, name) => name
    | none => Text.ofNat e.method
  let high := e.attributes / 65536
  let low := e.attributes % 65536
  Text.join ["<ZipInfo filename=", e.name.quoted,
    if e.method = 0 then [] else " compress_type=" ++ method,
    if high = 0 then [] else " filemode=" ++ (modeText high).quoted,
    if low = 0 then [] else " external_attr=0x" ++ Text.hex 1 low,
    if e.isDirectory ∧ e.size = 0 then [] else " file_size=" ++ Text.ofNat e.size,
    if (!e.isDirectory ∨ e.compressedSize ≠ 0) ∧ (e.method ≠ 0 ∨ e.size ≠ e.compressedSize) then
      " compress_size=" ++ Text.ofNat e.compressedSize
    else [],
    ">"]

/-- What a member gives until it ends or fails. -/
structure Content where
  data : Bytes
  fault : Option Error

/-- Data is handed on in pieces of this size; a fault takes the piece along in which it shows. -/
def pieceSize : Nat := 65536

def Content.failing (data : Bytes) (e : Error) : Content := ⟨data.take ((data.length - 1) / pieceSize * pieceSize), some e⟩

def Content.checked (e : Entry) (data : Bytes) : Content :=
  let data := data.take e.size
  if (Crc32.ofBytes data).toNat = e.crc then ⟨data, none⟩ else .failing data (.zip (.checksum e.name))

/-- The data of a member that starts at a position. -/
def contentAt (bytes : Bytes) (e : Entry) (start : Nat) : Content :=
  let stored := Bytes.slice bytes start e.compressedSize
  let isShort := stored.length < e.compressedSize
  if e.method = 0 then
    if isShort ∧ stored.length < e.size then .failing stored (.truncatedStream [])
    else if stored.isEmpty ∧ e.compressedSize ≠ 0 then .failing [] (.truncatedStream [])
    else .checked e stored
  else
    let result := Inflate.run stored
    match result.ending with
    | .complete _ => .checked e result.output
    | .corrupt => .failing result.output .corruptStream
    | .truncated =>
      if isShort ∧ result.output.length < e.size ∨ stored.isEmpty ∧ e.compressedSize ≠ 0 then
        .failing result.output (.truncatedStream [])
      else .checked e result.output

/-- Opens a member: its header has to agree with the directory. -/
def openEntry (bytes : Bytes) (e : Entry) : Except Error Content := do
  if e.offset < 0 then throw (.system ⟨.invalid, none, none⟩)
  let offset := e.offset.toNat
  let head := Bytes.slice bytes offset 30
  if head.length ≠ 30 then throw (.zip .truncatedLocal)
  if !memberMark.isPrefixOf head then throw (.zip .localMagic)
  let nameBytes := Bytes.slice bytes (offset + 30) (Bytes.littleAt head 26 2)
  let afterName := offset + 30 + nameBytes.length
  let start := afterName + (Bytes.slice bytes afterName (Bytes.littleAt head 28 2)).length
  if hasFlag e.flags patchBit then throw (.notSupported "compressed patched data (flag bit 5)")
  if hasFlag e.flags strongBit then throw (.notSupported "strong encryption (flag bit 6)")
  let name ← decodeName (hasFlag (Bytes.littleAt head 6 2) utf8Bit) nameBytes
  if name ≠ e.fullName then throw (.zip (.nameMismatch e.fullName (quotedBytes nameBytes)))
  if e.limit < (start : Int) + e.compressedSize then throw (.zip (.overlap e.fullName))
  if hasFlag e.flags encryptedBit then throw (.encrypted e.describe)
  if e.method ≠ 0 ∧ e.method ≠ 8 then throw (.notSupported "That compression method is not supported")
  return contentAt bytes e start

/-- The last entry of a name is the one that counts. -/
def lastNamed? (es : List Entry) (name : Text) : Option Entry := es.reverse.find? (·.name = name)

end Prebuilt.Zip
