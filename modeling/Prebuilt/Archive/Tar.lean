import Prebuilt.Archive.Source
import Prebuilt.Files.Path
/-!
The members of a tar archive. A header takes one block of 512 bytes and is followed by its data in whole blocks. Members
whose names or sizes do not fit into a header have them in a header of their own before it.
-/
set_option autoImplicit false

namespace Prebuilt.Tar

def blockSize : Nat := 512

inductive Kind where
  | file
  | directory
  | symlink
  | hardLink
  | fifo
  | character
  | block
  deriving DecidableEq, Repr

/-- A time of change in seconds. -/
inductive Stamp where
  | whole (n : Int)
  | real (x : Double)
  deriving DecidableEq, Repr

structure Member where
  name : Text
  kind : Kind
  mode : Int
  user : Int
  group : Int
  userName : Text
  groupName : Text
  size : Int
  time : Stamp
  linkName : Text
  /-- Where the data starts. -/
  start : Nat
  /-- Parts of a file with gaps, each as position and length. -/
  parts : Option (List (Int × Int))
  deriving DecidableEq, Repr

inductive HeaderFault where
  | missing
  | truncated
  | endMark
  | invalid
  | checksum
  /-- In place of the header that another one announces. -/
  | subsequent (fault : TarFault)
  deriving DecidableEq, Repr

def HeaderFault.toTarFault : HeaderFault → TarFault
  | .missing => .noSecondHeader
  | .truncated => .truncatedHeader
  | .endMark => .endMarkAfterHeader
  | .invalid => .badHeader
  | .checksum => .badChecksum
  | .subsequent fault => fault

inductive Fault where
  | header (fault : HeaderFault)
  | other (error : Error)

structure Scan where
  source : Source
  /-- Where the next header is expected. -/
  offset : Int
  /-- Records that hold for all members from here on. -/
  records : Table Text

abbrev Scanner := ExceptT Fault (StateM Scan)

/-- Octal digits with an optional sign and an optional mark `0o`, single underscores between digits. -/
def octal? (t : Text) : Option Int :=
  let (negative, t) := leadingSign t
  let t := match t with
    | .char '0' :: .char 'o' :: .char '_' :: r => r
    | .char '0' :: .char 'O' :: .char '_' :: r => r
    | .char '0' :: .char 'o' :: r => r
    | .char '0' :: .char 'O' :: r => r
    | t => t
  match Double.dropUnderscores? none t with
  | none => none
  | some [] => none
  | some ds =>
    if ds.all fun c => 48 ≤ c.value && c.value < 56 then
      let n : Int := ds.foldl (fun n c => 8 * n + (c.value - 48)) 0
      some (if negative then -n else n)
    else none

/-- A number of a header: octal text, or after a mark the bytes of the number itself. -/
def number? (field : Bytes) : Option Int :=
  match field with
  | [] => some 0
  | mark :: rest =>
    if mark = 0x80 then some (Bytes.big rest)
    else if mark = 0xff then some ((Bytes.big rest : Int) - Nat.pow 256 rest.length)
    else
      let ascii := Bytes.untilZero field
      if ascii.any (0x80 ≤ ·) then none
      else
        let t := Text.strip (ascii.map fun b => CodePoint.ofValue b.toNat)
        if t.isEmpty then some 0 else octal? t

def nameField (field : Bytes) : Text := Utf8.decodeName (Bytes.untilZero field)

/-- The sum of a header's bytes with the checksum itself taken for blanks, each byte a number below 256 or a signed one. -/
def checksums (header : Bytes) : Int × Int :=
  let bytes := header.take 148 ++ header.drop 156
  let sum : Int := bytes.foldl (fun n b => n + (b.toNat : Int)) 256
  let high : Int := (bytes.filter (0x80 ≤ ·)).length
  (sum, sum - 256 * high)

/-- What a header says before the headers around it are taken into account. -/
structure Header where
  member : Member
  flag : Char
  /-- Parts of a file with gaps, whether more of them follow, and the size of the whole. -/
  gaps : List (Int × Int) × Bool × Option Int

def kindOf (flag : Char) (name : Text) : Kind :=
  if flag = '5' ∨ (flag = '\x00' ∧ name.getLast? = some '/') then .directory
  else if flag = '1' then .hardLink
  else if flag = '2' then .symlink
  else if flag = '3' then .character
  else if flag = '4' then .block
  else if flag = '6' then .fifo
  else .file

/-- Pairs of position and length, up to one that is no pair of numbers. -/
def gapsAt (bytes : Bytes) (position : Nat) : Nat → List (Int × Int)
  | 0 => []
  | n + 1 =>
    match number? (Bytes.slice bytes position 12), number? (Bytes.slice bytes (position + 12) 12) with
    | some start, some length => (start, length) :: gapsAt bytes (position + 24) n
    | _, _ => []

def Header.ofBlock (block : Bytes) : Except HeaderFault Header := do
  if block.isEmpty then throw .missing
  if block.length ≠ blockSize then throw .truncated
  if block.all (· == 0) then throw .endMark
  let field (start length : Nat) : Except HeaderFault Int :=
    match number? (Bytes.slice block start length) with
    | some n => .ok n
    | none => .error .invalid
  let checksum ← field 148 8
  let (unsigned, signed) := checksums block
  if checksum ≠ unsigned ∧ checksum ≠ signed then throw .checksum
  let name := nameField (Bytes.slice block 0 100)
  let mode ← field 100 8
  let user ← field 108 8
  let group ← field 116 8
  let size ← field 124 12
  let time ← field 136 12
  let _ ← field 329 8
  let _ ← field 337 8
  let above := nameField (Bytes.slice block 345 155)
  let flag := Char.ofNat ((block.getD 156 0).toNat)
  let kind := kindOf flag name
  let gaps ← if flag = 'S' then do
      let whole ← field 483 12
      pure (gapsAt block 386 4, block.getD 482 0 != 0, some whole)
    else pure ([], false, none)
  let name := if kind = .directory then Path.dropEndSlashes name else name
  let isGnu := flag = 'L' ∨ flag = 'K' ∨ flag = 'S'
  let name := if above.isEmpty ∨ isGnu then name else above ++ "/" ++ name
  return {
    member := {
      name, kind, mode, user, group, size
      userName := nameField (Bytes.slice block 265 32)
      groupName := nameField (Bytes.slice block 297 32)
      time := .whole time
      linkName := nameField (Bytes.slice block 157 100)
      start := 0
      parts := none }
    flag
    gaps }

def read (n : Nat) : Scanner Bytes := do
  let s ← get
  match s.source.read n with
  | .ok (data, source) =>
    set { s with source }
    return data
  | .error e => throw (.other e)

def tell : Scanner Nat := do
  let s ← get
  let (position, source) := s.source.tell
  set { s with source }
  return position

/-- No piece of memory is as large as this. -/
def memoryLimit : Int := 0x800000000000

/-- The size of whole blocks that hold so many bytes. A negative count is rounded towards zero by the same rule. -/
def inBlocks (count : Int) : Int :=
  let whole := Int.fdiv count blockSize
  (if Int.fmod count blockSize = 0 then whole else whole + 1) * blockSize

def readBlocks (count : Int) : Scanner Bytes := do
  let n := inBlocks count
  if n < -Source.positionLimit ∨ Source.positionLimit ≤ n then
    throw (.other (.tooLarge "cannot fit 'int' into an index-sized integer"))
  if n < 0 then throw (.other (.value .negativeLength))
  if memoryLimit ≤ n then throw (.other .outOfMemory)
  read n.toNat

def wholeNumber (t : Text) : Scanner Int :=
  match wholeNumber? t with
  | some n => return n
  | none => throw (.other (.value (.notANumber t.quoted)))

/-- Takes one record into account. Numbers that are none count as zero. -/
def applyRecord (member : Member) (key value : Text) : Scanner Member := do
  if key = "GNU.sparse.name" then return { member with name := value }
  else if key = "GNU.sparse.size" ∨ key = "GNU.sparse.realsize" then return { member with size := ← wholeNumber value }
  else if key = "path" then return { member with name := Path.dropEndSlashes value }
  else if key = "linkpath" then return { member with linkName := value }
  else if key = "size" then return { member with size := (wholeNumber? value).getD 0 }
  else if key = "uid" then return { member with user := (wholeNumber? value).getD 0 }
  else if key = "gid" then return { member with group := (wholeNumber? value).getD 0 }
  else if key = "uname" then return { member with userName := value }
  else if key = "gname" then return { member with groupName := value }
  else if key = "mtime" then
    return { member with time := match Double.parse? value with
      | some x => .real x
      | none => .whole 0 }
  else return member

def applyRecords (member : Member) (records : Table Text) : Scanner Member :=
  records.foldlM (fun member (key, value) => applyRecord member key value) member

/-- Whether data follows the header. -/
def hasData (member : Member) : Bool := member.kind == .file

def plainMember (header : Header) : Scanner Member := do
  let start ← tell
  let member := { header.member with start }
  let offset : Int := if hasData member then start + inBlocks member.size else start
  modify fun s => { s with offset }
  let member ← applyRecords member (← get).records
  return if member.kind = .directory then { member with name := Path.dropEndSlashes member.name } else member

/-- More parts of a file with gaps, in blocks of 21. -/
def moreGaps (done : List (Int × Int)) : Nat → Scanner (List (Int × Int))
  | 0 => return done
  | fuel + 1 => do
    let block ← read blockSize
    let found := (gapsAt block 0 21).filter fun (start, length) => start ≠ 0 ∧ length ≠ 0
    if block.getD 504 0 = 0 then return done ++ found else moreGaps (done ++ found) fuel

def gappedMember (header : Header) : Scanner Member := do
  let (parts, more, whole) := header.gaps
  let parts ← if more then moreGaps parts ((← get).source.inputLength + 1) else pure parts
  let start ← tell
  modify fun s => { s with offset := start + inBlocks header.member.size }
  return { header.member with start, parts := some parts, size := whole.getD header.member.size }

/-- The records of an extended header: length, blank, key, equals sign, value, line end. -/
def recordsOf (fuel : Nat) (bytes : Bytes) : Option (List (Bytes × Bytes)) :=
  match fuel with
  | 0 => some []
  | fuel + 1 =>
    if bytes.isEmpty ∨ bytes.head? = some 0 then some []
    else
      let digits := (bytes.takeWhile fun b => 48 ≤ b && b ≤ 57).take 20
      let length := digits.foldl (fun n b => 10 * n + (b.toNat - 48)) 0
      if digits.isEmpty ∨ bytes[digits.length]? ≠ some 32 ∨ length < 5 ∨ bytes.length < length then none
      else
        let content := (bytes.take (length - 1)).drop (digits.length + 1)
        let key := content.takeWhile (· != 61)
        if key.isEmpty ∨ key.length = content.length ∨ bytes[length - 1]? ≠ some 10 then none
        else (recordsOf fuel (bytes.drop length)).map ((key, content.drop (key.length + 1)) :: ·)

/-- Numbers in pairs. -/
def pairUp {α : Type} : List α → List (α × α)
  | a :: b :: r => (a, b) :: pairUp r
  | _ => []

def gapNumber (value : Bytes) : Scanner Int :=
  match wholeNumber? (Utf8.decodeName value) with
  | some n => return n
  | none => throw (.header .invalid)

/-- The number that a line of plain bytes stands for. -/
def lineNumber (line : Bytes) : Scanner Int :=
  let t : Text := line.map fun b => if (9 ≤ b && b ≤ 13) || (32 ≤ b && b < 127) then .ofValue b.toNat else .char '\uFFFD'
  match wholeNumber? t with
  | some n => return n
  | none => throw (.other (.value (.notANumber (quotedBytes line))))

/-- Lines of numbers at the start of the data: how many pairs there are, and the pairs. -/
def gapLines (count : Option Nat) (rest : Bytes) (done : List Int) : Nat → Scanner (List Int)
  | 0 => return done
  | fuel + 1 => do
    if (count.map (2 * ·)).any (· ≤ done.length) then return done
    let rest ← if count.isSome && !rest.contains 10 then (rest ++ ·) <$> read blockSize else pure rest
    if !rest.contains 10 then throw (.other (.value .noLineEnd))
    let line := rest.takeWhile (· != 10)
    let n ← lineNumber line
    let rest := rest.drop (line.length + 1)
    match count with
    | none => gapLines (some n.toNat) rest done fuel
    | some _ => gapLines count rest (done ++ [n]) fuel

/-- The parts of a file with gaps, where records tell them; there are three ways to do so. -/
def gapsOfRecords (member : Member) (raw : List (Bytes × Bytes)) (records : Table Text) : Scanner Member := do
  match Table.get? "GNU.sparse.map" records with
  | some map =>
    let numbers ← (Text.splitOn ',' map).mapM wholeNumber
    return { member with parts := some (pairUp numbers) }
  | none =>
    if (Table.get? "GNU.sparse.size" records).isSome then
      let valuesOf (key : Text) := raw.filterMap fun (k, v) => if Utf8.decodeName k = key then some v else none
      let starts ← (valuesOf "GNU.sparse.offset").mapM gapNumber
      let lengths ← (valuesOf "GNU.sparse.numbytes").mapM gapNumber
      return { member with parts := some (starts.zip lengths) }
    else if Table.get? "GNU.sparse.major" records = some "1" ∧ Table.get? "GNU.sparse.minor" records = some "0" then
      let first ← read blockSize
      let numbers ← gapLines none first [] ((← get).source.inputLength + 2)
      let start ← tell
      return { member with parts := some (pairUp numbers), start }
    else return member

/-- The header at the current position with all that belongs to it; `fuel` bounds how many headers announce one another. -/
def member : Nat → Scanner Member
  | 0 => throw (.header .truncated)
  | fuel + 1 => do
    let block ← read blockSize
    match Header.ofBlock block with
    | .error fault => throw (.header fault)
    | .ok header =>
      -- Finding the position may give up what was read ahead.
      let _ ← tell
      if header.flag = 'L' ∨ header.flag = 'K' then do
        let data ← readBlocks header.member.size
        let next ← announced fuel
        let long := nameField data
        if header.flag = 'K' then return { next with linkName := long }
        else return { next with name := if next.kind = .directory then dropOneSlash long else long }
      else if header.flag = 'S' then gappedMember header
      else if header.flag = 'x' ∨ header.flag = 'g' ∨ header.flag = 'X' then do
        let data ← readBlocks header.member.size
        match recordsOf (data.length + 1) data with
        | none => throw (.header .invalid)
        | some raw =>
          let records := raw.foldl (fun t (k, v) => Table.put (Utf8.decodeName k) (Utf8.decodeName v) t) (← get).records
          if header.flag = 'g' then modify fun s => { s with records }
          let next ← announced fuel
          let next ← gapsOfRecords next raw records
          if header.flag = 'g' then return next
          else
            let next ← applyRecords next records
            if (Table.get? "size" records).isSome then
              let offset : Int := if hasData next then next.start + inBlocks next.size else next.start
              modify fun s => { s with offset }
            return next
      else plainMember header
where
  /-- The member of a header that another one announces. -/
  announced (fuel : Nat) : Scanner Member := do
    match (member fuel).run (← get) with
    | (.ok m, s) =>
      set s
      return m
    | (.error (.header fault), s) =>
      set s
      throw (.header (.subsequent fault.toTarFault))
    | (.error e, s) =>
      set s
      throw e
  dropOneSlash (t : Text) : Text := if t.getLast? = some '/' then t.dropLast else t

/-- The next member; none at the end of the archive. Only at its very start is a header that is none a fault. -/
def next (fuel : Nat) (s : Scan) : Except Error (Option Member) × Scan :=
  let (position, source) := s.source.tell
  let s := { s with source }
  let advanced : Except Error Source :=
    if s.offset = (position : Int) then .ok s.source
    else do
      let source ← s.source.seekTo (s.offset - 1)
      let (data, source) ← source.read 1
      if data.isEmpty then throw (.tar .endOfData) else return source
  if s.offset ≠ (position : Int) ∧ s.offset = 0 then (.ok none, s)
  else match advanced with
    | .error e => (.error e, s)
    | .ok source =>
      match (member fuel).run { s with source } with
      | (.ok m, s) => (.ok (some m), s)
      | (.error (.header .missing), s) => (if s.offset = 0 then .error (.tar .empty) else .ok none, s)
      | (.error (.header .truncated), s) => (if s.offset = 0 then .error (.tar .truncatedHeader) else .ok none, s)
      | (.error (.header .invalid), s) => (if s.offset = 0 then .error (.tar .badHeader) else .ok none, s)
      | (.error (.header .checksum), s) => (if s.offset = 0 then .error (.tar .badChecksum) else .ok none, s)
      | (.error (.header .endMark), s) => (.ok none, s)
      | (.error (.header (.subsequent fault)), s) => (.error (.tar fault), s)
      | (.error (.other .corruptStream), s) => (.error (.tar .brokenStream), s)
      | (.error (.other e), s) => (.error e, s)

def rest (fuel : Nat) (done : List Member) : Nat → Scan → Except Error (List Member × Scan)
  | 0, s => .ok (done.reverse, s)
  | more + 1, s =>
    match next fuel s with
    | (.error e, _) => .error e
    | (.ok none, s) => .ok (done.reverse, s)
    | (.ok (some m), s) => rest fuel (m :: done) more s

/-- The members of an archive and the state in which reading it ended. A failed read at the start of a compressed archive
means that it is not compressed so. -/
def members (compressed : Bool) (content : Bytes) : Except Error (List Member × Source) := do
  let scan : Scan := ⟨.ofBytes compressed content, 0, []⟩
  let fuel := 3 * content.length + 10
  match next fuel scan with
  | (.error e, _) => throw (if compressed && e.isSystem then .tar .notGzip else e)
  | (.ok none, s) => return ([], s.source)
  | (.ok (some m), s) =>
    let (members, s) ← rest fuel [m] fuel s
    return (members, s.source)

end Prebuilt.Tar
