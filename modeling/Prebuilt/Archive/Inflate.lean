import Prebuilt.Archive.Bytes
/-!
Decompression of deflate streams: blocks of literals and of copies from earlier output, under Huffman codes that are fixed
or sent along. A stream ends after its last block, where the bytes stop, or where they break a rule; the output up to
there counts in each case.
-/
set_option autoImplicit false

namespace Prebuilt.Inflate

inductive Stop where
  | truncated
  | corrupt
  deriving DecidableEq, Repr

structure State where
  input : ByteArray
  /-- Position of the next bit. -/
  bit : Nat
  output : ByteArray

abbrev Decoder := ExceptT Stop (StateM State)

def nextBit : Decoder Nat := do
  let s ← get
  match s.input[s.bit / 8]? with
  | none => throw .truncated
  | some byte =>
    set { s with bit := s.bit + 1 }
    return (byte.toNat >>> (s.bit % 8)) % 2

/-- A number of so many bits, least significant first. All of them have to be there. -/
def bits : Nat → Decoder Nat
  | 0 => return 0
  | n + 1 => do
    let low ← nextBit
    let high ← bits n
    return low + 2 * high

def literal (b : UInt8) : Decoder Unit := modify fun s => { s with output := s.output.push b }

/-- A canonical code: how many codewords each length has, and the symbols in the order of their codewords. -/
structure Code where
  counts : Array Nat
  symbols : Array Nat

def maxLength : Nat := 15

namespace Code

def ofLengths (lengths : List Nat) : Code :=
  let counts := lengths.foldl (fun (a : Array Nat) n => a.modify n (· + 1)) (Array.replicate (maxLength + 1) 0)
  let ofLength (n : Nat) : List Nat := lengths.zipIdx.filterMap fun (l, symbol) => if l = n then some symbol else none
  ⟨counts, ((List.range maxLength).flatMap fun n => ofLength (n + 1)).toArray⟩

/-- Codewords that are left over, in units of the longest; negative if there are more than fit. -/
def left (c : Code) : Int :=
  (List.range maxLength).foldl (fun room n => 2 * room - (c.counts.getD (n + 1) 0 : Int)) 1

/-- More codewords than fit, at some length. -/
def isOverfull (c : Code) : Bool :=
  ((List.range maxLength).foldl (fun (state : Int × Bool) n =>
    let room := 2 * state.1 - (c.counts.getD (n + 1) 0 : Int)
    (room, state.2 || room < 0)) (1, false)).2

/-- Length of the longest codeword, at least one. -/
def depth (c : Code) : Nat :=
  (List.range maxLength).foldl (fun d n => if c.counts.getD (n + 1) 0 = 0 then d else n + 1) 1

/-- Codewords have to fill the code; only a single one of one bit, or none at all, may stand alone. -/
def isUsable (c : Code) (singleAllowed : Bool) : Bool :=
  if c.symbols.isEmpty then true
  else if c.isOverfull then false
  else c.left = 0 || (singleAllowed && c.depth = 1)

/-- Reads a codeword bit by bit: `first` is the first codeword of the length, `index` the place of its symbol. -/
def readFrom (c : Code) (length code first index : Nat) : Nat → Decoder Nat
  | 0 => throw .corrupt
  | fuel + 1 => do
    let code := code + (← nextBit)
    let count := c.counts.getD length 0
    if code < first + count then return c.symbols.getD (index + (code - first)) 0
    else readFrom c (length + 1) (2 * code) (2 * (first + count)) (index + count) fuel

def read (c : Code) : Decoder Nat := c.readFrom 1 0 0 0 c.depth

end Code

/-- Least length and count of extra bits for the symbols from 257 on. -/
def lengthSymbols : List (Nat × Nat) :=
  [(3, 0), (4, 0), (5, 0), (6, 0), (7, 0), (8, 0), (9, 0), (10, 0), (11, 1), (13, 1), (15, 1), (17, 1), (19, 2), (23, 2),
    (27, 2), (31, 2), (35, 3), (43, 3), (51, 3), (59, 3), (67, 4), (83, 4), (99, 4), (115, 4), (131, 5), (163, 5),
    (195, 5), (227, 5), (258, 0)]

def distanceSymbols : List (Nat × Nat) :=
  [(1, 0), (2, 0), (3, 0), (4, 0), (5, 1), (7, 1), (9, 2), (13, 2), (17, 3), (25, 3), (33, 4), (49, 4), (65, 5), (97, 5),
    (129, 6), (193, 6), (257, 7), (385, 7), (513, 8), (769, 8), (1025, 9), (1537, 9), (2049, 10), (3073, 10), (4097, 11),
    (6145, 11), (8193, 12), (12289, 12), (16385, 13), (24577, 13)]

/-- A value from its symbol's least value and extra bits. -/
def valueOf (table : List (Nat × Nat)) (symbol : Nat) : Decoder Nat :=
  match table[symbol]? with
  | none => throw .corrupt
  | some (least, extra) => do return least + (← bits extra)

def copyFrom (distance : Nat) : Nat → Decoder Unit
  | 0 => return ()
  | n + 1 => do
    let s ← get
    literal (s.output.data.getD (s.output.size - distance) 0)
    copyFrom distance n

/-- The symbols of one block up to its end mark. -/
def symbols (lengths distances : Code) : Nat → Decoder Unit
  | 0 => throw .truncated
  | fuel + 1 => do
    let symbol ← lengths.read
    if symbol < 256 then
      literal (UInt8.ofNat symbol)
      symbols lengths distances fuel
    else if symbol = 256 then return ()
    else
      let length ← valueOf lengthSymbols (symbol - 257)
      let distance ← valueOf distanceSymbols (← distances.read)
      if (← get).output.size < distance then throw .corrupt
      copyFrom distance length
      symbols lengths distances fuel

def stored : Nat → Decoder Unit
  | 0 => return ()
  | n + 1 => do
    literal (UInt8.ofNat (← bits 8))
    stored n

def fixedLengths : Code :=
  .ofLengths (List.replicate 144 8 ++ List.replicate 112 9 ++ List.replicate 24 7 ++ List.replicate 8 8)

def fixedDistances : Code := .ofLengths (List.replicate 32 5)

/-- The order in which the lengths of the code for code lengths are sent. -/
def codeLengthOrder : List Nat := [16, 17, 18, 0, 8, 7, 9, 6, 10, 5, 11, 4, 12, 3, 13, 2, 14, 1, 15]

/-- Code lengths, last first, until there are `count`; three symbols stand for repetitions. -/
def codeLengths (code : Code) (count : Nat) (done : List Nat) : Nat → Decoder (List Nat)
  | 0 => return done
  | fuel + 1 => do
    if count ≤ done.length then return done
    let symbol ← if code.symbols.isEmpty then (do let _ ← nextBit; pure 0) else code.read
    if symbol < 16 then codeLengths code count (symbol :: done) fuel
    else
      let times ← if symbol = 16 then (3 + ·) <$> bits 2 else if symbol = 17 then (3 + ·) <$> bits 3 else (11 + ·) <$> bits 7
      if symbol = 16 && done.isEmpty then throw .corrupt
      if count < done.length + times then throw .corrupt
      let repeated := if symbol = 16 then done.headD 0 else 0
      codeLengths code count (List.replicate times repeated ++ done) fuel

def threeBits : Nat → Decoder (List Nat)
  | 0 => return []
  | n + 1 => do
    let x ← bits 3
    return x :: (← threeBits n)

/-- The two codes that a block brings along. -/
def dynamicCodes : Decoder (Code × Code) := do
  let sizes ← bits 14
  let lengthCount := sizes % 32 + 257
  let distanceCount := sizes / 32 % 32 + 1
  let codeCount := sizes / 1024 + 4
  if 286 < lengthCount || 30 < distanceCount then throw .corrupt
  let sent ← threeBits codeCount
  let pairs := codeLengthOrder.zip sent
  let lengths := (List.range 19).map fun symbol => ((pairs.find? (·.1 == symbol)).map (·.2)).getD 0
  let code := Code.ofLengths lengths
  if !code.isUsable false then throw .corrupt
  let count := lengthCount + distanceCount
  let all := (← codeLengths code count [] (count + 1)).reverse
  if all.getD 256 0 = 0 then throw .corrupt
  let literals := Code.ofLengths (all.take lengthCount)
  let distances := Code.ofLengths (all.drop lengthCount)
  if !literals.isUsable true || !distances.isUsable true then throw .corrupt
  return (literals, distances)

/-- Blocks up to the last one. Each takes three bits at least, so their number is bounded by that of the bits. -/
def blocks : Nat → Decoder Unit
  | 0 => throw .truncated
  | fuel + 1 => do
    let head ← bits 3
    let kind := head / 2
    if kind = 0 then
      modify fun s => { s with bit := (s.bit + 7) / 8 * 8 }
      let sizes ← bits 32
      let length := sizes % 65536
      if length + sizes / 65536 != 65535 then throw .corrupt
      stored length
    else if kind = 1 then
      symbols fixedLengths fixedDistances (8 * (← get).input.size + 1)
    else if kind = 2 then
      let (lengths, distances) ← dynamicCodes
      symbols lengths distances (8 * (← get).input.size + 1)
    else throw .corrupt
    if head % 2 = 1 then return ()
    else blocks fuel

inductive Ending where
  /-- The stream is complete; so many bytes belong to it. -/
  | complete (used : Nat)
  | truncated
  | corrupt
  deriving DecidableEq, Repr

structure Result where
  output : Bytes
  ending : Ending
  deriving DecidableEq, Repr

def run (input : Bytes) : Result :=
  let input : ByteArray := ⟨input.toArray⟩
  match (blocks (8 * input.size + 1)).run ⟨input, 0, .empty⟩ with
  | (.ok _, s) => ⟨s.output.data.toList, .complete ((s.bit + 7) / 8)⟩
  | (.error .truncated, s) => ⟨s.output.data.toList, .truncated⟩
  | (.error .corrupt, s) => ⟨s.output.data.toList, .corrupt⟩

end Prebuilt.Inflate
