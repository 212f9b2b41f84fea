import Prebuilt.Text.Utf8
/-!
The contents of a file system: what stands at each location. A location is the list of names from the root down, free of
links and dots. Two names of one file share its number, and a write through one of them shows under both.
-/
set_option autoImplicit false

namespace Prebuilt

abbrev Name := Text

abbrev Location := List Name

inductive Node where
  | directory (mode : Nat)
  | file (number mode : Nat) (content : Bytes)
  | link (target : Text)
  /-- Neither file nor directory nor link. -/
  | special (number mode : Nat)
  deriving DecidableEq, Repr

namespace Node

def isDirectory : Node → Bool
  | .directory _ => true
  | _ => false

def isFile : Node → Bool
  | .file _ _ _ => true
  | _ => false

def isLink : Node → Bool
  | .link _ => true
  | _ => false

/-- The number that all names of a file share. -/
def number? : Node → Option Nat
  | .file number _ _ => some number
  | .special number _ => some number
  | _ => none

/-- Permission bits; those of a link play no part. -/
def mode : Node → Nat
  | .directory mode => mode
  | .file _ mode _ => mode
  | .link _ => 0o777
  | .special _ mode => mode

/-- How many bytes a file holds; all else holds none. -/
def size : Node → Nat
  | .file _ _ content => content.length
  | _ => 0

def withMode (mode : Nat) : Node → Node
  | .directory _ => .directory mode
  | .file number _ content => .file number mode content
  | .link target => .link target
  | .special number _ => .special number mode

def withContent (content : Bytes) : Node → Node
  | .file number mode _ => .file number mode content
  | node => node

/-- A program with this bit runs as its owner. -/
def ownerBit : Nat := 0o4000

/-- A program with this bit runs as its group, and a directory with it hands its group down. -/
def groupBit : Nat := 0o2000

/-- A program that changes hands no longer runs as its owner, nor, if its group may execute it, as its group. -/
def handedOver (node : Node) : Node :=
  if node.isDirectory then node
  else node.withMode (node.mode &&& (0o7777 ^^^ (ownerBit ||| if node.mode &&& 0o010 = 0 then 0 else groupBit)))

end Node

structure FileSystem where
  nodes : List (Location × Node)
  /-- No file has this number or a higher one. -/
  nextNumber : Nat
  /-- Relative paths start here. -/
  workingDirectory : Location

namespace FileSystem

def empty : FileSystem := ⟨[], 0, []⟩

/-- The root is always a directory. -/
def get? (fs : FileSystem) (location : Location) : Option Node :=
  if location.isEmpty then some (.directory 0o755)
  else (fs.nodes.find? (·.1 = location)).map (·.2)

def erase (fs : FileSystem) (location : Location) : FileSystem :=
  { fs with nodes := fs.nodes.filter (·.1 ≠ location) }

/-- Removes everything beneath the location. -/
def eraseBelow (fs : FileSystem) (location : Location) : FileSystem :=
  { fs with nodes := fs.nodes.filter fun (l, _) => !(location.isPrefixOf l && l != location) }

def put (fs : FileSystem) (location : Location) (node : Node) : FileSystem :=
  { fs with nodes := (fs.erase location).nodes ++ [(location, node)] }

def addFile (fs : FileSystem) (location : Location) (mode : Nat) (content : Bytes) : FileSystem :=
  { fs.put location (.file fs.nextNumber mode content) with nextNumber := fs.nextNumber + 1 }

def addSpecial (fs : FileSystem) (location : Location) (mode : Nat) : FileSystem :=
  { fs.put location (.special fs.nextNumber mode) with nextNumber := fs.nextNumber + 1 }

/-- Whether two nodes at two locations are the same object. -/
def isSame (a : Location × Node) (b : Location × Node) : Bool :=
  a.1 == b.1 || (a.2.number?.isSome && a.2.number? == b.2.number?)

/-- Changes the object at the location, under all its names. -/
def update (fs : FileSystem) (location : Location) (change : Node → Node) : FileSystem :=
  match fs.get? location with
  | none => fs
  | some node =>
    { fs with nodes := fs.nodes.map fun (l, n) => if isSame (location, node) (l, n) then (l, change n) else (l, n) }

def moveLocation (source target l : Location) : Location :=
  if source.isPrefixOf l then target ++ l.drop source.length else l

/-- Moves a node and all beneath it; what stood at the target is gone. -/
def move (fs : FileSystem) (source target : Location) : FileSystem :=
  { fs with
    nodes := ((fs.erase target).eraseBelow target).nodes.map fun (l, n) => (moveLocation source target l, n)
    workingDirectory := moveLocation source target fs.workingDirectory }

def children (fs : FileSystem) (location : Location) : List Name :=
  fs.nodes.filterMap fun (l, _) => if l.dropLast = location then l.getLast? else none

def isEmptyDirectory (fs : FileSystem) (location : Location) : Bool := (fs.children location).isEmpty

end FileSystem

end Prebuilt
