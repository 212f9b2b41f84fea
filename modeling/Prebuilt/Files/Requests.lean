import Prebuilt.Files.Walk
/-!
Requests to the file system. Each is atomic: it gives the new state, or an error and nothing has changed. Every request is
allowed; new directories and files lose the permission to write for all but their owner.
-/
set_option autoImplicit false

namespace Prebuilt.FileSystem

/-- Permissions of a directory that is made without more ado. -/
def directoryMode : Nat := 0o755

def fileMode : Nat := 0o644

def read (fs : FileSystem) (path : Text) : Except Errno Bytes :=
  match fs.status path true with
  | .error e => .error e
  | .ok (_, .directory _) => .error .isDirectory
  | .ok (_, .file _ _ content) => .ok content
  | .ok (_, _) => .ok []

/-- The free or taken location that a name for something new stands for. -/
def newEntry (fs : FileSystem) (path : Text) (slashAllowed : Bool) : Except Errno Location := do
  let last ← fs.lastName path
  match last.name with
  | none => .error .entryExists
  | some name =>
    match ← fs.entry last.directory name with
    | (_, some _) => .error .entryExists
    | (location, none) => if last.slashed && !slashAllowed then .error .noEntry else return location

/-- Directories in a directory whose group is handed down hand it down too. -/
def makeDirectory (fs : FileSystem) (path : Text) (mode : Nat) : Except Errno FileSystem := do
  let location ← fs.newEntry path true
  let above := (fs.get? location.dropLast).elim 0 Node.mode
  return fs.put location (.directory (mode ||| above &&& Node.groupBit))

def makeLink (fs : FileSystem) (target path : Text) : Except Errno FileSystem := do
  if target.isEmpty then throw .noEntry
  if pathLimit ≤ byteLength target then throw .nameTooLong
  let location ← fs.newEntry path false
  return fs.put location (.link target)

def makeSpecial (fs : FileSystem) (path : Text) : Except Errno FileSystem := do
  let location ← fs.newEntry path false
  return fs.addSpecial location fileMode

/-- A second name for what stands at the path; a link gets a second name itself. -/
def addName (fs : FileSystem) (path new : Text) : Except Errno FileSystem := do
  let (_, node) ← fs.status path false
  let location ← fs.newEntry new false
  if node.isDirectory then throw .notPermitted
  return fs.put location node

/-- Empties the file at a path or makes a new one. -/
def truncate (fs : FileSystem) (path : Text) : Except Errno FileSystem := do
  match ← fs.place .creation path with
  | .taken _ (.directory _) => throw .isDirectory
  | .taken location _ => return fs.update location (Node.withContent [])
  | .free directory name => return fs.addFile (directory ++ [name]) fileMode []

def append (fs : FileSystem) (location : Location) (content : Bytes) : FileSystem :=
  fs.update location fun node => match node with
    | .file number mode before => .file number mode (before ++ content)
    | node => node

def setMode (fs : FileSystem) (path : Text) (mode : Nat) : Except Errno FileSystem := do
  let (location, _) ← fs.status path true
  return fs.update location (Node.withMode (mode % 0o10000))

/-- Gives what stands at the path to an owner. -/
def setOwner (fs : FileSystem) (path : Text) (followLast : Bool) : Except Errno FileSystem := do
  let (location, _) ← fs.status path followLast
  return fs.update location Node.handedOver

/-- Removes one name that is no directory. -/
def unlink (fs : FileSystem) (path : Text) : Except Errno FileSystem := do
  let last ← fs.lastName path
  match last.name with
  | none => throw .isDirectory
  | some name =>
    match ← fs.entry last.directory name with
    | (_, none) => throw .noEntry
    | (_, some (.directory _)) => throw .isDirectory
    | (location, some _) => if last.slashed then throw .notDirectory else return fs.erase location

def removeDirectory (fs : FileSystem) (path : Text) : Except Errno FileSystem := do
  let last ← fs.lastName path
  match last.name with
  | none => throw (if last.isParent then .notEmpty else if last.directory.isEmpty then .busy else .invalid)
  | some name =>
    match ← fs.entry last.directory name with
    | (_, none) => throw .noEntry
    | (location, some (.directory _)) =>
      if fs.isEmptyDirectory location then return fs.erase location else throw .notEmpty
    | (_, some _) => throw .notDirectory

/-- Renames what stands at `source`, which takes the place of a file or of an empty directory at the target. -/
def rename (fs : FileSystem) (source target : Text) : Except Errno FileSystem := do
  let origin ← fs.lastName source
  let goal ← fs.lastName target
  match origin.name, goal.name with
  | some fromName, some toName =>
    match ← fs.entry origin.directory fromName with
    | (_, none) => throw .noEntry
    | (old, some node) =>
      let (new, there) ← fs.entry goal.directory toName
      if !node.isDirectory && (origin.slashed || goal.slashed) then throw .notDirectory
      if old.isPrefixOf goal.directory then throw .invalid
      if new.isPrefixOf origin.directory then throw .notEmpty
      match there with
      | none => return fs.move old new
      | some other =>
        if isSame (old, node) (new, other) then return fs
        if node.isDirectory then
          if !other.isDirectory then throw .notDirectory
          if !fs.isEmptyDirectory new then throw .notEmpty
        else if other.isDirectory then throw .isDirectory
        return fs.move old new
  | _, _ => throw .busy

/-- Names in a directory. -/
def list (fs : FileSystem) (path : Text) : Except Errno (List Name) := do
  match ← fs.status path true with
  | (location, .directory _) => return fs.children location
  | _ => throw .notDirectory

/-- Whether the owner of everything may execute what stands at a path: any execute bit will do. -/
def mayExecute (fs : FileSystem) (path : Text) : Bool :=
  match fs.status path true with
  | .ok (_, .directory _) => true
  | .ok (_, node) => node.mode &&& 0o111 != 0
  | .error _ => false

def isDirectory (fs : FileSystem) (path : Text) : Bool :=
  match fs.status path true with
  | .ok (_, node) => node.isDirectory
  | .error _ => false

def isLink (fs : FileSystem) (path : Text) : Bool :=
  match fs.status path false with
  | .ok (_, node) => node.isLink
  | .error _ => false

/-- Whether a path leads to something, links followed. -/
def hasTarget (fs : FileSystem) (path : Text) : Bool :=
  match fs.status path true with
  | .ok _ => true
  | .error _ => false

/-- Whether something stands at a path, be it a link that leads nowhere. -/
def hasEntry (fs : FileSystem) (path : Text) : Bool :=
  match fs.status path false with
  | .ok _ => true
  | .error _ => false

/-- Removes a directory and all beneath it, as far as that is possible: through a link with a closing slash only what
is beneath goes, and a path that is no directory stays. -/
def removeTree (fs : FileSystem) (path : Text) : FileSystem :=
  match fs.status path false with
  | .ok (location, .directory _) =>
    let emptied := fs.eraseBelow location
    match emptied.removeDirectory path with
    | .ok removed => removed
    | .error _ => emptied
  | _ => fs

end Prebuilt.FileSystem
