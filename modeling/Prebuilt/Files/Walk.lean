import Prebuilt.Files.Errno
import Prebuilt.Files.Path
import Prebuilt.Files.Tree
/-!
Where a path leads. Components are looked up one by one from a directory; a link on the way is followed, a link at the
end only on request. No more than forty links are followed for one path. A path that is opened to make a file must not end
in a slash, and neither must a link that it leads through at its end.
-/
set_option autoImplicit false

namespace Prebuilt

/-- Where a path leads: to something, or to a free name in a directory. -/
inductive Place where
  | taken (location : Location) (node : Node)
  | free (directory : Location) (name : Name)
  deriving DecidableEq, Repr

/-- What the end of a path is wanted for. -/
inductive Purpose where
  /-- To see what is there, be it a link. -/
  | entry
  /-- To see what is there, or what a link there leads to. -/
  | target
  /-- To open a file that is made if it is not there. -/
  | creation
  deriving DecidableEq, Repr

/-- How many links one path may lead through. -/
def linkLimit : Nat := 40

/-- How many bytes a name may have. -/
def nameLimit : Nat := 255

/-- How many bytes a path may have, the closing zero included. -/
def pathLimit : Nat := 4096

/-- Bytes of a name in the system's encoding. -/
def byteLength (name : Text) : Nat :=
  match Utf8.encodeName name with
  | .ok bytes => bytes.length
  | .error _ => 0

/-- The name as it is read back from the disk: stray bytes that form a character together become that character. -/
def Name.canonical (name : Text) : Name :=
  if name.isString then name
  else match Utf8.encodeName name with
    | .ok bytes => Utf8.decodeName bytes
    | .error _ => name

namespace FileSystem

def walk (fs : FileSystem) (purpose : Purpose) (links : Nat) (directory : Location) : List Text → Except Errno Place
  | [] => .ok (.taken directory ((fs.get? directory).getD (.directory 0o755)))
  | part :: rest =>
    if part.isEmpty ∨ part = "." then walk fs purpose links directory rest
    else if part = ".." then walk fs purpose links directory.dropLast rest
    else if purpose = .creation ∧ !rest.isEmpty ∧ rest.all (·.isEmpty) then .error .isDirectory
    else if nameLimit < byteLength part then .error .nameTooLong
    else
      let name := Name.canonical part
      let location := directory ++ [name]
      match fs.get? location with
      | none => if rest.isEmpty then .ok (.free directory name) else .error .noEntry
      | some (.directory mode) =>
        if rest.isEmpty then .ok (.taken location (.directory mode)) else walk fs purpose links location rest
      | some (.link target) =>
        if rest.isEmpty ∧ purpose = .entry then .ok (.taken location (.link target))
        else match links with
          | 0 => .error .tooManyLinks
          | links + 1 =>
            walk fs purpose links (if Path.isAbsolute target then [] else directory) (Text.splitOn '/' target ++ rest)
      | some node => if rest.isEmpty then .ok (.taken location node) else .error .notDirectory
  termination_by parts => (links, parts.length)

/-- Where relative paths start, as long as it is there. -/
def start (fs : FileSystem) (path : Text) : Except Errno Location :=
  if path.isEmpty then .error .noEntry
  else if pathLimit ≤ byteLength path then .error .nameTooLong
  else if Path.isAbsolute path then .ok []
  else match fs.get? fs.workingDirectory with
    | some (.directory _) => .ok fs.workingDirectory
    | _ => .error .noEntry

def place (fs : FileSystem) (purpose : Purpose) (path : Text) : Except Errno Place := do
  let directory ← fs.start path
  fs.walk purpose linkLimit directory (Text.splitOn '/' path)

/-- What stands at a path. -/
def status (fs : FileSystem) (path : Text) (followLast : Bool) : Except Errno (Location × Node) :=
  match fs.place (if followLast then .target else .entry) path with
  | .error e => .error e
  | .ok (.taken location node) => .ok (location, node)
  | .ok (.free _ _) => .error .noEntry

/-- A path whose last component is to be made or removed: the directory it lies in, the component, and whether slashes
follow it. The component is `none` where it is no name: a dot, two dots, or the root itself. -/
structure LastName where
  directory : Location
  name : Option Name
  /-- Two dots in place of a name. -/
  isParent : Bool
  slashed : Bool

def lastName (fs : FileSystem) (path : Text) : Except Errno LastName := do
  let start ← fs.start path
  let slashed := Path.endsInSlash path
  let parts := Text.splitOn '/' (Path.dropEndSlashes path)
  let last := parts.getLast?.getD []
  match ← fs.walk .target linkLimit start parts.dropLast with
  | .free _ _ => .error .noEntry
  | .taken directory (.directory _) =>
    if last.isEmpty ∨ last = "." then return ⟨directory, none, false, slashed⟩
    else if last = ".." then return ⟨directory, none, true, slashed⟩
    else return ⟨directory, some last, false, slashed⟩
  | .taken _ _ => .error .notDirectory

/-- The location a name stands for in a directory, and what is there. -/
def entry (fs : FileSystem) (directory : Location) (name : Name) : Except Errno (Location × Option Node) :=
  if nameLimit < byteLength name then .error .nameTooLong
  else
    let location := directory ++ [Name.canonical name]
    .ok (location, fs.get? location)

end FileSystem

end Prebuilt
