import Prebuilt.Files.Glob
import Prebuilt.Http.Server
import Prebuilt.Log
import Prebuilt.Platform
import Prebuilt.Settings
import Prebuilt.Text.Lines
/-!
The world a program acts on: host, environment, file system, servers, and the record of what was asked of them. An action
gives a value or an error, and what it did before an error stays done.
-/
set_option autoImplicit false

namespace Prebuilt

/-- How a child process ends. -/
inductive ChildOutcome where
  | exit (code : Int)
  | interrupted
  | refused (errno : Errno)
  deriving DecidableEq, Repr

structure Request where
  method : Text
  address : Text
  agent : Text
  deriving DecidableEq, Repr

/-- How an HTTP client is set up. -/
structure Client where
  followRedirects : Bool
  timeout : Json
  agent : Text

/-- A piece of what is written to the stream for diagnostics. -/
inductive Notice where
  | text (t : Text)
  | line (l : Log.Line)
  deriving DecidableEq, Repr

/-- What was done, in order. -/
structure Journal where
  requests : List Request
  clients : List Client
  log : List Log.Line
  /-- Arguments of each child process. -/
  started : List (List Text)
  output : Text
  notices : List Notice

namespace Journal

def empty : Journal := ⟨[], [], [], [], [], []⟩

instance : Inhabited Journal := ⟨empty⟩

end Journal

structure Machine where
  host : Host
  environment : Table Text
  files : FileSystem
  /-- The directory for temporary files. -/
  temporary : Text
  /-- The directory of the bundled package. -/
  package : Text
  /-- The file that the bundled package's metadata is read from. -/
  metadataFile : Text
  server : Server
  /-- What the next child processes do; later ones end well. -/
  children : List ChildOutcome
  /-- What others do before each attempt to put a finished download in place. -/
  races : List Intrusions
  /-- How many unique names were given out. -/
  identifiers : Nat
  /-- Settings that were read from the environment, by the name of the wrapper that did: each reads them once. -/
  settings : Table Settings
  threshold : Log.Level
  /-- Whether log lines are also written to the stream for diagnostics. -/
  verbose : Bool
  journal : Journal

abbrev Action (α : Type) := ExceptT Error (StateM Machine) α

namespace Action

def fail {α : Type} (e : Error) : Action α := throw e

def ofExcept {α : Type} : Except Error α → Action α
  | .ok a => return a
  | .error e => throw e

def files : Action FileSystem := return (← get).files

def setFiles (fs : FileSystem) : Action Unit := modify fun m => { m with files := fs }

/-- The result of an action as a value. -/
def attempt {α : Type} (action : Action α) : Action (Except Error α) := do
  let (result, m) := action.run (← get)
  set m
  return result

/-- Runs the second action in any case; an error of its own takes precedence. -/
def ensure {α : Type} (action : Action α) (after : Action Unit) : Action α := do
  let result ← attempt action
  after
  ofExcept result

/-- Handles the errors that the first function picks. -/
def catching {α : Type} (action : Action α) (handle : Error → Option (Action α)) : Action α := do
  match ← attempt action with
  | .ok a => return a
  | .error e =>
    match handle e with
    | some action => action
    | none => throw e

def record (change : Journal → Journal) : Action Unit := modify fun m => { m with journal := change m.journal }

def log (level : Log.Level) (origin : Log.Origin) (message : Text) : Action Unit := do
  match ← ofExcept (Log.line? (← get).threshold level origin message) with
  | none => return ()
  | some line =>
    record fun j => { j with log := j.log ++ [line] }
    if (← get).verbose then record fun j => { j with notices := j.notices ++ [.line line] }

/-- Writes to the standard output. -/
def print (t : Text) : Action Unit := record fun j => { j with output := j.output ++ t }

/-- Writes to the stream for diagnostics. -/
def notify (t : Text) : Action Unit := record fun j => { j with notices := j.notices ++ [.text t] }

/-- A path that can be handed to the system. -/
def checkPath (path : Text) : Action Unit :=
  match Utf8.encodeName path with
  | .error fault => throw (.unencodable fault)
  | .ok bytes => if bytes.contains 0 then throw (.value .embeddedNull) else return ()

/-- A request about one path that changes the file system. -/
def request (path : Text) (change : FileSystem → Except Errno FileSystem) : Action Unit := do
  checkPath path
  match change (← files) with
  | .ok fs => setFiles fs
  | .error e => throw (.system ⟨e, some path, none⟩)

/-- A request about two paths. -/
def requestTwo (source target : Text) (change : FileSystem → Except Errno FileSystem) : Action Unit := do
  checkPath source
  checkPath target
  match change (← files) with
  | .ok fs => setFiles fs
  | .error e => throw (.system ⟨e, some source, some target⟩)

/-- A question about a path. -/
def ask {α : Type} (path : Text) (question : FileSystem → Except Errno α) : Action α := do
  checkPath path
  match question (← files) with
  | .ok a => return a
  | .error e => throw (.system ⟨e, some path, none⟩)

def makeDirectory (path : Text) (mode : Nat) : Action Unit := request path (·.makeDirectory path mode)

/-- A refusal of this request does not name the path. -/
def makeSpecial (path : Text) : Action Unit := do
  checkPath path
  match (← files).makeSpecial path with
  | .ok fs => setFiles fs
  | .error e => throw (.system ⟨e, none, none⟩)

def setMode (path : Text) (mode : Nat) : Action Unit := request path (·.setMode path mode)

def setOwner (path : Text) (followLast : Bool) : Action Unit := request path (·.setOwner path followLast)

def unlink (path : Text) : Action Unit := request path (·.unlink path)

def rename (source target : Text) : Action Unit := requestTwo source target (·.rename source target)

def readFile (path : Text) : Action Bytes := ask path (·.read path)

/-- The content of a file as text, its line ends unified. -/
def readText (path : Text) : Action Text := do
  match Utf8.decode (← readFile path) with
  | .ok text => return text.unifyLineEnds
  | .error fault => throw (.undecodable fault)

/-- What stands at a path, links followed. -/
def status (path : Text) : Action (Location × Node) := ask path (·.status path true)

/-- Empties the file at the path or makes it, and gives the location that data goes to. -/
def create (path : Text) : Action Location := do
  request path (·.truncate path)
  return (← status path).1

def write (location : Location) (data : Bytes) : Action Unit := do setFiles ((← files).append location data)

def writeFile (path : Text) (data : Bytes) : Action Unit := do write (← create path) data

/-- Removes a directory with all beneath it; what cannot be removed stays. -/
def removeTree (path : Text) : Action Unit := do
  checkPath path
  setFiles ((← files).removeTree path)

def isDirectory (path : Text) : Action Bool := return (← files).isDirectory path

def isLink (path : Text) : Action Bool := return (← files).isLink path

/-- Removes a directory of one's own with all beneath it. If its path leads nowhere by now it is taken to be gone, and what else
the path may lead to is a fault. -/
def discard (path : Text) : Action Unit := do
  checkPath path
  match (← files).status path true with
  | .error e => if e = .noEntry then return () else throw (.system ⟨e, some path, none⟩)
  | .ok (_, node) =>
    if node.isDirectory && !(← isLink path) then removeTree path
    else throw (.system ⟨.notDirectory, some path, none⟩)

def hasTarget (path : Text) : Action Bool := return (← files).hasTarget path

def hasEntry (path : Text) : Action Bool := return (← files).hasEntry path

/-- Whether a file stands at the path. Errors other than absence are reported, and no path is too odd to ask about. -/
def isFile (path : Text) : Action Bool := do
  match ← attempt (checkPath path) with
  | .error _ => return false
  | .ok _ => return ((← ofExcept ((← files).node? path)).map Node.isFile).getD false

/-- Passes over the fault that something is there already. -/
def passExisting : Error → Option (Action Unit)
  | .system e => if e.errno = .entryExists then some (return ()) else none
  | _ => none

/-- What stands before the last component of a path, and that component; closing slashes do not count. -/
def headAndTail (path : Text) : Text × Text :=
  if (Path.base path).isEmpty then (Path.parent (Path.parent path), Path.base (Path.parent path))
  else (Path.parent path, Path.base path)

/-- Makes a directory and the ones above it. With `existing` a directory that is there already is fine. -/
def makeDirectories (path : Text) (existing : Bool) : Action Unit := go path.length path
where
  /-- Whether the directory above is to be made first. -/
  lacksHead (path : Text) : Action Bool := do
    let (head, tail) := headAndTail path
    return !head.isEmpty && !tail.isEmpty && !(← hasTarget head)
  makeLast (path : Text) : Action Unit :=
    catching (makeDirectory path FileSystem.directoryMode) fun
      | .system e => some do if existing && (← isDirectory path) then return () else throw (.system e)
      | _ => none
  go : Nat → Text → Action Unit
    | 0, path => do if ← lacksHead path then return () else makeLast path
    | fuel + 1, path => do
      if ← lacksHead path then
        catching (go fuel (headAndTail path).1) passExisting
        if (headAndTail path).2 = "." then return () else makeLast path
      else makeLast path

/-- Makes the directory of a path value and the ones above it, unless it is there. -/
def makeAncestry (path : FilePath) : Action Unit := go path.parts.length path
where
  make (path : FilePath) (handleMissing : Error → Option (Action Unit)) : Action Unit :=
    catching (makeDirectory path.toText FileSystem.directoryMode) fun
      | .system e =>
        if e.errno = .noEntry then handleMissing (.system e)
        else some do
          if ((← ofExcept ((← files).node? path.toText)).map Node.isDirectory).getD false then return ()
          else throw (.system e)
      | _ => none
  go : Nat → FilePath → Action Unit
    | fuel, path => make path fun e =>
      match fuel with
      | 0 => some (throw e)
      | fuel + 1 =>
        if path.parent = path then some (throw e)
        else some do
          go fuel path.parent
          make path fun _ => none

/-- How often a free name is looked for. -/
def nameAttempts : Nat := 10000

/-- The endings that temporary names are given, one after the other. -/
def temporaryEnding (attempt : Nat) : Text :=
  if attempt = 0 then "XXXXXXXX"
  else
    let digits := Text.ofNat attempt
    List.replicate (8 - digits.length) (CodePoint.char 'X') ++ digits

/-- Makes a directory that only its owner may enter, under a free name that starts with `start`. -/
def makeTemporary (directory start : Text) : Action Text := go nameAttempts 0
where
  go : Nat → Nat → Action Text
    | 0, _ => throw (.system ⟨.entryExists, some directory, none⟩)
    | fuel + 1, attempt => do
      let path := Path.join directory (start ++ temporaryEnding attempt)
      match ← Action.attempt (makeDirectory path 0o700) with
      | .ok _ => return path
      | .error (.system e) => if e.errno = .entryExists then go fuel (attempt + 1) else throw (.system e)
      | .error e => throw e

/-- Thirty-two hexadecimal digits that were not given out before. -/
def freshIdentifier : Action Text := do
  let m ← get
  set { m with identifiers := m.identifiers + 1 }
  return Text.hex 32 (m.identifiers + 1)

/-- Starts a child process and waits for its end. -/
def start (arguments : List Text) : Action ChildOutcome := do
  record fun j => { j with started := j.started ++ [arguments] }
  match (← get).children with
  | [] => return .exit 0
  | outcome :: more =>
    modify fun m => { m with children := more }
    return outcome

/-- What somebody else does to a path; this never fails. Directories on the way to something new are made. -/
def intrude (path : Text) (what : Intrusion) : Action Unit := do
  if what ≠ .gone then
    let _ ← attempt (makeDirectories (Path.parent path) true)
  match what with
  | .file mode content =>
    let _ ← attempt do
      writeFile path content
      setMode path mode
  | .directory mode =>
    let _ ← attempt (makeDirectories path true)
    let _ ← attempt (setMode path mode)
  | .link target =>
    let _ ← attempt (request path (·.makeLink target path))
  | .gone =>
    if (← isDirectory path) && !(← isLink path) then
      let _ ← attempt (removeTree path)
    else
      let _ ← attempt (unlink path)

def intrudeAll (changes : Intrusions) : Action Unit := changes.forM fun (path, what) => intrude path what

/-- The moment before a finished download is put in place, which others may use. -/
def race : Action Unit := do
  match (← get).races with
  | [] => return ()
  | changes :: more =>
    modify fun m => { m with races := more }
    intrudeAll changes

end Action

end Prebuilt
