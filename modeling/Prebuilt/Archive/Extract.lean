import Prebuilt.Archive.Tar
import Prebuilt.Archive.Zip
import Prebuilt.Machine
/-!
Unpacking an archive into a directory. All member names are checked before anything is unpacked: none may lead out of the
directory. Members are then unpacked in their order, each through whatever the ones before it have made.
-/
set_option autoImplicit false

namespace Prebuilt.Action

/-- The path of the same thing without links and dots. -/
def resolve (path : FilePath) : Action FilePath := do
  checkPath path.toText
  let fs ← files
  let resolved := FilePath.ofText (fs.resolvedText path.toText)
  match fs.status resolved.toText true with
  | .error e => if e = .tooManyLinks then throw (.symlinkLoop resolved.toText) else return resolved
  | .ok _ => return resolved

/-- Whether a resolved path is the directory or lies beneath it. -/
def isWithin (directory path : FilePath) : Bool :=
  path = directory || (directory.root == path.root && directory.parts.isPrefixOf path.parts)

def checkMembers (target : Text) (names : List Text) : Action Unit := do
  let root ← resolve (FilePath.ofText target)
  names.forM fun name => do
    let path ← resolve (root / name)
    if !isWithin root path then throw (.download (.escapingMember name))

end Prebuilt.Action

namespace Prebuilt.Tar

/-- Unpacking reads the archive on from where it is. -/
abbrev Unpacking := StateT Source (ExceptT Error (StateM Machine))

def act {α : Type} (action : Action α) : Unpacking α := StateT.lift action

/-- The result of a step as a value. -/
def attempt {α : Type} (step : Unpacking α) : Unpacking (Except Error α) := do
  match ← act (Action.attempt (step.run (← get))) with
  | .ok (a, source) =>
    set source
    return .ok a
  | .error e => return .error e

/-- How much is copied at a time. -/
def pieceSize : Nat := 16384

/-- How many bytes are copied for a count. For a negative one this is the distance to the multiple below it. -/
def toCopy (count : Int) : Nat :=
  if count < 0 then (Int.fmod count pieceSize).toNat else count.toNat

/-- Puts data at a position of a file; a gap before it is filled with zeros. -/
def place (location : Location) (position : Nat) (data : Bytes) : Action Unit := do
  let fs ← Action.files
  Action.setFiles (fs.update location fun node => match node with
    | .file number mode before =>
      .file number mode
        (before.take position ++ List.replicate (position - before.length) 0 ++ data ++
          before.drop (position + data.length))
    | node => node)

/-- Copies the next bytes of the archive to a position of a file, piece by piece. -/
def copy (location : Location) (position count : Nat) : Unpacking Unit :=
  if count = 0 then return ()
  else do
    let n := min pieceSize count
    let (data, source) ← act (Action.ofExcept ((← get).read n))
    set source
    if data.length < n then throw (.tar .endOfData)
    act (place location position data)
    copy location (position + n) (count - n)
  termination_by count
  decreasing_by
    have : 0 < min pieceSize count := by simp only [pieceSize]; omega
    omega

/-- A position in a file that is written to. -/
def filePosition (n : Int) : Except Error Nat :=
  if n < 0 then .error (.system ⟨.invalid, none, none⟩)
  else if Source.positionLimit ≤ n then .error (.value .positionTooLarge)
  else .ok n.toNat

/-- Cuts a file off at a size or fills it up with zeros. -/
def resize (location : Location) (size : Nat) : Action Unit := do
  let fs ← Action.files
  Action.setFiles (fs.update location fun node => match node with
    | .file number mode before =>
      .file number mode (before.take size ++ List.replicate (size - before.length) 0)
    | node => node)

def makeFile (m : Member) (path : Text) : Unpacking Unit := do
  set (← act (Action.ofExcept ((← get).seekTo m.start)))
  let location ← act (Action.create path)
  match m.parts with
  | none => copy location 0 (toCopy m.size)
  | some parts =>
    parts.forM fun (start, length) => do
      copy location (← act (Action.ofExcept (filePosition start))) (toCopy length)
    act (resize location (← act (Action.ofExcept (filePosition m.size))))

def tooLarge (n least most : Int) (low high : Text) : Option Error :=
  if n < least then some (.tooLarge low) else if most < n then some (.tooLarge high) else none

/-- Numbers of users and groups have thirty-two bits, and minus one stands for no change. -/
def ownerFault? (n : Int) (kind : Text) : Option Error :=
  if -1 ≤ n ∧ n < 0x100000000 then none
  else if n < 0x8000000000000000 then some (.tooLarge (kind ++ " is less than minimum"))
  else some (.tooLarge (kind ++ " is greater than maximum"))

/-- Numbers of a member that the system cannot take. -/
def Member.ownerFault? (m : Member) : Option Error :=
  (Tar.ownerFault? (if m.userName = "root" then 0 else m.user) "uid").or
    (Tar.ownerFault? (if m.groupName = "root" then 0 else m.group) "gid")

def Member.modeFault? (m : Member) : Option Error :=
  let text : Text := "Python int too large to convert to C int"
  tooLarge m.mode (-0x80000000) 0x7FFFFFFF text text

def Member.timeFault? (m : Member) : Option Error :=
  let text : Text := "timestamp out of range for platform time_t"
  match m.time with
  | .whole n => tooLarge n (-0x8000000000000000) 0x7FFFFFFFFFFFFFFF text text
  | .real .nan => some (.value .noTime)
  | .real (.infinite _) => some (.tooLarge text)
  | .real (.finite _ mantissa exponent) =>
    if 63 < exponent + (mantissa.log2 : Int) + 1 then some (.tooLarge text) else none

def permissions (m : Member) : Nat := (m.mode % 0o10000).toNat

/-- Whether a request succeeds; one that the system refuses is passed over. -/
def succeeds (action : Action Unit) : Action Bool := do
  match ← Action.attempt action with
  | .ok _ => return true
  | .error (.system _) => return false
  | .error e => throw e

def refuse (fault : Option Error) : Action Unit :=
  match fault with
  | some e => throw e
  | none => return ()

/-- Sets owner, mode and time, as far as the system lets it. -/
def setAttributes (m : Member) (path : Text) : Action Bool := do
  refuse m.ownerFault?
  if !(← succeeds (Action.setOwner path (m.kind ≠ .symlink))) then return false
  if m.kind = .symlink then return true
  refuse m.modeFault?
  if !(← succeeds (Action.setMode path (permissions m))) then return false
  refuse m.timeFault?
  return true

/-- The member that a link leads to, with its index. A symbolic link may lead to any member, a hard link to one before it;
of members with one name the last counts. -/
def linked (members : List Member) (index : Nat) (m : Member) : Except Error (Nat × Member) :=
  let (name, candidates) :=
    if m.kind = .symlink then
      (Text.joinWith "/" ([Path.parent m.name, m.linkName].filter (!·.isEmpty)), members.zipIdx)
    else (m.linkName, (members.zipIdx).take index)
  match candidates.reverse.find? fun (other, _) => Path.normalize other.name = Path.normalize name with
  | some (other, i) => .ok (i, other)
  | none => .error (.missingLink name)

/-- A link that leads to no member is left out. -/
def unlessMissing (step : Unpacking Bool) : Unpacking Bool := do
  match ← attempt step with
  | .ok done => return done
  | .error (.missingLink _) => return false
  | .error e => throw e

/-- Takes another step where the system refuses the first. -/
def unlessRefused (step instead : Unpacking Bool) : Unpacking Bool := do
  match ← attempt step with
  | .ok done => return done
  | .error e => if e.isSystem then instead else throw e

/-- Unpacks one member to a path. Where a link cannot be made, the member it leads to is unpacked in its place. Gives
whether all went well; `current` is the index of the member whose turn it is. -/
def unpackTo (members : List Member) (target : Text) (current : Nat) (attributes : Bool) :
    (fuel : Nat) → (index : Nat) → Member → Text → Unpacking Bool
  | 0, _, _, _ => throw .linkCycle
  | fuel + 1, index, m, path => do
    let path := Path.dropEndSlashes path
    let above := Path.parent path
    if !above.isEmpty && !(← act (Action.hasTarget above)) then act (Action.makeDirectories above false)
    let inPlace : Unpacking Bool := do
      let (i, other) ← act (Action.ofExcept (linked members index m))
      unpackTo members target current true fuel i other path
    let done ← match m.kind with
      | .file => do
        makeFile m path
        pure true
      | .directory => do
        act (Action.catching (Action.makeDirectory path 0o700) Action.passExisting)
        pure true
      | .fifo | .character | .block => do
        act (Action.makeSpecial path)
        pure true
      | .symlink =>
        let link : Unpacking Bool := do
          act do
            if (← Action.files).hasEntry path then Action.unlink path
            Action.requestTwo m.linkName path (·.makeLink m.linkName path)
          pure true
        unlessRefused link (unlessMissing inPlace)
      | .hardLink =>
        let link : Unpacking Bool := do
          let origin := Path.join target m.linkName
          if ← act (Action.hasTarget origin) then
            act (Action.requestTwo origin path (·.addName origin path))
            pure true
          else inPlace
        if current < index then unlessMissing inPlace else unlessRefused link (unlessMissing inPlace)
    if done && attributes then act (setAttributes m path) else return done

def unpackAll (members : List Member) (target : Text) : Unpacking Unit := do
  for (m, index) in members.zipIdx do
    let _ ← unpackTo members target index (m.kind ≠ .directory) (members.length + 900) index m (Path.join target m.name)
  let directories := ((members.filter (·.kind = .directory)).mergeSort fun a b => Text.le a.name b.name).reverse
  for m in directories do
    let path := Path.join target m.name
    act do
      refuse m.ownerFault?
      if ← succeeds (Action.setOwner path true) then
        refuse m.timeFault?
        refuse m.modeFault?
        let _ ← succeeds (Action.setMode path (permissions m))

def extract (compressed : Bool) (archive target : Text) : Action Unit := do
  let content ← Action.readFile archive
  let (members, source) ← Action.ofExcept (Tar.members compressed content)
  Action.checkMembers target (members.map (·.name))
  let _ ← (unpackAll members target).run source
  return ()

end Prebuilt.Tar

namespace Prebuilt.Zip

/-- Where a member is unpacked: empty components, dots and double dots of its name are left out. -/
def targetPath (target name : Text) : Text :=
  let parts := (Text.splitOn '/' name).filter fun (part : Text) => !part.isEmpty && part != "." && part != ".."
  Path.normalize (Path.join target (Text.joinWith "/" parts))

def unpack (content : Bytes) (target : Text) (e : Entry) : Action Unit := do
  let path := targetPath target e.name
  let above := Path.parent path
  if !above.isEmpty && !(← Action.hasTarget above) then Action.makeDirectories above false
  if e.name.isEmpty then throw .emptyName
  if e.isDirectory then
    if !(← Action.isDirectory path) then Action.makeDirectory path FileSystem.directoryMode
  else
    let member ← Action.ofExcept (openEntry content e)
    Action.writeFile path member.data
    match member.fault with
    | some fault => throw fault
    | none => return ()

def extract (archive target : Text) : Action Unit := do
  let content ← Action.readFile archive
  let entries ← Action.ofExcept (directory content)
  let names := entries.map (·.name)
  Action.checkMembers target names
  names.forM fun name =>
    match lastNamed? entries name with
    | some e => unpack content target e
    | none => return ()

end Prebuilt.Zip

namespace Prebuilt.Action

/-- Unpacks an archive of a named type into a directory. -/
def unpackArchive (archive target type : Text) : Action Unit :=
  if type = "tar.gz" ∨ type = "tgz" then Tar.extract true archive target
  else if type = "tar" then Tar.extract false archive target
  else if type = "zip" then Zip.extract archive target
  else throw (.download (.unsupportedArchive type))

/-- Unpacks an archive into a directory that is made if it is not there; whatever is wrong with the archive is reported as
a failed extraction. -/
def extractArchive (archive target type : Text) : Action Unit := do
  makeDirectories target true
  catching (unpackArchive archive target type) fun e =>
    if e.isArchiveFault then some (throw (.download (.extraction archive e.message))) else none

end Prebuilt.Action
