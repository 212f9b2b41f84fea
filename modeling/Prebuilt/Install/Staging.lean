import Prebuilt.Download
import Prebuilt.Files.Aside
import Prebuilt.Install.Installation
/-!
Installing a downloaded archive. It is unpacked into a staging directory beside the destination and takes the
destination's place only once every binary in it was found; others may be installing the same thing meanwhile.
-/
set_option autoImplicit false

namespace Prebuilt

namespace Action

def isFileAt (path : FilePath) : Action Bool := isFile path.toText

/-- The names under which a binary may be found. -/
def binaryNames (binary : Text) : List Text := [binary, binary ++ Installation.executableSuffix]

/-- A file of the name in the directory or beneath it is moved to the top; none if there is none. -/
def raiseNested (staging : FilePath) (name : Text) : Action (Option FilePath) := do
  let candidates ← ofExcept ((← files).search staging name)
  match ← candidates.findM? isFileAt with
  | none => return none
  | some candidate =>
    let target := staging / name
    rename candidate.toText target.toText
    return some target

/-- Finds a binary in a staging directory and moves it to the top level if it lies deeper. -/
def locateBinary (staging : FilePath) (binary : Text) : Action FilePath := do
  let names := binaryNames binary
  match ← names.findM? fun name => isFileAt (staging / name) with
  | some name => return staging / name
  | none =>
    match ← names.findSomeM? (raiseNested staging) with
    | some path => return path
    | none => throw (.download (.missingBinary binary))

def verifying : Log.Origin := ⟨"downloader.py", "_verify_download"⟩

/-- Whether a binary is at the top level of a staging directory and not empty. -/
def verifyBinary (staging : FilePath) (url binary : Text) : Action Bool := do
  let candidates := (binaryNames binary).map (staging / ·)
  match ← candidates.findM? isFileAt with
  | none =>
    log Log.warning verifying (Text.join ["Binary ", binary, " missing from ", url])
    return false
  | some path =>
    let (_, node) ← status path.toText
    if node.size = 0 then
      log Log.warning verifying ("Downloaded binary is empty: " ++ path.toText)
      return false
    else return true

end Action

namespace Installation

/-- Leaves the address that the content of a staging directory came from. -/
def writeMarker (staging : FilePath) (url : Text) : Action Unit := do
  let location ← Action.create (staging / markerName).toText
  match Utf8.encode (url ++ "\n") with
  | .ok bytes => Action.write location bytes
  | .error fault => throw (.unencodable fault)

/-- How often a staging directory is tried to be put in place. -/
def attempts : Nat := 10

/-- Whether the destination may stay: it is current, and the plan does not force its replacement. -/
def isSettled (i : Installation) (plan : Plan) : Action Bool :=
  if plan.isForced then return false else i.isInstalled plan.dependency

/-- Renames a staging directory to the destination. Gives whether it was used, and nothing if somebody else put there what is
not current. -/
def place (i : Installation) (plan : Plan) (staging destination : FilePath) : Action (Option Bool) := do
  Action.race
  match ← Action.attempt (Action.rename staging.toText destination.toText) with
  | .ok _ => return some true
  | .error e =>
    if !e.isSystem then throw e
    return if ← i.isInstalled plan.dependency then some false else none

/-- Puts a staging directory in the place of the destination. What stands there is moved aside and goes, unless it is current
and the plan does not force its replacement. Gives whether the staging directory was used. -/
def settle (i : Installation) (plan : Plan) (staging destination : FilePath) : Nat → Action Bool
  | 0 => throw (.download (.notPlaced plan.key destination.toText))
  | left + 1 => do
    if ← i.isSettled plan then return false
    let aside ← Action.moveAside destination.toText
    match ← Action.ensure (i.place plan staging destination) (Action.removeAside aside) with
    | some used => return used
    | none => i.settle plan staging destination left

/-- Fills a staging directory and puts it in place; gives whether it was used. -/
def fill (i : Installation) (client : Option Client) (plan : Plan) (staging : FilePath) : Action Bool := do
  Action.downloadArchive client i.settings.timeout plan.dependency.url staging.toText plan.dependency.archiveType
  plan.binaries.forM fun binary => do
    Action.makeExecutable (← Action.locateBinary staging binary).toText
  if !(← plan.binaries.allM (Action.verifyBinary staging plan.dependency.url)) then
    throw (.download (.verification plan.key))
  writeMarker staging plan.dependency.url
  i.settle plan staging (FilePath.ofText plan.destination) attempts

/-- Carries out a plan. A staging directory that was not used goes in any case. -/
def perform (i : Installation) (client : Option Client) (plan : Plan) : Action Unit := do
  let destination := FilePath.ofText plan.destination
  Action.makeAncestry destination.parent
  let start := Text.join [".", destination.name, "-"]
  let staging := FilePath.ofText (← Action.makeTemporary destination.parent.toText start)
  match ← Action.attempt (i.fill client plan staging) with
  | .ok true => return ()
  | result =>
    Action.removeTree staging.toText
    let _ ← Action.ofExcept result

end Installation

namespace Installing

def downloading : Log.Origin := ⟨"downloader.py", "download_dependency"⟩

def downloadingAll : Log.Origin := ⟨"downloader.py", "download_all_pending"⟩

/-- Carries out a plan and closes it; gives whether it went well. Faults of other kinds than a failed download or a refused
request leave the plan open and are passed on. -/
def download (client : Option Client) (plan : Plan) : Installing Bool := do
  act (Action.log Log.info downloading (Text.join ["Downloading ", plan.key, " from ", plan.dependency.url]))
  let plan := { plan with status := .inProgress }
  modify (·.keep plan)
  match ← act (Action.attempt ((← get).perform client plan)) with
  | .ok _ =>
    modify (·.mark plan true)
    act (Action.log Log.info downloading
      (Text.join ["Successfully downloaded ", plan.key, " to ", plan.destination]))
    return true
  | .error e =>
    if !e.isDownloadFailure then throw e
    let message := Text.join ["Failed to download ", plan.key, ": ", e.message]
    act (Action.log Log.error downloading message)
    modify (·.mark { plan with errorMessage := some message } false)
    return false

/-- Carries out every plan that is still to be done; gives whether all went well. -/
def downloadAll (client : Option Client) : Installing Bool := do
  match (← get).pending with
  | [] =>
    act (Action.log Log.info downloadingAll "No pending downloads")
    return true
  | plans =>
    let results ← plans.mapM (download client)
    return results.all id

end Installing

end Prebuilt
