import Prebuilt.Files.Glob
import Prebuilt.Install.Plan
import Prebuilt.Machine
import Prebuilt.WrapConfig
/-!
The installation of one wrapper on one platform: where it lies, whether it is there and current, what has been planned for
it and what has become of the plans.

A current installation has the address it was downloaded from in a marker file, and each binary as an executable file.
-/
set_option autoImplicit false

namespace Prebuilt

structure Installation where
  config : WrapConfig
  settings : Settings
  /-- The platform's key. -/
  key : Text
  plans : Table Plan
  states : Table DependencyState

/-- How many downloads ended well, failed, and are still to do. -/
structure DownloadSummary where
  completed : Nat
  failed : Nat
  pending : Nat
  deriving DecidableEq, Repr

def DownloadSummary.total (s : DownloadSummary) : Nat := s.completed + s.failed + s.pending

namespace Installation

/-- The directory that a wrapper unpacks into unless the settings name another one. -/
def unpackedName : Text := "unpacked_bin"

/-- The file that holds the address of what is installed. -/
def markerName : Text := ".source-url"

def executableSuffix : Text := ".exe"

def directory (i : Installation) : Except Error FilePath :=
  if i.settings.installDirectory.isFalsy then .ok (FilePath.ofText i.config.directory / unpackedName)
  else match i.settings.installDirectory with
    | .text t => .ok (FilePath.ofText t)
    | x => .error (.kind (.notPath x.kindName))

def destination (i : Installation) : Except Error FilePath := i.directory.map (· / i.key)

/-- The file name of a binary on the platform. -/
def binaryName (i : Installation) (binary : Text) : Text :=
  if ("win32" : Text).isPrefixOf i.key && !executableSuffix.isSuffixOf binary then binary ++ executableSuffix else binary

def binaryPath (i : Installation) (binary : Text) : Except Error FilePath := i.destination.map (· / i.binaryName binary)

/-- What is to be installed on the platform. -/
def hostDependency (i : Installation) : Except Error Dependency := do
  match ← i.config.dependency? i.key with
  | some dependency => return dependency
  | none => throw (.unsupportedPlatform i.key)

/-- The marker's content, unless the system refuses to read it. -/
def marker? (i : Installation) : Action (Option Text) := do
  let path := (← Action.ofExcept i.destination) / markerName
  Action.catching (some <$> Action.readText path.toText) fun e => if e.isSystem then some (return none) else none

/-- Whether a binary is there, as a file that may be executed. -/
def hasBinary (i : Installation) (binary : Text) : Action Bool := do
  let path := (← Action.ofExcept (i.binaryPath binary)).toText
  if ← Action.isFile path then return (← Action.files).mayExecute path else return false

/-- Whether the binaries of the dependency are installed. -/
def isInstalled (i : Installation) (dependency : Dependency) : Action Bool := do
  match ← i.marker? with
  | none => return false
  | some marker =>
    if marker.strip = dependency.url then i.config.binaries.allM i.hasBinary else return false

def pending (i : Installation) : List Plan := (i.plans.map (·.2)).filter (·.status = .pending)

def failed (i : Installation) : Table DependencyState := i.states.filter fun (_, s) => s.status = .failed

def summary (i : Installation) : DownloadSummary :=
  ⟨(i.states.filter fun (_, s) => s.isDownloaded).length, i.failed.length, i.pending.length⟩

/-- Keeps a plan in its new state. -/
def keep (i : Installation) (plan : Plan) : Installation :=
  { i with plans := i.plans.map fun (key, p) => if key = plan.key then (key, plan) else (key, p) }

def putState (i : Installation) (state : DependencyState) : Installation :=
  { i with states := Table.put state.key state i.states }

/-- The message of a failed download that has none of its own. -/
def failureText (plan : Plan) : Text :=
  match plan.errorMessage with
  | some text => if text.isEmpty then "Download failed" else text
  | none => "Download failed"

/-- Closes a plan, for better or worse. -/
def mark (i : Installation) (plan : Plan) (success : Bool) : Installation :=
  let plan := { plan with status := if success then .completed else .failed }
  (i.keep plan).putState
    ⟨plan.key, plan.status, if success then some plan.destination else none,
      if success then none else some (failureText plan)⟩

end Installation

/-- Work on an installation. What it has done to the installation and to the machine before an error stays done. -/
abbrev Installing := ExceptT Error (StateT Installation (StateM Machine))

namespace Installing

def act {α : Type} (action : Action α) : Installing α := do
  let result ← action.run
  match result with
  | .ok a => return a
  | .error e => throw e

def ofExcept {α : Type} (result : Except Error α) : Installing α := act (Action.ofExcept result)

/-- Plans a download for the platform, unless a current installation is there and no new one is forced. -/
def plan (force : Json) : Installing Unit := do
  modify fun i => { i with plans := [] }
  let i ← get
  let dependency ← ofExcept i.hostDependency
  let destination := (← ofExcept i.destination).toText
  let force := if force.isFalsy then i.settings.forceDownload else force
  let current ← if force.isFalsy then act (i.isInstalled dependency) else pure false
  if current then
    modify (·.putState ⟨i.key, .completed, some destination, none⟩)
  else
    let plan : Plan := ⟨i.key, dependency, destination, i.config.binaries, force, .pending, none⟩
    modify fun i => { i with plans := Table.put plan.key plan i.plans }
    modify (·.putState ⟨i.key, .pending, none, none⟩)

end Installing

/-- Work on an installation that is of no further interest afterwards. -/
def Installation.within {α : Type} (i : Installation) (work : Installing α) : Action α := do
  let (result, _) ← work.run i
  Action.ofExcept result

end Prebuilt
