import Prebuilt.Install.Staging
/-!
A wrapper stands for the binaries it is configured with: it installs them when they are needed and forwards invocations to
them.
-/
set_option autoImplicit false

namespace Prebuilt

structure Wrapper where
  /-- Tells wrappers apart that read their settings from the environment. -/
  name : Text
  config : WrapConfig
  /-- The settings given; without them they are read from the environment at their first use. -/
  settings : Option Settings
  /-- The client given; without it there is a new one for each download. -/
  client : Option Client
  /-- The platform given; without it, or with an empty one, it is the host's. -/
  platformKey : Option Text

namespace Wrapper

/-- A configuration as a caller hands it over. -/
inductive Given where
  /-- It was checked before and takes no further fields. -/
  | checked (config : WrapConfig)
  | fields (x : Json)

/-- Arguments that are about the wrapper and belong to no configuration. -/
def ownArguments : List Text := ["runwrap_config", "logger", "client", "platform_key"]

def configArgument : Text := "config"

def configOf (given : Given) (more : Fields) : Except Error WrapConfig :=
  match given with
  | .checked config =>
    if more.isEmpty then .ok config else .error (.configuration (.unexpectedArguments (Table.keys more)))
  | .fields x =>
    match WrapConfig.fieldsOf x more with
    | .error e => .error e
    | .ok fields =>
      match WrapConfig.ofFields fields with
      | .ok config => .ok config
      | .error issues => .error (.configuration (.invalidWrapper issues))

/-- A wrapper from a configuration and further arguments by their names. -/
def ofArguments (name : Text) (given : Given) (arguments : Fields) : Except Error Wrapper :=
  if configArgument ∈ Table.keys arguments then .error (.kind .givenTwice)
  else
    let platformKey := (Table.get? "platform_key" arguments).bind Json.text?
    (configOf given (arguments.filter fun (key, _) => key ∉ ownArguments)).map fun config =>
      ⟨name, config, none, none, platformKey⟩

/-- The settings in force. -/
def currentSettings (w : Wrapper) : Action Settings := do
  match w.settings.or (Table.get? w.name (← get).settings) with
  | some settings => return settings
  | none =>
    let settings ← Action.ofExcept (Settings.ofEnvironment (← get).environment)
    modify fun m => { m with settings := Table.put w.name settings m.settings }
    return settings

def installation (w : Wrapper) : Action Installation := do
  let settings ← w.currentSettings
  let given := w.platformKey.getD []
  let detected := (← get).host.key
  return ⟨w.config, settings, if given.isEmpty then detected else given, [], []⟩

def installing : Log.Origin := ⟨"binwrap.py", "install"⟩

/-- What the failed downloads have to say. -/
def failureMessages (i : Installation) : Text :=
  Text.joinWith "; " (i.failed.map fun (key, state) =>
    match state.errorMessage with
    | some text => if text.isEmpty then key else text
    | none => key)

/-- Makes sure that the binaries are installed, and gives the directory that they are in. -/
def install (w : Wrapper) (force : Json) : Action FilePath := do
  (← w.installation).within do
    Installing.plan force
    if !(← Installing.downloadAll w.client) then throw (.download (.failed (failureMessages (← get))))
    let summary := (← get).summary
    Installing.act (Action.log Log.info installing
      (Text.join ["Download summary: ", Text.ofNat summary.completed, " completed, ", Text.ofNat summary.failed,
        " failed, ", Text.ofNat summary.pending, " pending"]))
    Installing.ofExcept (← get).destination

def checkBinary (w : Wrapper) (binary : Text) : Except Error Unit :=
  if binary ∈ w.config.binaries then .ok () else .error (.configuration (.notWrapped binary))

/-- The path of a binary on the platform, whether or not it is installed. -/
def path (w : Wrapper) (binary : Text) : Action FilePath := do
  Action.ofExcept (w.checkBinary binary)
  let i ← w.installation
  let _ ← Action.ofExcept i.hostDependency
  Action.ofExcept (i.binaryPath binary)

/-- What a program that was interrupted from the keyboard exits with. -/
def interruptedStatus : Int := 130

/-- Runs a binary with the arguments, installing it first if need be. Gives its exit status, which is 128 and the number of
the signal if one has ended it. -/
def run (w : Wrapper) (binary : Text) (arguments : List Text) : Action Int := do
  Action.ofExcept (w.checkBinary binary)
  let _ ← w.install (.bool false)
  let executable := (← w.path binary).toText
  match ← Action.start (executable :: arguments) with
  | .exit code => return if code < 0 then 128 - code else code
  | .interrupted => return interruptedStatus
  | .refused errno => throw (.download (.notExecuted executable ⟨errno, some executable, none⟩))

def verifying : Log.Origin := ⟨"binwrap.py", "verify_urls"⟩

/-- Whether the server has something at an address. Faults of the transport count as nothing. -/
def isPublished (client : Client) (url : Text) : Action Bool := do
  match ← Action.attempt (client.headStatus url) with
  | .ok status => return status = 200
  | .error (.transport fault) =>
    Action.log Log.warning verifying (Text.join ["Error checking ", url, ": ", fault.message])
    return false
  | .error e => throw e

/-- Says of each platform whether its archive is published. -/
def verifyUrls (w : Wrapper) : Action (List (Text × Bool)) := do
  let client ← match w.client with
    | some client => pure client
    | none => do Client.opened (← w.currentSettings).timeout
  w.config.urls.mapM fun (key, url) => do
    let published ← isPublished client url
    Action.log (if published then Log.info else Log.warning) verifying
      (Text.join [key, ": ", url, if published then " ok" else " missing"])
    return (key, published)

/-- What a program ends with: an error of its own is shown under the program's name and gives the status 1. -/
def reporting (name : Text) (work : Action Int) : Action Int :=
  Action.catching work fun e =>
    if e.isReported then some do
      Action.notify (Text.join [name, ": ", e.message, "\n"])
      return 1
    else none

/-- Runs a binary, the first one if none is named, as a program of its own. -/
def main (w : Wrapper) (binary : Option Text) (arguments : List Text) : Action Int :=
  let given := binary.getD []
  let name := if given.isEmpty then w.config.binaries.head?.getD [] else given
  reporting name (w.run name arguments)

end Wrapper

end Prebuilt
