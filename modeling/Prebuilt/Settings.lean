import Prebuilt.Decimal.Literal
import Prebuilt.Error
/-!
Settings of an installation: where to install, how long to wait for an answer, whether to download again what is
already there. Values given by a caller are kept as they are; from the environment come a directory and a number of
seconds.
-/
set_option autoImplicit false

namespace Prebuilt

structure Settings where
  installDirectory : Json
  timeout : Json
  forceDownload : Json

namespace Settings

/-- One minute. -/
def defaultTimeout : Json := .float (.ofDecimal false 60 0)

def default : Settings := ⟨.null, defaultTimeout, .bool false⟩

instance : Inhabited Settings := ⟨default⟩

/-- The settings among the fields; others are passed over. -/
def ofFields (fields : Fields) : Settings :=
  { installDirectory := (Table.get? "install_dir" fields).getD default.installDirectory
    timeout := (Table.get? "timeout" fields).getD default.timeout
    forceDownload := (Table.get? "force_download" fields).getD default.forceDownload }

def directoryVariable : Text := "RUNWRAP_INSTALL_DIR"

def timeoutVariable : Text := "RUNWRAP_TIMEOUT"

/-- The value of a variable that is set and not empty. -/
def valueOf? (environment : List (Text × Text)) (name : Text) : Option Text :=
  (Table.get? name environment).filter (!·.isEmpty)

def ofEnvironment (environment : List (Text × Text)) : Except Error Settings :=
  let directory : Json := match valueOf? environment directoryVariable with
    | some t => .text t
    | none => .null
  match valueOf? environment timeoutVariable with
  | none => .ok { default with installDirectory := directory }
  | some t =>
    match Double.parse? t with
    | some x => .ok { default with installDirectory := directory, timeout := .float x }
    | none => .error (.configuration (.badTimeout t))

end Settings

end Prebuilt
