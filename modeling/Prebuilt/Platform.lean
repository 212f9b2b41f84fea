import Prebuilt.Error
import Prebuilt.Text.Case
/-!
Host platforms and the keys under which release tables name them: operating system, a dash, architecture.
-/
set_option autoImplicit false

namespace Prebuilt

inductive Platform where
  | darwinX64
  | darwinArm64
  | linuxX64
  | linuxArm64
  | win32X64
  deriving DecidableEq, Repr

/-- What the host says about itself. -/
structure Host where
  system : Text
  machine : Text
  deriving DecidableEq, Repr

namespace Platform

def all : List Platform := [darwinX64, darwinArm64, linuxX64, linuxArm64, win32X64]

def key : Platform → Text
  | darwinX64 => "darwin-x64"
  | darwinArm64 => "darwin-arm64"
  | linuxX64 => "linux-x64"
  | linuxArm64 => "linux-arm64"
  | win32X64 => "win32-x64"

def ofKey? (key : Text) : Option Platform := all.find? (·.key = key)

def isKnownKey (key : Text) : Bool := (ofKey? key).isSome

end Platform

/-- The table's name for an operating system, if it has one of its own. -/
def systemNames : List (Text × Text) := [("darwin", "darwin"), ("linux", "linux"), ("windows", "win32")]

def machineNames : List (Text × Text) :=
  [("x86_64", "x64"), ("amd64", "x64"), ("x64", "x64"), ("aarch64", "arm64"), ("arm64", "arm64"), ("i386", "ia32"),
    ("i686", "ia32")]

/-- A name without an entry stands for itself. -/
def tableName (table : List (Text × Text)) (name : Text) : Text := (Table.get? name table).getD name

namespace Host

/-- The key of a host, whether or not it is a known platform. -/
def key (h : Host) : Text :=
  tableName systemNames h.system.lower ++ "-" ++ tableName machineNames h.machine.lower

def platform (h : Host) : Except Error Platform :=
  match Platform.ofKey? h.key with
  | some p => .ok p
  | none => .error (.unsupportedPlatform h.key)

end Host

end Prebuilt
