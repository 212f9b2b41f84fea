import Prebuilt.Metadata
import Prebuilt.Wrapper
/-!
The package that wraps the `run` tool: its metadata file, whose version is the version of the release that is wrapped.
-/
set_option autoImplicit false

namespace Prebuilt.Package

/-- The metadata file that comes with the package. -/
def bundledMetadata : String := String.intercalate "\n" [
  "\x7b",
  "  \"name\": \"run\",",
  "  \"version\": \"0.11.2\",",
  "  \"description\": \"Easily manage and invoke small scripts and wrappers\",",
  "  \"homepage\": \"https://github.com/TekWizely/run\",",
  "  \"license\": \"MIT\"",
  "\x7d",
  ""]

/-- Metadata from a file; messages about it name the path that is shown. -/
def load (shown file : Text) : Action Metadata := do
  match ← Action.attempt (Action.readFile file) with
  | .ok bytes => Action.ofExcept (Metadata.ofBytes shown bytes)
  | .error (.system e) => throw (.configuration (.unreadable shown e))
  | .error e => throw e

/-- Metadata from the file at a path. -/
def loadAt (path : Text) : Action Metadata :=
  let path := (FilePath.ofText path).toText
  load path path

/-- The version in the metadata file at a path. -/
def versionAt (path : Text) : Action Text := return (← loadAt path).version

def metadataName : Text := "package.json"

/-- The metadata of the package itself. -/
def loadBundled : Action Metadata := do
  let m ← get
  load (Path.join m.package metadataName) m.metadataFile

/-- The wrapper for a release of the tool, which unpacks beside the package unless another directory is given. -/
def wrapper (name version : Text) (directory : Option Text) : Action Wrapper := do
  let given := directory.getD []
  let beside := (← get).package
  let directory := if given.isEmpty then beside else given
  return ⟨name, WrapConfig.ofVersion version directory, none, none, none⟩

/-- The wrapper for the release that the metadata names, with its version. -/
def bundled : Action (Text × Wrapper) := do
  let version := (← loadBundled).version
  return (version, ← wrapper Release.binary version none)

end Prebuilt.Package
