import Prebuilt.Program
/-!
The program that manages the installation, run in a world of its own: no server answers and nothing is installed. Commands
that need neither work as ever.
-/
set_option autoImplicit false

namespace Prebuilt

/-- A host with the package and nothing else. -/
def offline : Machine :=
  let files := (FileSystem.empty.put ["tmp"] (.directory 0o777)).put ["package"] (.directory 0o755)
  { host := ⟨"Linux", "x86_64"⟩
    environment := []
    files := files.addFile ["package", Package.metadataName] 0o644 Package.bundledMetadata.toUTF8.toList
    temporary := "/tmp"
    package := "/package"
    metadataFile := "/package/package.json"
    server := []
    children := []
    races := []
    identifiers := 0
    settings := []
    threshold := Log.warning
    verbose := false
    journal := .empty }

def Notice.render : Notice → Text
  | .text t => t
  | .line l => l.render [] 0 ++ "\n"

def Text.toDisplay (t : Text) : String := ((Text.escapeLone t).toString?).getD ""

end Prebuilt

open Prebuilt in
def main (arguments : List String) : IO UInt32 := do
  let (result, m) := (Program.manage (arguments.map Text.ofString)).run offline
  (← IO.getStdout).putStr m.journal.output.toDisplay
  (← IO.getStderr).putStr (Text.join (m.journal.notices.map Notice.render)).toDisplay
  match result with
  | .ok ending => return UInt32.ofNat ending.status.toNat
  | .error e =>
    (← IO.getStderr).putStrLn e.message.toDisplay
    return 1
