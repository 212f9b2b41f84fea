import Prebuilt.Platform
/-!
Release archives: the type that an archive's name tells, and the addresses under which the `run` tool is published.
-/
set_option autoImplicit false

namespace Prebuilt

/-- Endings of archive names and the types they stand for. -/
def archiveSuffixes : List (Text × Text) := [(".tar.gz", "tar.gz"), (".tgz", "tgz"), (".tar", "tar"), (".zip", "zip")]

/-- The type of the archive at an address, from the file name at its end. -/
def archiveType (url : Text) : Except Error Text :=
  match archiveSuffixes.find? fun (suffix, _) => suffix.isSuffixOf (Text.lower (Text.afterLast '/' url)) with
  | some (_, name) => .ok name
  | none => .error (.download (.unrecognisedArchive url))

/-- One downloadable archive. -/
structure Dependency where
  platformKey : Text
  url : Text
  archiveType : Text
  deriving DecidableEq, Repr

namespace Dependency

def ofUrl (platformKey url : Text) : Except Error Dependency :=
  (Prebuilt.archiveType url).map fun name => ⟨platformKey, url, name⟩

/-- A field under its published name, or under its plain one if the published name is missing. -/
def field (fields : Fields) (published plain : Text) : Checked Text :=
  match Table.get? published fields with
  | some x => x.asText [.key published]
  | none => match Table.get? plain fields with
    | some x => x.asText [.key plain]
    | none => Checked.reject [.key published] .missing

def ofFields (fields : Fields) : Checked Dependency :=
  (Checked.both (field fields "platformKey" "platform_key")
    (Checked.both (Fields.required fields "url" Json.asText) (field fields "archiveType" "archive_type"))).map
    fun (platformKey, url, archiveType) => ⟨platformKey, url, archiveType⟩

end Dependency

namespace Release

def binary : Text := "run"

def host : Text := "https://github.com/TekWizely/run/releases/download/v"

/-- The names that releases give to the platforms they support. -/
def platforms : List (Text × Text) :=
  [("darwin-x64", "darwin_amd64"), ("darwin-arm64", "darwin_arm64"), ("linux-x64", "linux_amd64")]

def url (root version name : Text) : Text := Text.join [root, "/run_", version, "_", name, ".tar.gz"]

def urls (version : Text) : List (Text × Text) :=
  platforms.map fun (key, name) => (key, url (host ++ version) version name)

end Release

end Prebuilt
