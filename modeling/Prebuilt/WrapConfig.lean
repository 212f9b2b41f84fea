import Prebuilt.Release
/-!
The description of one wrapper: the directory it unpacks beneath, the binaries in each archive, and where the archive
of each platform is published.
-/
set_option autoImplicit false

namespace Prebuilt

structure WrapConfig where
  directory : Text
  binaries : List Text
  urls : List (Text × Text)
  deriving DecidableEq, Repr

namespace WrapConfig

def isBinaryName (name : Text) : Bool := !name.isEmpty && !name.has '/' && !name.has '\\'

def checkedBinaries (place : List PlaceStep) (x : Json) : Checked (List Text) :=
  match x.asTexts place with
  | .error issues => .error issues
  | .ok names =>
    match names.find? (!isBinaryName ·) with
    | some name => Checked.reject place (.rejected ("invalid binary name: " ++ name.quoted))
    | none => .ok names

/-- Why a table of addresses is not acceptable: unknown platforms come before unknown archive types. -/
def urlsFault? (urls : List (Text × Text)) : Option Text :=
  let unknown := (urls.map (·.1)).filter (!Platform.isKnownKey ·)
  if urls.isEmpty then some "at least one platform URL is required"
  else if !unknown.isEmpty then some ("unknown platform keys: " ++ Text.joinWith ", " (Text.sorted unknown))
  else urls.findSome? fun (_, url) =>
    match archiveType url with
    | .ok _ => none
    | .error e => some e.message

def checkedUrls (place : List PlaceStep) (x : Json) : Checked (List (Text × Text)) :=
  match x.asTable place with
  | .error issues => .error issues
  | .ok urls =>
    match urlsFault? urls with
    | some reason => Checked.reject place (.rejected reason)
    | none => .ok urls

def ofFields (fields : Fields) : Checked WrapConfig :=
  (Checked.both (Fields.required fields "dirname" Json.asText)
    (Checked.both (Fields.required fields "binaries" checkedBinaries)
      (Fields.required fields "urls" checkedUrls))).map
    fun (directory, binaries, urls) => ⟨directory, binaries, urls⟩

/-- The archive for a platform, if one is published. -/
def dependency? (config : WrapConfig) (key : Text) : Except Error (Option Dependency) :=
  match Table.get? key config.urls with
  | none => .ok none
  | some url => (Dependency.ofUrl key url).map some

def dependencies (config : WrapConfig) : Except Error (List (Text × Dependency)) :=
  config.urls.mapM fun (key, url) => (Dependency.ofUrl key url).map fun d => (key, d)

/-- The configuration that wraps a release of the `run` tool. -/
def ofVersion (version directory : Text) : WrapConfig := ⟨directory, [Release.binary], Release.urls version⟩

/-- The items of a value that may stand for a pair: those of a list, the letters of a text, the keys of an object. -/
def pairItems? : Json → Option (List Json)
  | .array items => some items
  | .text t => some (t.map fun c => .text [c])
  | .object fields => some (fields.map fun (key, _) => .text key)
  | _ => none

/-- The pair at an index of a list of pairs. A key that is no text makes no field, and is refused once all are read. -/
def pairAt (index : Nat) (x : Json) : Except Error (Option Text × Json) :=
  match pairItems? x with
  | none => .error (.kind (.notSequence index))
  | some [.text key, value] => .ok (some key, value)
  | some [.array _, _] => .error (.kind (.unhashable "list"))
  | some [.object _, _] => .error (.kind (.unhashable "dict"))
  | some [_, value] => .ok (none, value)
  | some items => .error (.value (.pairLength index items.length))

def fieldsOfPairs (items : List Json) : Except Error (List (Option Text × Json)) :=
  items.zipIdx.mapM fun (x, index) => pairAt index x

/-- Fields from a configuration given as an object or as pairs, with `more` in place of fields of the same name. -/
def fieldsOf (given : Json) (more : Fields) : Except Error Fields := do
  let pairs ←
    if given.isFalsy then pure []
    else match given with
      | .object fields => pure (fields.map fun (key, x) => (some key, x))
      | .array items => fieldsOfPairs items
      | .text t => fieldsOfPairs (t.map fun c => .text [c])
      | x => throw (.kind (.notIterable x.kindName))
  if pairs.any (·.1.isNone) then throw (.kind .keysNotText)
  let named := pairs.filterMap fun (key, x) => key.map fun key => (key, x)
  return Table.ofPairs (named ++ more)

end WrapConfig

end Prebuilt
