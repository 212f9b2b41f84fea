import Prebuilt.Error
import Prebuilt.Text.Lines
import Prebuilt.Version
/-!
Package metadata: a version, optionally a name, and other keys that are kept as they are.
-/
set_option autoImplicit false

namespace Prebuilt

structure Metadata where
  name : Option Text
  version : Text
  extra : Fields

/-- Changing a record is refused; names that start with an underscore are nobody's field. -/
def refuseChange (name : Text) : Checked Unit :=
  if name.head? = some '_' then .ok () else Checked.reject [.key name] .frozen

namespace Metadata

def nameOf (fields : Fields) : Checked (Option Text) :=
  match Table.get? "name" fields with
  | none => .ok none
  | some .null => .ok none
  | some x => (x.asText [.key "name"]).map some

def checkedVersion (place : List PlaceStep) (x : Json) : Checked Text :=
  match x.asText place with
  | .error issues => .error issues
  | .ok version =>
    if Version.isSemantic version then .ok version
    else Checked.reject place (.rejected ("not a semantic version: " ++ version.quoted))

/-- The other keys are kept as text, and where one is no text nothing else is judged. -/
def ofFields (fields : Fields) : Checked Metadata :=
  if fields.all fun (key, _) => key.isString then
    (Checked.both (nameOf fields) (Fields.required fields "version" checkedVersion)).map fun (name, version) =>
      ⟨name, version, fields.filter fun (key, _) => key != "name" && key != "version"⟩
  else Checked.reject [] .notUnicode

/-- Metadata from the bytes of a file; the path is for messages only. -/
def ofBytes (path : Text) (bytes : Bytes) : Except Error Metadata :=
  match Utf8.decode bytes with
  | .error fault => .error (.undecodable fault)
  | .ok text =>
    let text := Text.unifyLineEnds text
    match Json.parse Json.depthLimit text with
    | .error (.malformed what position) =>
      .error (.configuration (.malformed path (Json.malformedMessage text what position)))
    | .error (.tooDeep inObject) => .error (.tooDeep inObject)
    | .error (.tooManyDigits count) => .error (.value (.tooManyDigits count))
    | .ok (.object fields) =>
      match ofFields fields with
      | .error issues => .error (.configuration (.invalidMetadata path issues))
      | .ok metadata => .ok metadata
    | .ok _ => .error (.configuration (.notAnObject path))

end Metadata

end Prebuilt
