import Prebuilt.Json.Basic
/-!
Checking a JSON object against the fields of a record. Every field is judged, so all complaints are found in one go,
in the order of the record's fields.
-/
set_option autoImplicit false

namespace Prebuilt

/-- One step from a value into a part of it. -/
inductive PlaceStep where
  | key (name : Text)
  | index (n : Nat)
  deriving DecidableEq, Repr

inductive Complaint where
  | missing
  | notText
  /-- A surrogate stands alone in the text. -/
  | notUnicode
  | notList
  | notTable
  | noItems
  /-- The value has the right shape and breaks a rule. -/
  | rejected (reason : Text)
  /-- Somebody tried to change a field. -/
  | frozen
  deriving DecidableEq, Repr

def Complaint.code : Complaint → Text
  | .missing => "missing"
  | .notText => "string_type"
  | .notUnicode => "string_unicode"
  | .notList => "list_type"
  | .notTable => "dict_type"
  | .noItems => "too_short"
  | .rejected _ => "value_error"
  | .frozen => "frozen_instance"

def Complaint.message : Complaint → Text
  | .missing => "Field required"
  | .notText => "Input should be a valid string"
  | .notUnicode => "Input should be a valid string, unable to parse raw data as a unicode string"
  | .notList => "Input should be a valid list"
  | .notTable => "Input should be a valid dictionary"
  | .noItems => "List should have at least 1 item after validation, not 0"
  | .rejected reason => "Value error, " ++ reason
  | .frozen => "Instance is frozen"

structure Issue where
  place : List PlaceStep
  complaint : Complaint
  deriving DecidableEq, Repr

/-- A value, or everything that is wrong with it. -/
abbrev Checked (α : Type) := Except (List Issue) α

namespace Checked

def reject {α : Type} (place : List PlaceStep) (complaint : Complaint) : Checked α := .error [⟨place, complaint⟩]

/-- Both values, or the issues of both. -/
def both {α β : Type} (a : Checked α) (b : Checked β) : Checked (α × β) :=
  match a, b with
  | .ok a, .ok b => .ok (a, b)
  | .ok _, .error issues => .error issues
  | .error issues, .ok _ => .error issues
  | .error issues, .error more => .error (issues ++ more)

def all {α : Type} : List (Checked α) → Checked (List α)
  | [] => .ok []
  | a :: r => (both a (all r)).map fun (a, r) => a :: r

end Checked

namespace Json

def asText (place : List PlaceStep) : Json → Checked Text
  | .text t => .ok t
  | _ => Checked.reject place .notText

def asTexts (place : List PlaceStep) : Json → Checked (List Text)
  | .array items =>
    if items.isEmpty then Checked.reject place .noItems
    else Checked.all (items.zipIdx.map fun (x, n) => x.asText (place ++ [.index n]))
  | _ => Checked.reject place .notList

def asTable (place : List PlaceStep) : Json → Checked (List (Text × Text))
  | .object fields =>
    Checked.all (fields.map fun (key, x) => (x.asText (place ++ [.key key])).map fun t => (key, t))
  | _ => Checked.reject place .notTable

end Json

/-- A field that has to be there. -/
def Fields.required {α : Type} (fields : Fields) (name : Text) (read : List PlaceStep → Json → Checked α) : Checked α :=
  match Table.get? name fields with
  | some x => read [.key name] x
  | none => Checked.reject [.key name] .missing

end Prebuilt
