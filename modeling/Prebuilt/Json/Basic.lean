import Prebuilt.Decimal.Double
import Prebuilt.Table
/-!
JSON values. Whole numbers and binary fractions stay apart, and an object keeps its keys in the order in which they were
first written.
-/
set_option autoImplicit false

namespace Prebuilt

inductive Json where
  | null
  | bool (b : Bool)
  | int (n : Int)
  | float (x : Double)
  | text (t : Text)
  | array (items : List Json)
  | object (fields : List (Text × Json))
  deriving Inhabited

abbrev Fields := Table Json

namespace Json

/-- Whether a condition on the value counts as false: nothing, zero, or empty. -/
def isFalsy : Json → Bool
  | .null => true
  | .bool b => !b
  | .int n => n == 0
  | .float (.finite _ m _) => m == 0
  | .float _ => false
  | .text t => t.isEmpty
  | .array items => items.isEmpty
  | .object fields => fields.isEmpty

def text? : Json → Option Text
  | .text t => some t
  | _ => none

def array? : Json → Option (List Json)
  | .array items => some items
  | _ => none

def object? : Json → Option Fields
  | .object fields => some fields
  | _ => none

/-- The name of the kind of a JSON value, as messages have it. -/
def kindName : Json → Text
  | .null => "NoneType"
  | .bool _ => "bool"
  | .int _ => "int"
  | .float _ => "float"
  | .text _ => "str"
  | .array _ => "list"
  | .object _ => "dict"

/-- The value of a key of an object. -/
def get? (key : Text) : Json → Option Json
  | .object fields => Table.get? key fields
  | _ => none

end Json

end Prebuilt
