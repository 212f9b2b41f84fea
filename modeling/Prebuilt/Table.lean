import Prebuilt.Text.Basic
/-!
Tables from names to values. The entries keep the order in which their names were first written.
-/
set_option autoImplicit false

namespace Prebuilt

abbrev Table (α : Type) := List (Text × α)

namespace Table

variable {α : Type}

/-- A later value takes the place of the earlier one of the name. -/
def put (key : Text) (value : α) : Table α → Table α
  | [] => [(key, value)]
  | (k, v) :: r => if k = key then (k, value) :: r else (k, v) :: put key value r

def get? (key : Text) : Table α → Option α
  | [] => none
  | (k, v) :: r => if k = key then some v else get? key r

def ofPairs (pairs : List (Text × α)) : Table α := pairs.foldl (fun table (k, v) => put k v table) []

def keys (table : Table α) : List Text := table.map (·.1)

end Table

end Prebuilt
