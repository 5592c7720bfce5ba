import RowPolicy.Json.Basic

/-!
# Records

A `Record` is one row in memory, with the values of its attributes. An attribute that stores a code
for a label is held by its label.
-/

namespace RowPolicy

/-- A row in memory. -/
structure Record where
  /-- The name of the row's entity. -/
  entity : String
  /-- The values of the attributes. -/
  attributes : Json.Members := []

namespace Record

/-- The record with a value for an attribute, in place of an earlier one. -/
def insert (r : Record) (name : String) (value : Json) : Record :=
  { r with attributes := r.attributes.insert name value }

/-- The value of an attribute, if the record has it. -/
def get? (r : Record) (name : String) : Option Json := r.attributes.get? name

end Record

end RowPolicy
