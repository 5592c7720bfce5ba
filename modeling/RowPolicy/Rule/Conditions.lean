import RowPolicy.Fault
import RowPolicy.Json.Printer

/-!
# Conditions

The `Conditions` of a rule are an ordered map from attributes to the values they must have. By its
shape a value asks for equality, for membership, or for conditions of its own.
-/

namespace RowPolicy

/-- An ordered map from attributes to the values they must have. -/
structure Conditions where
  /-- The attributes and their values, in order. -/
  entries : Json.Members := []

namespace Conditions

/-- The conditions that a JSON object states. -/
def ofJson : Json → Except Fault Conditions
  | .obj members => .ok ⟨members⟩
  | value => .error (.invalidCondition "conditions" "<root>" (.notAnObject value.text))

/-- The JSON object that states the conditions. -/
def toJson (c : Conditions) : Json := .obj c.entries

/-- The conditions stated one after the other; a later value replaces an earlier one in place. -/
def ofList (pairs : List (String × Json)) : Conditions := ⟨.ofList pairs⟩

/-- The conditions with a value for an attribute, in place of an earlier one. -/
def insert (c : Conditions) (key : String) (value : Json) : Conditions :=
  ⟨c.entries.insert key value⟩

/-- The value for an attribute. -/
def get? (c : Conditions) (key : String) : Option Json := c.entries.get? key

/-- The attributes, in order. -/
def keys (c : Conditions) : List String := c.entries.keys

/-- The number of attributes. -/
def size (c : Conditions) : Nat := c.entries.length

end Conditions

/-- The shape of a value. -/
inductive Shape where
  /-- A single value, to be equal to. -/
  | scalar (value : Json)
  /-- Values, to be among. -/
  | collection (items : List Json)
  /-- Conditions on the parts of an attribute or on an associated row. -/
  | nested (members : Json.Members)

/-- The shape of a value. -/
def Json.shape : Json → Shape
  | .arr items => .collection items
  | .obj members => .nested members
  | value => .scalar value

end RowPolicy
