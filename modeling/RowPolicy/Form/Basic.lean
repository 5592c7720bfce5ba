import RowPolicy.Form.Fields

/-!
# Forms

A form says how values of a type are written as JSON: which part of a document is wanted, and what
value that part is. A value that is at hand as JSON is read by the second alone.
-/

namespace RowPolicy

/-- The JSON form of the values of a type. -/
structure Form (α : Type) where
  /-- What is wanted of a document. -/
  shape : Json.Shape
  /-- Reads a value from what is wanted. -/
  ofJson? : Json → Option α

namespace Form

variable {α : Type}

/-- Reads a value from a document. -/
def ofText? (form : Form α) (s : String) : Option α := do form.ofJson? (← form.shape.read? s)

/-- Any JSON, with repeated keys resolved. -/
def json : Form Json := ⟨.whole, fun value => some value.merged⟩

/-- A value that may be null. -/
def nullable (form : Form α) : Form (Option α) where
  shape := form.shape
  ofJson?
    | .null => some none
    | value => (form.ofJson? value).map some

/-- The items of a list. -/
def list (form : Form α) : Form (List α) where
  shape := .list form.shape
  ofJson? := Json.list? form.ofJson?

end Form

end RowPolicy
