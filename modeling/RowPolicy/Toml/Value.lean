import RowPolicy.Number.Extended

/-!
# Values of a document

The types of values that a document may set. A date, a time or both are kept as their text in one
normal form.
-/

namespace RowPolicy.Toml

/-- A value of a document. -/
inductive Value where
  /-- A truth value. -/
  | flag (b : Bool)
  /-- An integer. -/
  | int (n : Int)
  /-- A floating-point value. -/
  | float (x : Extended)
  /-- A text. -/
  | text (s : String)
  /-- A date, a time or both. -/
  | dateTime (s : String)
  /-- Several values. -/
  | list (items : List Value)
  /-- Named values, in order. -/
  | table (entries : List (String × Value))

end RowPolicy.Toml
