import RowPolicy.Sql.Quoted
import RowPolicy.Text.Cut

/-!
# Column references

A `ColumnRef` is a column of a table, or of the rows that go by a name in a statement. Keys of
conditions are read as references by `ColumnRef.ofKey`.
-/

namespace RowPolicy.Sql

/-- A column of a named table. -/
structure ColumnRef where
  /-- The table, or the name it goes by in the statement. -/
  table : String
  /-- The column. -/
  column : String
deriving DecidableEq, Repr

namespace ColumnRef

/-- Reads a key, `table.column` or a column of the default table. A key is divided at its first
dot. -/
def ofKey (key defaultTable : String) : ColumnRef :=
  match Text.cut? '.' key with
  | some (table, column) => ⟨table, column⟩
  | none => ⟨defaultTable, key⟩

/-- Whether the column is one of the table of a name. -/
def isOn (c : ColumnRef) (table : String) : Bool := c.table == table

/-- The SQL text. -/
def sql (c : ColumnRef) : String := identifier c.table ++ "." ++ identifier c.column

end ColumnRef

end RowPolicy.Sql
