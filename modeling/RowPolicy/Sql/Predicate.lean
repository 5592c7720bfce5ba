import RowPolicy.Sql.Column

/-!
# Predicates

A `Predicate` is the test that one condition makes of a row. `Predicate.equals` and
`Predicate.member` build the tests whose text means in SQL what the condition says: a comparison
with `NULL` is never true, so null values are tested by `IS NULL`, and membership in nothing is the
predicate that no row meets.
-/

namespace RowPolicy.Sql

/-- A test of a row. -/
inductive Predicate where
  /-- The column has the value. -/
  | equal (column : ColumnRef) (value : Json)
  /-- The column has one of the values. -/
  | isIn (column : ColumnRef) (values : List Json)
  /-- The column has no value. -/
  | isNull (column : ColumnRef)
  /-- One of the tests is met. -/
  | either (tests : List Predicate)
  /-- No row meets this test. -/
  | never

namespace Predicate

/-- The test that a column equals a value, which may be null. -/
def equals (column : ColumnRef) (value : Json) : Predicate :=
  if value.isNull then isNull column else equal column value

/-- The test that a column is among values, of which some may be null. -/
def member (column : ColumnRef) (values : List Json) : Predicate :=
  let present := values.filter (!·.isNull)
  match present.isEmpty, values.any Json.isNull with
  | true, false => never
  | true, true => isNull column
  | false, false => isIn column present
  | false, true => either [isIn column present, isNull column]

mutual

/-- The SQL text. -/
def sql : Predicate → Except Fault String
  | equal column value => do return column.sql ++ " = " ++ (← literal value)
  | isIn column values => do
    return column.sql ++ " IN (" ++ ", ".intercalate (← values.mapM literal) ++ ")"
  | isNull column => .ok (column.sql ++ " IS NULL")
  | either tests => do return "(" ++ " OR ".intercalate (← sqlAll tests) ++ ")"
  | never => .ok "1=0"

/-- The SQL texts of several tests. -/
def sqlAll : List Predicate → Except Fault (List String)
  | [] => .ok []
  | test :: rest => do
    let text ← sql test
    return text :: (← sqlAll rest)

end

end Predicate

end RowPolicy.Sql
