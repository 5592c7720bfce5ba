import RowPolicy.Metadata.Basic
import RowPolicy.Sql.Column
import RowPolicy.Text.Blank

/-!
# Relations

A `Relation` describes a query on one table that has not been run. Associations to load along with
the rows are kept apart from associations that are joined into the statement; each name is taken
once, at its first mention.
-/

namespace RowPolicy.Sql

/-- A left outer join. -/
structure Join where
  /-- The joined table. -/
  table : String
  /-- The name it goes by, if another than its own. -/
  alias? : Option String := none
  /-- The join condition. -/
  condition : String
  /-- The association that the join follows. -/
  association? : Option String := none
deriving DecidableEq, Repr

namespace Join

/-- The join under a name; the table's own name is no alias. -/
def named (j : Join) (name : String) : Join :=
  { j with alias? := if name = j.table then none else some name }

/-- The join marked with the association that it follows. -/
def along (j : Join) (association : String) : Join := { j with association? := some association }

/-- The name by which the joined rows go in the statement. -/
def effectiveName (j : Join) : String := j.alias?.getD j.table

/-- The SQL text. -/
def sql (j : Join) : String :=
  let table := match j.alias? with
    | some name => identifier j.table ++ " " ++ identifier name
    | none => identifier j.table
  "LEFT OUTER JOIN " ++ table ++ " ON " ++ j.condition

end Join

/-- The condition that joins the rows of an association's target, named `target`, to those of the
table `owner`. -/
def joinCondition (a : Association) (owner target : String) : String :=
  match a.kind with
  | .belongsTo => ColumnRef.sql ⟨target, a.primaryKey⟩ ++ " = " ++ ColumnRef.sql ⟨owner, a.foreignKey⟩
  | .hasOne | .hasMany =>
    ColumnRef.sql ⟨target, a.foreignKey⟩ ++ " = " ++ ColumnRef.sql ⟨owner, a.primaryKey⟩

/-- A query on one table. -/
structure Relation where
  /-- The table. -/
  table : String
  /-- Predicates that every row meets. -/
  clauses : List String := []
  /-- Joins, one for each joined association. -/
  joins : List Join := []
  /-- Associations to load along with the rows. -/
  eagerLoads : List String := []
  /-- Associations joined into the statement. -/
  references : List String := []
deriving DecidableEq, Repr

namespace Relation

/-- The relation restricted by a predicate; a blank one restricts nothing. -/
def restrict (r : Relation) (predicate : String) : Relation :=
  if Text.isBlank predicate then r else { r with clauses := r.clauses ++ [predicate] }

/-- The relation that also loads an association. -/
def eagerLoad (r : Relation) (association : String) : Relation :=
  if association ∈ r.eagerLoads then r
  else { r with eagerLoads := r.eagerLoads ++ [association] }

/-- The relation with an association joined in; of two joins for one association the first stays. -/
def join (r : Relation) (association : String) (j : Join) : Relation :=
  if association ∈ r.references then r
  else { r with references := r.references ++ [association], joins := r.joins ++ [j] }

/-- Whether an association to load is joined in. -/
def isEagerLoading (r : Relation) : Bool := r.eagerLoads.any (· ∈ r.references)

/-- The SQL text. -/
def sql (r : Relation) : String :=
  let table := identifier r.table
  let joins := String.join (r.joins.map fun j => " " ++ j.sql)
  let filter :=
    if r.clauses.isEmpty then ""
    else " WHERE " ++ " AND ".intercalate (r.clauses.map fun clause => "(" ++ clause ++ ")")
  "SELECT " ++ table ++ ".* FROM " ++ table ++ joins ++ filter

end Relation

end RowPolicy.Sql
