import RowPolicy.Metadata.Catalog
import RowPolicy.Sql.Relation
import RowPolicy.Traced

/-!
# The relation of an entity

`Entity.relation` describes the rows of an entity that meet a predicate, with associations both
loaded along and joined in, so that the predicate may speak of the associated rows. A joined table
goes by the association's reference, the name that compiled conditions use for it.
-/

namespace RowPolicy.Entity

/-- The join along the association of a name. -/
def join (e : Entity) (c : Catalog) (name : String) : Except Fault Sql.Join :=
  match e.association? name with
  | none => .error (.invalidCondition e.name name .unknownAssociation)
  | some a => do
    let target ← c.target a
    let reference ← c.reference e a
    let join : Sql.Join := { table := target.table, condition := Sql.joinCondition a e.table reference }
    return (join.named reference).along name

/-- The relation with the association of a name loaded along and joined in. -/
def withAssociation (e : Entity) (c : Catalog) (r : Sql.Relation) (name : String) :
    Except Fault Sql.Relation := do
  return (r.eagerLoad name).join name (← e.join c name)

/-- The rows of the entity that meet a predicate, with associations loaded along and joined in. -/
def relation (e : Entity) (c : Catalog) (predicate : String) (joins : List String) :
    Except Fault Sql.Relation :=
  joins.foldlM (e.withAssociation c) (({ table := e.table } : Sql.Relation).restrict predicate)

/-- Builds the relation of the entity. -/
def buildRelation (e : Entity) (c : Catalog) (predicate : String) (joins : List String) :
    Traced Sql.Relation := do
  let relation ← Traced.lift (e.relation c predicate joins)
  Traced.log (.relationBuilt e.name relation.joins.length (!relation.clauses.isEmpty))
  return relation

end RowPolicy.Entity
