import RowPolicy.Match.Policy
import RowPolicy.Rule.Fragment
import RowPolicy.Settings.Basic
import RowPolicy.Sql.EntityRelation

/-!
# Guards

A `Guard` applies the conditions of rules to one entity: as an SQL predicate, as a relation of the
rows that meet them, or to a record in memory.
-/

namespace RowPolicy

/-- What conditions on one entity are applied with. -/
structure Guard where
  /-- The known entities. -/
  catalog : Catalog
  /-- The entity that conditions are about. -/
  entity : Entity
  /-- How records are compared. -/
  policies : MatchPolicies := {}
  /-- What is logged. -/
  settings : Settings

namespace Guard

/-- The conditions as one SQL predicate, without parentheses around it. -/
def sql (g : Guard) (conditions : Conditions) : Traced String := do
  let sql ← g.entity.compileSql g.catalog conditions
  if g.settings.logCompiledSql then Traced.log (.predicate g.entity.name conditions.size sql)
  return sql

/-- The relation of the rows that meet the conditions, with associations loaded along and joined. -/
def relation (g : Guard) (conditions : Conditions) (joins : List String) : Traced Sql.Relation := do
  g.entity.buildRelation g.catalog (← g.sql conditions) joins

/-- Whether a policy other than plain comparison decides on an attribute of a record. -/
def overrides (g : Guard) (r : Record) (name : String) : Bool :=
  (g.policies.policy r.entity).overrides (g.catalog.get? r.entity) name

/-- Whether a record meets a condition on an attribute. -/
def admits (g : Guard) (r : Record) (name : String) (target : Json) : Traced Bool := do
  let policy := g.policies.policy r.entity
  let matched ← policy.check (g.catalog.get? r.entity) r name target
  Traced.log (.decided r.entity name (g.overrides r name) matched)
  return matched

end Guard

end RowPolicy
