import RowPolicy.Metadata.Catalog
import RowPolicy.Rule.Conditions
import RowPolicy.Text.Cut
import RowPolicy.Traced

/-!
# Leaves

Conditions are resolved to a list of leaves, each a condition on one column. A leaf's key is the
bare name of a column of the entity itself, or `reference.column` for the rows of an associated
entity. Two conditions that come down to the same column stay two leaves.

A key of the condition map is tried as an alias, as a column or aggregation, as an association, and
last as a dotted key that is a reference and a column already. Below an association only aliases,
columns and further associations count.
-/

namespace RowPolicy

/-- A condition on one column. -/
structure Leaf where
  /-- A column of the entity, or `reference.column`. -/
  key : String
  /-- The value that the column must have. -/
  value : Json
  /-- The entity that declares the column. -/
  entity : String

namespace Leaf

/-! ### Through associations -/

mutual

/-- The leaves of a value given to an association of `owner`, which goes by `reference` unless it is
the entity that the conditions are about. A nested map holds conditions on the target; any other
value is compared with the foreign key, which only the owner of the key has. -/
def ofAssociation (c : Catalog) (owner : Entity) (reference : Option String) (a : Association) :
    Json → Except Fault (List Leaf)
  | .obj members => do
    let target ← c.target a
    ofMembers c target (← c.reference owner a) members
  | value =>
    if a.kind = .belongsTo then
      let key := match reference with
        | some name => name ++ "." ++ a.foreignKey
        | none => a.foreignKey
      .ok [⟨key, value, owner.name⟩]
    else .error (.invalidCondition owner.name a.name .associationNeedsMap)

/-- The leaves of a nested map of conditions on `target`, which goes by `reference`. -/
def ofMembers (c : Catalog) (target : Entity) (reference : String) :
    List (String × Json) → Except Fault (List Leaf)
  | [] => .ok []
  | (key, value) :: rest => do
    let leaves ← match target.columnFor? key with
      | some column => .ok [⟨reference ++ "." ++ column, value, target.name⟩]
      | none => match target.association? key with
        | some a => ofAssociation c target (some reference) a value
        | none => .error (.invalidCondition target.name key .unknownNestedKey)
    return leaves ++ (← ofMembers c target reference rest)

end

/-! ### From the top -/

/-- The entity that a dotted key `reference.column` speaks of: the entity itself under its table's
name, else the target of the first association that goes by the reference and has the column. -/
def qualifiedEntity? (c : Catalog) (e : Entity) (reference column : String) : Option Entity :=
  if reference = e.table then if e.hasColumn column then some e else none
  else e.associations.findSome? fun a => do
    let target ← c.get? a.target
    let name ← (c.reference e a).toOption
    if name = reference ∧ target.hasColumn column then some target else none

/-- The leaves of one condition on the entity `e`. -/
def ofEntry (c : Catalog) (e : Entity) (key : String) (value : Json) : Except Fault (List Leaf) :=
  match e.aliasTarget? key with
  | some column => .ok [⟨column, value, e.name⟩]
  | none =>
    if e.hasColumn key || (e.aggregation? key).isSome then .ok [⟨key, value, e.name⟩]
    else match e.association? key with
      | some a => ofAssociation c e none a value
      | none => match Text.cut? '.' key with
        | some (reference, column) => match qualifiedEntity? c e reference column with
          | some owner => .ok [⟨key, value, owner.name⟩]
          | none => .error (.invalidCondition e.name key .unknownQualifiedKey)
        | none => .error (.invalidCondition e.name key .unknownKey)

/-- The leaves of conditions on the entity `e`, in the order of the conditions. -/
def ofConditions (c : Catalog) (e : Entity) (conditions : Conditions) : Except Fault (List Leaf) := do
  return (← conditions.entries.mapM fun (key, value) => ofEntry c e key value).flatten

/-! ### Aggregations -/

/-- A leaf on an aggregation becomes leaves on its columns: each field of a nested map goes to the
field's column, a missing one as null; any other value goes to the only column. -/
def expand (e : Entity) (leaf : Leaf) : Except Fault (List Leaf) :=
  match e.aggregation? leaf.key with
  | none => .ok [leaf]
  | some a => match leaf.value.shape with
    | .nested members =>
      .ok (a.mapping.map fun (field, column) => ⟨column, (members.get? field).getD .null, e.name⟩)
    | _ => match a.singleColumn? with
      | some column => .ok [⟨column, leaf.value, e.name⟩]
      | none => .error (.invalidCondition e.name a.name .aggregationNeedsMap)

/-- Leaves with every aggregation expanded in place. -/
def expandAll (e : Entity) (leaves : List Leaf) : Except Fault (List Leaf) := do
  return (← leaves.mapM (expand e)).flatten

end Leaf

/-! ### With log events -/

namespace Entity

/-- Resolves conditions on the entity. -/
def resolve (e : Entity) (c : Catalog) (conditions : Conditions) : Traced (List Leaf) := do
  let leaves ← Traced.lift (Leaf.ofConditions c e conditions)
  Traced.log (.resolved e.name conditions.size leaves.length)
  return leaves

/-- Expands the entity's aggregations. -/
def expand (e : Entity) (leaves : List Leaf) : Traced (List Leaf) := do
  let expanded ← Traced.lift (Leaf.expandAll e leaves)
  let aggregates := leaves.countP fun leaf => (e.aggregation? leaf.key).isSome
  if 0 < aggregates then Traced.log (.expanded e.name aggregates expanded.length)
  return expanded

end Entity

end RowPolicy
