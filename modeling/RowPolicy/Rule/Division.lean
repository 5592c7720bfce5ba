import RowPolicy.Rule.Leaf

/-!
# Ordinary leaves and JSON leaves

A leaf whose value is a nested map and whose key is the bare name of a column is a condition inside
that column's JSON. A `Division` keeps those apart from all others, each side in order.
-/

namespace RowPolicy

/-- Leaves divided by how they are compiled. -/
structure Division where
  /-- Conditions on columns. -/
  ordinary : List Leaf := []
  /-- Conditions inside the JSON of a column. -/
  json : List Leaf := []

/-- Whether a leaf is a condition inside the JSON of a column of `e`. -/
def Leaf.isJson (e : Entity) (leaf : Leaf) : Bool :=
  match leaf.value.shape with
  | .nested _ => e.hasColumn leaf.key
  | _ => false

/-- The warning that a JSON condition is on a column of another type. -/
def Leaf.typeWarning? (e : Entity) (leaf : Leaf) : Option Event :=
  match e.column? leaf.key with
  | some column =>
    if column.type.isJson then none
    else some (.nestedMapOnColumn e.name leaf.key column.type.label)
  | none => none

namespace Division

/-- Divides leaves, keeping their order on either side. -/
def ofLeaves (e : Entity) (leaves : List Leaf) : Division where
  ordinary := leaves.filter (!·.isJson e)
  json := leaves.filter (·.isJson e)

/-- The number of leaves. -/
def size (d : Division) : Nat := d.ordinary.length + d.json.length

end Division

/-- Divides leaves of the entity. -/
def Entity.divide (e : Entity) (leaves : List Leaf) : Traced Division := do
  let division := Division.ofLeaves e leaves
  Traced.logAll (division.json.filterMap (·.typeWarning? e))
  Traced.log (.divided e.name division.ordinary.length division.json.length)
  return division

end RowPolicy
