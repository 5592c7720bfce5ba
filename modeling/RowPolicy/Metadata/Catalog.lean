import RowPolicy.Fault
import RowPolicy.Metadata.Basic

/-!
# The catalog

A `Catalog` holds the entities that associations may lead to, one for each name. Within a statement
an association's target goes by a reference: the name of its table, or a name made of the
association and the table when the owner's table or an earlier association has taken the table's
name already.
-/

namespace RowPolicy

/-- The known entities. -/
structure Catalog where
  /-- The entities, latest first. -/
  entities : List Entity := []

namespace Catalog

/-- Adds an entity, in place of an earlier one of its name. -/
def register (c : Catalog) (e : Entity) : Catalog :=
  ⟨e :: c.entities.filter (·.name ≠ e.name)⟩

/-- The catalog of a list of entities, of which the last of a name counts. -/
def ofList (entities : List Entity) : Catalog := entities.foldl register {}

/-- The number of entities. -/
def size (c : Catalog) : Nat := c.entities.length

/-- The entity of a name. -/
def get? (c : Catalog) (name : String) : Option Entity := c.entities.find? (·.name == name)

/-- The entity of a name; a name without one is a fault. -/
def require (c : Catalog) (name : String) : Except Fault Entity :=
  match c.get? name with
  | some e => .ok e
  | none => .error (.unknownEntity name)

/-- The entity that an association leads to. -/
def target (c : Catalog) (a : Association) : Except Fault Entity := c.require a.target

/-- Whether a table's name already stands for other rows when an association of `owner` is reached:
for the owner's own, or for those of an association before it. -/
def isTaken (c : Catalog) (owner : Entity) (a : Association) (table : String) : Bool :=
  table == owner.table ||
    (owner.associations.takeWhile (·.name != a.name)).any fun earlier =>
      match c.get? earlier.target with
      | some e => e.table == table
      | none => false

/-- The name by which an association's target goes in a statement about `owner`. -/
def reference (c : Catalog) (owner : Entity) (a : Association) : Except Fault String := do
  let table := (← c.target a).table
  return if c.isTaken owner a table then a.name ++ "_" ++ table else table

/-! ### Look-up after registration -/

theorem get?_register_self (c : Catalog) (e : Entity) : (c.register e).get? e.name = some e := by
  simp [register, get?]

theorem get?_register_of_ne (c : Catalog) (e : Entity) {name : String} (h : name ≠ e.name) :
    (c.register e).get? name = c.get? name := by
  simp only [register, get?]
  rw [List.find?_cons_of_neg (by simpa using h.symm), List.find?_filter]
  congr 1
  funext x
  by_cases hx : x.name = name
  · simp [hx, h]
  · simp [hx]

theorem name_of_get?_eq_some {c : Catalog} {name : String} {e : Entity} (h : c.get? name = some e) :
    e.name = name := by
  simpa using List.find?_some h

end Catalog

end RowPolicy
