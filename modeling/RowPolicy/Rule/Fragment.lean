import RowPolicy.Rule.Division
import RowPolicy.Sql.Predicate

/-!
# Fragments

Each leaf is compiled to one fragment of SQL text, and the fragments are joined with `AND`: those of
ordinary leaves first, then those of JSON leaves. Nothing is put in parentheses around them.

An ordinary leaf becomes a predicate on its column. Where the entity that declares the column stores
codes for labels there, labels in the value are replaced by their codes. All predicates are built
before the first is written out.
-/

namespace RowPolicy

namespace Leaf

/-- A value as it is stored: the code of a label if the column has labels, else the value itself. -/
def stored (leaf : Leaf) (labels? : Option Labels) : Json → Except Fault Json
  | .str label => match labels? with
    | some labels => match labels.get? label with
      | some code => .ok (.num (.int code.toInt))
      | none => .error (.invalidCondition leaf.entity leaf.key (.unknownLabel label))
    | none => .ok (.str label)
  | value => .ok value

/-- A member of a collection as it is stored; a member must be a scalar. -/
def storedMember (leaf : Leaf) (labels? : Option Labels) (member : Json) : Except Fault Json :=
  match member.shape with
  | .scalar value => leaf.stored labels? value
  | _ => .error (.unsupportedValue leaf.key .nestedMember)

/-- The column that an ordinary leaf of the entity `e` is about. -/
def column (e : Entity) (leaf : Leaf) : Sql.ColumnRef := .ofKey leaf.key e.table

/-- The entity that declares the column of a leaf of the entity `e`. -/
def declarer? (c : Catalog) (e : Entity) (leaf : Leaf) : Option Entity :=
  if leaf.entity = e.name then some e else c.get? leaf.entity

/-- The labels of the column of a leaf of the entity `e`. -/
def labels? (c : Catalog) (e : Entity) (leaf : Leaf) : Option Labels := do
  (← leaf.declarer? c e).labels? (leaf.column e).column

/-- The predicate of an ordinary leaf of the entity `e`. -/
def predicate (c : Catalog) (e : Entity) (leaf : Leaf) : Except Fault Sql.Predicate :=
  let labels := leaf.labels? c e
  match leaf.value.shape with
  | .scalar value => do return .equals (leaf.column e) (← leaf.stored labels value)
  | .collection items => do
    return .member (leaf.column e) (← items.mapM (leaf.storedMember labels))
  | .nested _ => .error (.unsupportedValue leaf.key .nestedMap)

end Leaf

/-! ### Conditions inside JSON -/

namespace Entity

/-- The text that a value has inside JSON: a text as it is, nothing for null. -/
def jsonValueText : Json → String
  | .str s => s
  | .null => ""
  | value => value.text

/-- The fragment of a condition inside the JSON of a column. It compares what is under the first key
of the nested map; further keys are left out. -/
def jsonFragment (e : Entity) (column : String) (value : Json) : Except Fault String :=
  match value.shape with
  | .nested ((key, value) :: _) => do
    return e.table ++ "." ++ column ++ "->" ++ (← Sql.textLiteral key) ++ " = " ++
      (← Sql.textLiteral (jsonValueText value))
  | .nested [] => .error (.invalidCondition e.name column .emptyJsonCondition)
  | _ => .error (.unsupportedValue column .notANestedMap)

/-- The warning that a condition inside JSON has further keys. -/
def keysWarning? (e : Entity) (column : String) (value : Json) : Option Event :=
  match value.shape with
  | .nested ((key, _) :: rest) =>
    if rest.isEmpty then none else some (.keysIgnored e.name column key rest.length)
  | _ => none

/-- Compiles a condition inside the JSON of a column. -/
def compileJson (e : Entity) (column : String) (value : Json) : Traced String := do
  Traced.logAll (e.keysWarning? column value).toList
  Traced.lift (e.jsonFragment column value)

end Entity

/-! ### Whole conditions -/

/-- The compiled fragments of conditions. -/
structure Fragments where
  /-- Fragments of ordinary leaves. -/
  ordinary : List String := []
  /-- Fragments of conditions inside JSON. -/
  json : List String := []
deriving DecidableEq, Repr

namespace Fragments

/-- All fragments, ordinary ones first. -/
def toList (f : Fragments) : List String := f.ordinary ++ f.json

/-- The number of fragments. -/
def size (f : Fragments) : Nat := f.toList.length

/-- Fragments joined to one expression. -/
def conjunction (fragments : List String) : String := " AND ".intercalate fragments

/-- The fragments joined to one expression. -/
def sql (f : Fragments) : String := conjunction f.toList

end Fragments

namespace Entity

/-- The fragments of ordinary leaves: all predicates are built, then all are written out. -/
def ordinaryFragments (e : Entity) (c : Catalog) (leaves : List Leaf) : Except Fault (List String) := do
  (← leaves.mapM (Leaf.predicate c e)).mapM Sql.Predicate.sql

/-- Compiles divided leaves. -/
def compileDivision (e : Entity) (c : Catalog) (division : Division) : Traced Fragments := do
  let ordinary ← Traced.lift (e.ordinaryFragments c division.ordinary)
  let json ← division.json.mapM fun leaf => e.compileJson leaf.key leaf.value
  return ⟨ordinary, json⟩

/-- Resolves, expands and divides conditions on the entity. -/
def divideConditions (e : Entity) (c : Catalog) (conditions : Conditions) : Traced Division := do
  e.divide (← e.expand (← e.resolve c conditions))

/-- Compiles conditions on the entity to fragments. -/
def compile (e : Entity) (c : Catalog) (conditions : Conditions) : Traced Fragments := do
  e.compileDivision c (← e.divideConditions c conditions)

/-- Compiles conditions on the entity to one expression. -/
def compileSql (e : Entity) (c : Catalog) (conditions : Conditions) : Traced String := do
  let fragments ← e.compile c conditions
  Traced.log (.compiled e.name fragments.ordinary.length fragments.json.length)
  return fragments.sql

end Entity

end RowPolicy
