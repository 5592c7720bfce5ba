import RowPolicy.Dictionary

/-!
# Entity metadata

An `Entity` describes one kind of row: its table and columns, its associations with other entities,
other names for its columns, attributes composed of several columns, and attributes that store a
code for a label. All of it is data; what SQL makes of it is in `RowPolicy.Sql`.

Lists may name a thing twice. Every look-up takes the first.
-/

namespace RowPolicy

/-- The storage type of a column. -/
inductive ColumnType where
  /-- A 32-bit integer. -/
  | integer
  /-- A 64-bit integer. -/
  | bigInt
  /-- A floating-point number. -/
  | float
  /-- A decimal number. -/
  | decimal
  /-- A truth value. -/
  | boolean
  /-- A text. -/
  | text
  /-- A point in time. -/
  | timestamp
  /-- A universally unique identifier. -/
  | uuid
  /-- JSON text. -/
  | json
  /-- JSON in binary form. -/
  | jsonb
deriving DecidableEq, Repr

namespace ColumnType

/-- Whether columns of the type hold JSON. -/
def isJson : ColumnType → Bool
  | json | jsonb => true
  | _ => false

/-- The name of the type in log entries. -/
def label : ColumnType → String
  | integer => "Integer"
  | bigInt => "BigInt"
  | float => "Float"
  | decimal => "Decimal"
  | boolean => "Boolean"
  | text => "Text"
  | timestamp => "Timestamp"
  | uuid => "Uuid"
  | json => "Json"
  | jsonb => "Jsonb"

end ColumnType

/-- A column of a table. -/
structure Column where
  /-- The name. -/
  name : String
  /-- The storage type. -/
  type : ColumnType
deriving DecidableEq, Repr

/-- Where the foreign key of an association is, and how many rows it reaches. -/
inductive AssociationKind where
  /-- The foreign key is on the owner's table. -/
  | belongsTo
  /-- The foreign key is on the target's table, and at most one row has it. -/
  | hasOne
  /-- The foreign key is on the target's table. -/
  | hasMany
deriving DecidableEq, Repr

/-- An association of an entity with another. -/
structure Association where
  /-- The name. -/
  name : String
  /-- Where the foreign key is. -/
  kind : AssociationKind
  /-- The name of the target entity. -/
  target : String
  /-- The column that refers. -/
  foreignKey : String
  /-- The column referred to. -/
  primaryKey : String
deriving DecidableEq, Repr

namespace Association

/-- The primary key of an association that states none. -/
def defaultPrimaryKey : String := "id"

/-- An association whose foreign key is the owner's column named after it. -/
def belongsTo (name target : String) : Association :=
  ⟨name, .belongsTo, target, name ++ "_id", defaultPrimaryKey⟩

/-- An association with at most one row of the target's table. -/
def hasOne (name target foreignKey : String) : Association :=
  ⟨name, .hasOne, target, foreignKey, defaultPrimaryKey⟩

/-- An association with the rows of the target's table that carry the foreign key. -/
def hasMany (name target foreignKey : String) : Association :=
  ⟨name, .hasMany, target, foreignKey, defaultPrimaryKey⟩

end Association

/-- An attribute composed of columns. -/
structure Aggregation where
  /-- The name of the attribute. -/
  name : String
  /-- Fields of the composed value, each with the column that stores it. -/
  mapping : List (String × String)
deriving DecidableEq, Repr

/-- The column behind an aggregation, if it has exactly one. -/
def Aggregation.singleColumn? (a : Aggregation) : Option String :=
  match a.mapping with
  | [(_, column)] => some column
  | _ => none

/-- The codes that an attribute stores for its labels. -/
abbrev Labels := Dictionary Int64

/-- A kind of row. -/
structure Entity where
  /-- The name. -/
  name : String
  /-- The table of its rows. -/
  table : String
  /-- The columns of the table. -/
  columns : List Column := []
  /-- Associations with other entities. -/
  associations : List Association := []
  /-- Other names of columns. -/
  aliases : Dictionary String := ∅
  /-- Attributes composed of columns. -/
  aggregations : List Aggregation := []
  /-- Labels of the attributes that store a code. -/
  enums : Dictionary Labels := ∅
deriving DecidableEq

namespace Entity

/-- The column of a name. -/
def column? (e : Entity) (name : String) : Option Column := e.columns.find? (·.name == name)

/-- Whether the table has a column of a name. -/
def hasColumn (e : Entity) (name : String) : Bool := (e.column? name).isSome

/-- The association of a name. -/
def association? (e : Entity) (name : String) : Option Association :=
  e.associations.find? (·.name == name)

/-- The aggregation of a name. -/
def aggregation? (e : Entity) (name : String) : Option Aggregation :=
  e.aggregations.find? (·.name == name)

/-- The column that an alias stands for. -/
def aliasTarget? (e : Entity) (name : String) : Option String := e.aliases.get? name

/-- The column that a key of a nested map stands for, by alias or by its own name. -/
def columnFor? (e : Entity) (key : String) : Option String :=
  (e.aliasTarget? key).or (if e.hasColumn key then some key else none)

/-- The labels of an attribute. -/
def labels? (e : Entity) (name : String) : Option Labels := e.enums.get? name

/-! ### Building up an entity -/

/-- The entity with a further column. -/
def addColumn (e : Entity) (name : String) (type : ColumnType) : Entity :=
  { e with columns := e.columns ++ [⟨name, type⟩] }

/-- The entity with a further association. -/
def addAssociation (e : Entity) (a : Association) : Entity :=
  { e with associations := e.associations ++ [a] }

/-- The entity with another name for a column. -/
def addAlias (e : Entity) (name column : String) : Entity :=
  { e with aliases := e.aliases.insert name column }

/-- The entity with a further aggregation. -/
def addAggregation (e : Entity) (a : Aggregation) : Entity :=
  { e with aggregations := e.aggregations ++ [a] }

/-- The entity with labels for an attribute. -/
def setLabels (e : Entity) (name : String) (labels : Labels) : Entity :=
  { e with enums := e.enums.insert name labels }

end Entity

end RowPolicy
