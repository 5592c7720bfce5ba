import RowPolicy.Form.Basic
import RowPolicy.Metadata.Catalog
import RowPolicy.Number.Word

/-!
# Written metadata

The JSON form of entities and their parts. Every field is written; of an entity all fields but the
name and the table may be left out.
-/

namespace RowPolicy

/-! ### Columns -/

namespace ColumnType

/-- The types, in order. -/
def all : List ColumnType :=
  [integer, bigInt, float, decimal, boolean, text, timestamp, uuid, json, jsonb]

/-- The name of the type in metadata. -/
def name : ColumnType → String
  | integer => "integer"
  | bigInt => "big_int"
  | float => "float"
  | decimal => "decimal"
  | boolean => "boolean"
  | text => "text"
  | timestamp => "timestamp"
  | uuid => "uuid"
  | json => "json"
  | jsonb => "jsonb"

/-- The JSON form. -/
def toJson (type : ColumnType) : Json := .str type.name

/-- Reads the JSON form. -/
def ofJson? : Json → Option ColumnType := Json.variant? all name

/-- The form. -/
def form : Form ColumnType := ⟨.whole, ofJson?⟩

theorem ofJson?_toJson (type : ColumnType) : ofJson? type.toJson = some type := by
  cases type <;> decide

end ColumnType

namespace Column

/-- The fields. -/
def fields : List (String × Json.Shape) := [("name", .whole), ("column_type", .whole)]

/-- The JSON form. -/
def toJson (c : Column) : Json := .obj [("name", .str c.name), ("column_type", c.type.toJson)]

/-- Reads the JSON form. -/
def ofJson? (json : Json) : Option Column := do
  match ← json.fields? fields with
  | [name, type] =>
    return ⟨← Json.required Json.string? name, ← Json.required ColumnType.ofJson? type⟩
  | _ => none

/-- The form. -/
def form : Form Column := ⟨.fields fields, ofJson?⟩

end Column

/-! ### Associations -/

namespace AssociationKind

/-- The kinds, in order. -/
def all : List AssociationKind := [belongsTo, hasOne, hasMany]

/-- The name of the kind in metadata. -/
def name : AssociationKind → String
  | belongsTo => "belongs_to"
  | hasOne => "has_one"
  | hasMany => "has_many"

/-- The JSON form. -/
def toJson (kind : AssociationKind) : Json := .str kind.name

/-- Reads the JSON form. -/
def ofJson? : Json → Option AssociationKind := Json.variant? all name

theorem ofJson?_toJson (kind : AssociationKind) : ofJson? kind.toJson = some kind := by
  cases kind <;> decide

end AssociationKind

namespace Association

/-- The fields. -/
def fields : List (String × Json.Shape) :=
  [("name", .whole), ("kind", .whole), ("target", .whole), ("foreign_key", .whole),
    ("primary_key", .whole)]

/-- The JSON form. -/
def toJson (a : Association) : Json :=
  .obj [("name", .str a.name), ("kind", a.kind.toJson), ("target", .str a.target),
    ("foreign_key", .str a.foreignKey), ("primary_key", .str a.primaryKey)]

/-- Reads the JSON form. -/
def ofJson? (json : Json) : Option Association := do
  match ← json.fields? fields with
  | [name, kind, target, foreignKey, primaryKey] =>
    return {
      name := ← Json.required Json.string? name
      kind := ← Json.required AssociationKind.ofJson? kind
      target := ← Json.required Json.string? target
      foreignKey := ← Json.required Json.string? foreignKey
      primaryKey := ← Json.required Json.string? primaryKey
    }
  | _ => none

/-- The form. -/
def form : Form Association := ⟨.fields fields, ofJson?⟩

end Association

/-! ### Aggregations -/

namespace Aggregation

/-- The fields. -/
def fields : List (String × Json.Shape) := [("name", .whole), ("mapping", .whole)]

/-- The JSON form of a field and its column. -/
def pairToJson (pair : String × String) : Json := .arr [.str pair.1, .str pair.2]

/-- Reads a field and its column. -/
def pairOfJson? : Json → Option (String × String)
  | .arr [.str field, .str column] => some (field, column)
  | _ => none

/-- The form of a field and its column. -/
def pairForm : Form (String × String) := ⟨.whole, pairOfJson?⟩

/-- The JSON form. -/
def toJson (a : Aggregation) : Json :=
  .obj [("name", .str a.name), ("mapping", .arr (a.mapping.map pairToJson))]

/-- Reads the JSON form. -/
def ofJson? (json : Json) : Option Aggregation := do
  match ← json.fields? fields with
  | [name, mapping] =>
    return ⟨← Json.required Json.string? name, ← Json.required (Json.list? pairOfJson?) mapping⟩
  | _ => none

/-- The form. -/
def form : Form Aggregation := ⟨.fields fields, ofJson?⟩

end Aggregation

/-! ### Labels -/

namespace Labels

/-- The JSON form of a code. -/
def codeToJson (code : Int64) : Json := .num (.int code.toInt)

/-- Reads a code, which must be written as an integer. -/
def codeOfJson? : Json → Option Int64
  | .num (.int n) => int64? n
  | _ => none

/-- The JSON form. -/
def toJson (labels : Labels) : Json := Dictionary.toJson codeToJson labels

/-- Reads the JSON form. -/
def ofJson? : Json → Option Labels := Json.dictionary? codeOfJson?

/-- The form. -/
def form : Form Labels := ⟨.whole, ofJson?⟩

/-- The form of several sets of labels, each under its name. -/
def dictionaryForm : Form (Dictionary Labels) := ⟨.whole, Json.dictionary? ofJson?⟩

theorem codeOfJson?_codeToJson (code : Int64) : codeOfJson? (codeToJson code) = some code :=
  int64?_toInt code

end Labels

/-! ### Entities -/

namespace Entity

/-- The fields. -/
def fields : List (String × Json.Shape) :=
  [("name", .whole), ("table_name", .whole), ("columns", Column.form.list.shape),
    ("associations", Association.form.list.shape), ("attribute_aliases", .whole),
    ("aggregations", Aggregation.form.list.shape), ("enums", .whole)]

/-- The JSON form. -/
def toJson (e : Entity) : Json :=
  .obj [("name", .str e.name), ("table_name", .str e.table),
    ("columns", .arr (e.columns.map Column.toJson)),
    ("associations", .arr (e.associations.map Association.toJson)),
    ("attribute_aliases", e.aliases.toJson .str),
    ("aggregations", .arr (e.aggregations.map Aggregation.toJson)),
    ("enums", e.enums.toJson Labels.toJson)]

/-- Reads the JSON form. -/
def ofJson? (json : Json) : Option Entity := do
  match ← json.fields? fields with
  | [name, table, columns, associations, aliases, aggregations, enums] =>
    return {
      name := ← Json.required Json.string? name
      table := ← Json.required Json.string? table
      columns := ← Json.optional (Json.list? Column.ofJson?) [] columns
      associations := ← Json.optional (Json.list? Association.ofJson?) [] associations
      aliases := ← Json.optional (Json.dictionary? Json.string?) ∅ aliases
      aggregations := ← Json.optional (Json.list? Aggregation.ofJson?) [] aggregations
      enums := ← Json.optional (Json.dictionary? Labels.ofJson?) ∅ enums
    }
  | _ => none

/-- The form. -/
def form : Form Entity := ⟨.fields fields, ofJson?⟩

end Entity

/-- The form of a catalog, which is written as the list of its entities. -/
def Catalog.form : Form Catalog where
  shape := Entity.form.list.shape
  ofJson? json := (Entity.form.list.ofJson? json).map Catalog.ofList

end RowPolicy
