import RowPolicy.Form.Basic
import RowPolicy.Match.Record
import RowPolicy.Rule.Conditions
import RowPolicy.Settings.Basic

/-!
# Written records, conditions and settings

The JSON form of what rules are given with: the conditions of a rule, the record that is checked,
and the settings. Values inside them have repeated keys resolved.
-/

namespace RowPolicy

/-- Reads conditions, which are written as an object. -/
def Conditions.ofJson? (json : Json) : Option Conditions := json.members?.map Conditions.mk

/-- The form of conditions. -/
def Conditions.form : Form Conditions := ⟨.whole, ofJson?⟩

namespace Record

/-- The fields. -/
def fields : List (String × Json.Shape) := [("entity_type", .whole), ("attributes", .whole)]

/-- The JSON form. -/
def toJson (r : Record) : Json :=
  .obj [("entity_type", .str r.entity), ("attributes", .obj r.attributes)]

/-- Reads the JSON form; the attributes may be left out. -/
def ofJson? (json : Json) : Option Record := do
  match ← json.fields? fields with
  | [entity, attributes] =>
    return ⟨← Json.required Json.string? entity, ← Json.optional Json.members? [] attributes⟩
  | _ => none

/-- The form. -/
def form : Form Record := ⟨.fields fields, ofJson?⟩

end Record

namespace Settings

/-- The fields. -/
def fields : List (String × Json.Shape) :=
  [("environment", .whole), ("log_level", .whole), ("json_logs", .whole),
    ("log_compiled_sql", .whole)]

/-- The JSON form. -/
def toJson (s : Settings) : Json :=
  .obj [("environment", .str s.environment), ("log_level", .str s.logLevel),
    ("json_logs", .bool s.jsonLogs), ("log_compiled_sql", .bool s.logCompiledSql)]

/-- Reads the JSON form; the flags may be left out. -/
def ofJson? (json : Json) : Option Settings := do
  match ← json.fields? fields with
  | [environment, logLevel, jsonLogs, logCompiledSql] =>
    return {
      environment := ← Json.required Json.string? environment
      logLevel := ← Json.required Json.string? logLevel
      jsonLogs := ← Json.optional Json.flag? false jsonLogs
      logCompiledSql := ← Json.optional Json.flag? false logCompiledSql
    }
  | _ => none

/-- The form. -/
def form : Form Settings := ⟨.fields fields, ofJson?⟩

end Settings

end RowPolicy
