import RowPolicy.Form.Fields
import RowPolicy.Settings.Basic
import RowPolicy.Settings.Path
import RowPolicy.Text.Case
import RowPolicy.Text.Cut
import RowPolicy.Toml.Setting
import RowPolicy.Traced

/-!
# Loading settings

Settings are read in layers, each of which may replace what the layers before it set: the defaults
of an environment, a file of JSON or TOML, and the variables of the process. Names are taken in
lower case, and names that no setting has are ignored. Only when all layers are read must every
setting have a value of its type, so a later layer may mend an earlier one.
-/

namespace RowPolicy

/-- A settings file. -/
structure SettingsFile where
  /-- The name, whose ending says the format. -/
  name : String
  /-- The content, if the file exists. -/
  content? : Option String

/-- Where settings are read from. -/
structure SettingsSources where
  /-- The environment whose defaults count, if it is given and not found out. -/
  environment? : Option String := none
  /-- A file. -/
  file? : Option SettingsFile := none
  /-- Whether variables count. -/
  useVariables : Bool := true

namespace Settings

/-! ### Layers -/

/-- Settings while they are being read, each of no fixed type. -/
structure Draft where
  /-- The environment. -/
  environment : Setting
  /-- The log level. -/
  logLevel : Setting
  /-- Whether log entries are written as JSON. -/
  jsonLogs : Setting
  /-- Whether every compiled predicate is logged. -/
  logCompiledSql : Setting

/-- The settings as a draft. -/
def draft (s : Settings) : Draft where
  environment := .text s.environment
  logLevel := .text s.logLevel
  jsonLogs := .flag s.jsonLogs
  logCompiledSql := .flag s.logCompiledSql

namespace Draft

/-- Changes the setting of a name; other names have none. -/
def update (d : Draft) (name : String) (change : Setting → Setting) : Draft :=
  match name with
  | "environment" => { d with environment := change d.environment }
  | "log_level" => { d with logLevel := change d.logLevel }
  | "json_logs" => { d with jsonLogs := change d.jsonLogs }
  | "log_compiled_sql" => { d with logCompiledSql := change d.logCompiledSql }
  | _ => d

/-- Sets a name. A path makes its first part a setting with parts, whatever it was; a table is
merged into what is there, so that an empty one changes nothing. -/
def assign (d : Draft) (name : String) (value : Setting) : Draft :=
  match pathRoot? name with
  | some root => d.update (Text.lower root) fun _ => .table [(name, value)]
  | none => d.update (Text.lower name) fun earlier =>
    match value with
    | .table [] => earlier
    | value => value

/-- Sets names one after the other. -/
def assignAll (d : Draft) (layer : List (String × Setting)) : Draft :=
  layer.foldl (fun d (name, value) => d.assign name value) d

/-- The settings, if each has a value of its type. -/
def settings? (d : Draft) : Option Settings := do
  return {
    environment := ← d.environment.text?
    logLevel := ← d.logLevel.text?
    jsonLogs := ← d.jsonLogs.flag?
    logCompiledSql := ← d.logCompiledSql.flag?
  }

end Draft

/-- The start of the names of variables that are settings, in lower case. -/
def variablePrefix : String := "authz_sql_"

/-- The layer of variables. -/
def variableLayer (vars : Variables) : List (String × Setting) :=
  vars.filterMap fun (name, value) =>
    let name := (Text.lower name).toList
    if variablePrefix.toList.isPrefixOf name then
      some (String.ofList (name.drop variablePrefix.length), Setting.ofVariable value)
    else none

end Settings

/-- The layer of a file, if it exists and can be read. -/
def SettingsFile.layer? (file : SettingsFile) : Option (List (String × Setting)) := do
  let content ← file.content?
  match ← Text.afterLast? '.' file.name with
  | "json" => return Setting.ofJsonMembers (← (← Json.read? content).members?)
  | "toml" => Toml.settings? content
  | _ => none

namespace Settings

/-! ### Loading -/

/-- The layer of an optional file. -/
def fileLayer : Option SettingsFile → Traced (List (String × Setting))
  | some file => do
    Traced.log (.settingsFile file.name)
    match file.layer? with
    | some layer => return layer
    | none => Traced.lift (.error (.configuration .unreadableSettings))
  | none => return []

/-- Reads settings from their sources. -/
def load (sources : SettingsSources) (vars : Variables) : Traced Settings := do
  let defaults := forEnvironment (sources.environment?.getD vars.environment)
  let layer ← fileLayer sources.file?
  let draft := defaults.draft.assignAll layer
  let draft := if sources.useVariables then draft.assignAll (variableLayer vars) else draft
  match draft.settings? with
  | none => Traced.lift (.error (.configuration .unreadableSettings))
  | some s =>
    Traced.lift s.validate
    Traced.log (.settingsLoaded s.environment s.logLevel s.jsonLogs s.logCompiledSql)
    return s

end Settings

end RowPolicy
