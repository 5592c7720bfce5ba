/-!
# Log events

An `Event` says what happened, with the data that belongs to it. Its level, its wording and the
names of its fields are functions of it; fields are texts.
-/

namespace RowPolicy

/-- How much an event matters. -/
inductive Level where
  /-- Detail of a single comparison. -/
  | trace
  /-- The course of an operation. -/
  | debug
  /-- What an operator wants to see. -/
  | info
  /-- Input that is probably not what its author meant. -/
  | warn
deriving DecidableEq, Repr

/-- The name of a level. -/
def Level.label : Level → String
  | trace => "TRACE"
  | debug => "DEBUG"
  | info => "INFO"
  | warn => "WARN"

/-- Something worth a log entry. -/
inductive Event where
  /-- The keys of a condition map were resolved to leaves. -/
  | resolved (entity : String) (keys leaves : Nat)
  /-- Leaves on aggregations were expanded. -/
  | expanded (entity : String) (aggregates keys : Nat)
  /-- A nested map is a condition on a column that does not hold JSON. -/
  | nestedMapOnColumn (entity column type : String)
  /-- Leaves were divided into ordinary ones and those on JSON columns. -/
  | divided (entity : String) (ordinary json : Nat)
  /-- A condition on a JSON column has further keys, which are left out. -/
  | keysIgnored (entity column usedKey : String) (ignored : Nat)
  /-- A condition map was compiled to fragments. -/
  | compiled (entity : String) (ordinary json : Nat)
  /-- A compiled predicate, for the operator. -/
  | predicate (entity : String) (conditions : Nat) (sql : String)
  /-- A relation was built. -/
  | relationBuilt (entity : String) (joins : Nat) (filtered : Bool)
  /-- The code of a stored label was looked up for a comparison. -/
  | labelMatched (name : String) (code : Option Int)
  /-- A record was checked in memory. -/
  | decided (entity name : String) (byLabel matched : Bool)
  /-- A settings file is about to be read. -/
  | settingsFile (path : String)
  /-- Settings are complete. -/
  | settingsLoaded (environment logLevel : String) (jsonLogs logCompiledSql : Bool)
  /-- Another part of the process owns the log already. -/
  | logOwned
  /-- Logging was set up. -/
  | logReady (environment logLevel : String) (json : Bool)
deriving DecidableEq, Repr

namespace Event

/-- The level of an event. -/
def level : Event → Level
  | labelMatched .. => .trace
  | nestedMapOnColumn .. | keysIgnored .. => .warn
  | predicate .. | logReady .. => .info
  | _ => .debug

/-- The wording of an event. -/
def message : Event → String
  | resolved .. => "Resolved column aliases"
  | expanded .. => "Expanded aggregate conditions"
  | nestedMapOnColumn .. => "Nested map on a non-JSON column; compiling it as a JSON key lookup"
  | divided .. => "Partitioned conditions"
  | keysIgnored .. => "JSON condition has several keys; only the first is compiled"
  | compiled .. => "Compiled condition map"
  | predicate .. => "COMPILED_CONDITIONS"
  | relationBuilt .. => "Built lazy relation"
  | labelMatched .. => "Matching enum attribute"
  | decided .. => "MATCH_DECISION"
  | settingsFile .. => "Loading configuration file"
  | settingsLoaded .. => "Configuration loaded successfully"
  | logOwned => "Global tracing subscriber already initialized - continuing with existing subscriber"
  | logReady .. => "Structured logging initialized"

/-- The text of a truth value. -/
def flagText (b : Bool) : String := if b then "true" else "false"

/-- The text of a code that may be missing. -/
def codeText : Option Int → String
  | some code => "Some(" ++ toString code ++ ")"
  | none => "None"

/-- The fields of an event. -/
def fields : Event → List (String × String)
  | resolved entity keys leaves =>
    [("entity", entity), ("input_keys", toString keys), ("resolved_leaves", toString leaves)]
  | expanded entity aggregates keys =>
    [("entity", entity), ("aggregates", toString aggregates), ("expanded_keys", toString keys)]
  | nestedMapOnColumn entity column type =>
    [("entity", entity), ("column", column), ("column_type", type)]
  | divided entity ordinary json | compiled entity ordinary json =>
    [("entity", entity), ("ordinary", toString ordinary), ("json", toString json)]
  | keysIgnored entity column usedKey ignored =>
    [("entity", entity), ("column", column), ("used_key", usedKey), ("ignored", toString ignored)]
  | predicate entity conditions sql =>
    [("entity", entity), ("conditions", toString conditions), ("sql", sql)]
  | relationBuilt entity joins filtered =>
    [("entity", entity), ("joins", toString joins), ("filtered", flagText filtered)]
  | labelMatched name code => [("attribute", name), ("code", codeText code)]
  | decided entity name byLabel matched =>
    [("entity", entity), ("attribute", name), ("enum_aware", flagText byLabel),
      ("matched", flagText matched)]
  | settingsFile path => [("path", path)]
  | settingsLoaded environment logLevel jsonLogs logCompiledSql =>
    [("environment", environment), ("log_level", logLevel), ("json_logs", flagText jsonLogs),
      ("log_compiled_sql", flagText logCompiledSql)]
  | logOwned => []
  | logReady environment logLevel json =>
    [("environment", environment), ("log_level", logLevel), ("json", flagText json)]

end Event

end RowPolicy
