import RowPolicy.Fault
import RowPolicy.Text.Blank

/-!
# Settings

`Settings` say where the program runs and how it logs. They start from the defaults of an
environment; which environment it is, is found out from the variables of the process.
-/

namespace RowPolicy

/-- Where the program runs and how it logs. -/
structure Settings where
  /-- The environment, such as `production`. -/
  environment : String
  /-- Which log entries are wanted. -/
  logLevel : String
  /-- Whether log entries are written as JSON. -/
  jsonLogs : Bool := false
  /-- Whether every compiled predicate is logged for the operator. -/
  logCompiledSql : Bool := false
deriving DecidableEq, Repr

/-- The variables of a process, in the order in which they were set. -/
abbrev Variables := List (String × String)

namespace Variables

/-- The value of a variable. -/
def get? (vars : Variables) (name : String) : Option String :=
  (vars.find? (·.1 == name)).map Prod.snd

/-- The variables that name the environment, in the order in which they are asked. -/
def environmentNames : List String := ["AUTHZ_SQL_ENV", "RAILS_ENV", "APP_ENV"]

/-- The environment: the first of its variables that is set and not empty, else `development`. -/
def environment (vars : Variables) : String :=
  (environmentNames.findSome? fun name => (vars.get? name).filter (· ≠ "")).getD "development"

end Variables

namespace Settings

/-- The defaults of an environment. -/
def forEnvironment (environment : String) : Settings where
  environment := environment
  logLevel := if environment = "production" then "info" else "debug"
  jsonLogs := environment == "production"

/-- The defaults of the environment that a process runs in. -/
def ofVariables (vars : Variables) : Settings := forEnvironment vars.environment

/-- Refuses a blank log level, then a blank environment. -/
def validate (s : Settings) : Except Fault Unit :=
  if Text.isBlank s.logLevel then .error (.configuration .blankLogLevel)
  else if Text.isBlank s.environment then .error (.configuration .blankEnvironment)
  else .ok ()

end Settings

end RowPolicy
