import RowPolicy.Settings.Basic
import RowPolicy.Traced

/-!
# Setting up the log

The log of a process is set up once, by the settings that come first. Where another part of the
process owns the log already, that log goes on, and is told so.
-/

namespace RowPolicy

/-- The log of a process. -/
structure ProcessLog where
  /-- Whether another part of the process owns it. -/
  owned : Bool
  /-- Whether it has been set up. -/
  ready : Bool := false
deriving DecidableEq, Repr

namespace ProcessLog

/-- Sets up the log, unless that has been done. -/
def setUp (log : ProcessLog) (s : Settings) : Traced ProcessLog := do
  if log.ready then return log
  if log.owned then Traced.log .logOwned
  Traced.log (.logReady s.environment s.logLevel s.jsonLogs)
  return { log with ready := true }

/-- The events of setting up the log by several settings, one after the other. -/
def setUpAll (log : ProcessLog) : List Settings → List (List Event)
  | [] => []
  | s :: rest =>
    let step := log.setUp s
    step.events :: setUpAll (step.outcome.toOption.getD log) rest

theorem setUp_of_ready {log : ProcessLog} (h : log.ready = true) (s : Settings) :
    log.setUp s = pure log := by
  simp [setUp, h]

end ProcessLog

end RowPolicy
