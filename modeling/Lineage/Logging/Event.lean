/-
The events that are logged, with their levels and texts.

An event names ids, versions, modes and causes; no event has a payload, a name or a purpose of an
item.
-/

import Lineage.Plan
import Lineage.Store.Error

namespace Lineage

/-- How important a record is, the most important level first. -/
inductive Level where
  | error
  | warn
  | info
  | debug
  | trace
deriving DecidableEq, Repr

namespace Level

/-- The levels in their order. -/
def all : List Level := [.error, .warn, .info, .debug, .trace]

/-- The name of a level. -/
def name : Level → String
  | .error => "error"
  | .warn => "warn"
  | .info => "info"
  | .debug => "debug"
  | .trace => "trace"

/-- The place of a level: 0 for the most important one. -/
def rank : Level → Nat
  | .error => 0
  | .warn => 1
  | .info => 2
  | .debug => 3
  | .trace => 4

/-- Whether a record of the second level is kept where the first level is set. -/
def admits (set record : Level) : Bool :=
  record.rank ≤ set.rank

end Level

/-- A record of the log. -/
structure LogRecord where
  level : Level
  message : String
deriving DecidableEq, Repr

/-- Where a database is kept. -/
inductive Medium where
  | file
  | memory
deriving DecidableEq, Repr

/-- The name of a medium. -/
def Medium.name : Medium → String
  | .file => "file"
  | .memory => "memory"

/-- The name of a write. -/
def Write.action : Write → String
  | .insert _ => "insert"
  | .update _ => "update"

/-- Something that happened. -/
inductive Event where
  /-- A submission left its row as it is. -/
  | unchanged (mode : Mode) (definitionId version : String)
  /-- No write was planned for a submission. -/
  | rejected (mode : Mode) (definitionId : String) (cause : Rejection)
  /-- A write was done. -/
  | stored (mode : Mode) (action definitionId version : String) (id : Uuid)
  /-- A write failed. -/
  | storeFailed (mode : Mode) (action definitionId : String) (cause : StoreError)
  | deleted (id : Uuid)
  | deletedMany (clauses count : Nat)
  | migrationStep (version : Nat) (name : String)
  | migrated (fromVersion toVersion : Nat)
  | openStarted (medium : Medium)
  | opened (medium : Medium) (millis : Nat)
  /-- A database could not be opened, or could not be made ready. -/
  | openFailed (medium : Medium) (millis : Nat) (ready : Bool) (cause : DatabaseError)
  | loggingStarted (level : Level) (directory version : String)
  | panicCaptured (location payload : String)
  /-- The command line stored a submission. -/
  | commandStored (definitionId version : String)
deriving Repr

namespace Event

/-- The level of an event. -/
def level : Event → Level
  | .unchanged .. => .debug
  | .rejected .. => .warn
  | .stored .. => .info
  | .storeFailed .. => .warn
  | .deleted .. => .info
  | .deletedMany .. => .info
  | .migrationStep .. => .debug
  | .migrated .. => .info
  | .openStarted .. => .info
  | .opened .. => .info
  | .openFailed .. => .error
  | .loggingStarted .. => .info
  | .panicCaptured .. => .error
  | .commandStored .. => .info

/-- The text of an event. -/
def message : Event → String
  | .unchanged mode definitionId version =>
    s!"event=definition_persist module=service status=unchanged mode={mode.name} " ++
      s!"definition_id={definitionId} version={version}"
  | .rejected mode definitionId cause =>
    s!"event=definition_persist module=service status=rejected mode={mode.name} " ++
      s!"definition_id={definitionId} error={cause.message}"
  | .stored mode action definitionId version id =>
    s!"event=definition_persist module=service status=ok mode={mode.name} action={action} " ++
      s!"definition_id={definitionId} version={version} item_id={id.text}"
  | .storeFailed mode action definitionId cause =>
    s!"event=definition_persist module=service status=error mode={mode.name} action={action} " ++
      s!"definition_id={definitionId} error={cause.message}"
  | .deleted id => s!"event=definition_delete module=service status=ok item_id={id.text}"
  | .deletedMany clauses count =>
    s!"event=definition_delete_many module=service status=ok clauses={clauses} deleted={count}"
  | .migrationStep version name =>
    s!"event=db_migration_step module=db version={version} name={name}"
  | .migrated fromVersion toVersion =>
    s!"event=db_migrate module=db status=ok from_version={fromVersion} to_version={toVersion}"
  | .openStarted medium => s!"event=db_open module=db status=start mode={medium.name}"
  | .opened medium millis =>
    s!"event=db_open module=db status=ok mode={medium.name} duration_ms={millis}"
  | .openFailed medium millis ready cause =>
    let code := if ready then "db_bootstrap_failed" else "db_open_failed"
    s!"event=db_open module=db status=error mode={medium.name} duration_ms={millis} " ++
      s!"error_code={code} error={cause.message}"
  | .loggingStarted level directory version =>
    s!"event=logging_init module=logging status=ok level={level.name} log_dir={directory} " ++
      s!"version={version}"
  | .panicCaptured location payload =>
    s!"event=panic_captured module=logging status=error location={location} payload={payload}"
  | .commandStored definitionId version =>
    s!"event=cli_persist module=cli status=ok definition_id={definitionId} version={version}"

/-- The record of an event. -/
def toRecord (e : Event) : LogRecord :=
  ⟨e.level, e.message⟩

end Event

end Lineage
