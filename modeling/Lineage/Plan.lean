/-
The one write that reconciles a changed candidate with its lineage.

`plan` looks at the row that the submission matched, at the latest row of the lineage, and at the
mode; it never touches a store. The auto-increment modes and the manual mode never change a row that
is there, and the first row of a lineage is added as the candidate stands.
-/

import Lineage.Definition
import Lineage.Mode
import Lineage.Version.Increment

namespace Lineage

/-- A write to a store. -/
inductive Write where
  | insert (candidate : Candidate)
  | update (item : Item)
deriving Repr

/-- Why a candidate is not written. -/
inductive Rejection where
  /-- The manual mode does not change a row that is there. -/
  | conflict (definitionId : String) (tenantId : Option String) (version : String)
  /-- The latest version cannot be incremented. -/
  | increment (cause : IncrementError)
deriving DecidableEq, Repr

/-- The text of a rejection. -/
def Rejection.message : Rejection → String
  | .conflict definitionId tenantId version =>
    s!"cannot update definition {definitionId} for tenant {describeTenant tenantId} " ++
      s!"version {version}: definition exists and manual version control is enabled"
  | .increment cause => cause.message

/-- The text of the cause behind a rejection, if it has one. -/
def Rejection.sourceMessage? : Rejection → Option String
  | .conflict .. => none
  | .increment cause => some cause.message

/-- What a write is planned from. -/
structure WriteContext where
  /-- The row that the submission matched. -/
  existing : Option Item
  /-- The latest row of the lineage. -/
  latest : Option Item
  candidate : Candidate
  /-- The version that the submission names. -/
  explicitVersion : Option String

namespace WriteContext

/-- The version of a row that is overwritten: the named one, else its own, else the default in place
of an empty one. -/
def overwrittenVersion (existing : Item) : Option String → String
  | some version => version
  | none => if existing.version = "" then defaultVersion else existing.version

/-- Changes the matched row, or adds one. -/
def overwrite (c : WriteContext) : Write :=
  match c.existing with
  | some existing =>
    .update { c.candidate.applyTo existing with
      version := overwrittenVersion existing c.explicitVersion }
  | none => .insert c.candidate

/-- Changes the latest row, or adds one. -/
def overwriteLatest (c : WriteContext) : Write :=
  match c.latest with
  | some latest => .update (c.candidate.applyTo latest)
  | none => .insert c.candidate

/-- Adds a row unless one was matched. -/
def manual (c : WriteContext) : Except Rejection Write :=
  match c.existing with
  | some existing =>
    .error (.conflict c.candidate.definitionId c.candidate.tenantId existing.version)
  | none => .ok (.insert c.candidate)

/-- Adds a row with the version after the latest one. -/
def autoIncrement (c : WriteContext) (increment : Incrementer) (field : ReleaseField) :
    Except Rejection Write :=
  match c.latest with
  | some latest =>
    match increment latest.version field with
    | .ok version => .ok (.insert { c.candidate with version := version })
    | .error cause => .error (.increment cause)
  | none => .ok (.insert c.candidate)

/-- The write that a mode asks for. -/
def plan (c : WriteContext) (increment : Incrementer) : Mode → Except Rejection Write
  | .overwrite => .ok c.overwrite
  | .overwriteLatest => .ok c.overwriteLatest
  | .manual => c.manual
  | .autoIncrementMajor => c.autoIncrement increment .major
  | .autoIncrementMinor => c.autoIncrement increment .minor

end WriteContext

end Lineage
