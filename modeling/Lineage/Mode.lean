/-
Version-control modes: how a changed submission is reconciled with what is stored.
-/

import Lineage.Text.Blank

namespace Lineage

/-- A policy for a changed submission. -/
inductive Mode where
  /-- Change the row of the submitted version in place. -/
  | overwrite
  /-- Change the latest row of the lineage in place and keep its version. -/
  | overwriteLatest
  /-- Add a row at the submitted version, and refuse to change a row that is there. -/
  | manual
  /-- Add a row with the next major version. -/
  | autoIncrementMajor
  /-- Add a row with the next minor version. -/
  | autoIncrementMinor
deriving DecidableEq, Repr

namespace Mode

/-- The modes in their order. -/
def all : List Mode :=
  [.overwrite, .overwriteLatest, .manual, .autoIncrementMajor, .autoIncrementMinor]

/-- The mode that is used when none is chosen. -/
def default : Mode := .autoIncrementMajor

/-- The name of a mode. -/
def name : Mode → String
  | .overwrite => "Overwrite"
  | .overwriteLatest => "OverwriteLatest"
  | .manual => "Manual"
  | .autoIncrementMajor => "AutoIncrementMajor"
  | .autoIncrementMinor => "AutoIncrementMinor"

/-- The mode with a given name, which may have blank characters around it. -/
def ofName? (s : String) : Option Mode :=
  all.find? fun mode => mode.name = Text.trim s

theorem mem_all (mode : Mode) : mode ∈ all := by
  cases mode <;> simp [all]

end Mode

/-- The message about a name that is no mode. -/
def Mode.unknownMessage (name : String) : String :=
  s!"unknown version control mode: `{name}`"

end Lineage
