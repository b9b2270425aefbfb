/-
The configuration of a service.

Every member of a configuration may be left out: the mode and the first version that are used when
a submission names none, and the logging section. A configuration whose first version is blank is
refused.
-/

import Lineage.Definition.Wire

namespace Lineage

/-- The logging section of a configuration. -/
structure LoggingConfig where
  level : Option String
  logDir : String
deriving DecidableEq, Repr

/-- The configuration of a service. -/
structure Config where
  defaultMode : Mode := .default
  initialVersion : String := defaultVersion
  logging : Option LoggingConfig := none
deriving DecidableEq, Repr

/-- The cause of a failure to load a configuration. -/
inductive ConfigError where
  /-- The file cannot be read, for the reason that the text gives. -/
  | unreadable (reason : String)
  | invalid (cause : ReadError)
  | emptyInitialVersion
deriving Repr

/-- The text of a failure. -/
def ConfigError.message : ConfigError → String
  | .unreadable reason => s!"failed to read config: {reason}"
  | .invalid cause => s!"invalid config: {cause.message}"
  | .emptyInitialVersion => "initialVersion cannot be empty"

open Json (Record Decoder)

/-- The fields of a logging section that have been read so far. -/
structure LoggingConfig.Fields where
  level : Option (Option String) := none
  logDir : Option String := none

/-- The fields of a logging section. -/
def LoggingConfig.record : Record LoggingConfig.Fields where
  name := "LoggingConfig"
  fields := [
    .of "level" (·.level) (fun s v => { s with level := some v }) (.optional .text),
    .of "logDir" (·.logDir) (fun s v => { s with logDir := some v }) .text]
  mayEndEarly := false

/-- Reads a logging section. -/
def LoggingConfig.decoder : Decoder LoggingConfig :=
  LoggingConfig.record.decoder {} fun s => do
    return { level := s.level.join, logDir := ← Record.require "logDir" s.logDir }

/-- The fields of a configuration that have been read so far. -/
structure Config.Fields where
  defaultMode : Option Mode := none
  initialVersion : Option String := none
  logging : Option (Option LoggingConfig) := none

/-- The fields of a configuration. -/
def Config.record : Record Config.Fields where
  name := "ServiceConfig"
  fields := [
    .of "defaultMode" (·.defaultMode) (fun s v => { s with defaultMode := some v }) Mode.decoder,
    .of "initialVersion" (·.initialVersion) (fun s v => { s with initialVersion := some v }) .text,
    .of "logging" (·.logging) (fun s v => { s with logging := some v })
      (.optional LoggingConfig.decoder)]
  mayEndEarly := true

namespace Config

/-- Reads a configuration; what is left out takes its default. -/
def decoder : Decoder Config :=
  record.decoder {} fun s => .ok {
    defaultMode := s.defaultMode.getD .default
    initialVersion := s.initialVersion.getD defaultVersion
    logging := s.logging.join }

/-- Refuses a configuration whose first version is blank. -/
def validate (config : Config) : Except ConfigError Config :=
  if Text.isBlankText config.initialVersion then .error .emptyInitialVersion else .ok config

/-- The configuration that a text holds. -/
def ofText (s : String) : Except ConfigError Config :=
  match Json.decode decoder s with
  | .ok config => config.validate
  | .error cause => .error (.invalid cause)

end Config

end Lineage
