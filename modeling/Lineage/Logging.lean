/-
The log of a process.

Logging is set up once: the first call that names a level and an absolute directory, whose directory
can be made and for which the recorder starts, decides both. Later calls succeed when they name the
same level and the same directory and fail otherwise; a failed call changes nothing. Records go to the
log once it is set up, if its level admits them.

The recorder is what writes the records out. It is not described here, so what it answers when it is
started is a parameter.
-/

import Lineage.Config
import Lineage.Database.Open
import Lineage.Logging.Event

namespace Lineage

/-- The cause of a failure to set up logging. -/
inductive LoggingError where
  /-- A name that is no level, without the blank characters around it and in lower case. -/
  | unsupportedLevel (name : String)
  | emptyDirectory
  | relativeDirectory (path : String)
  | createDirectory (path : String) (cause : IoError)
  /-- The recorder does not know the level. -/
  | refusedLevel (level : Level) (reason : String)
  /-- The recorder does not start. -/
  | notStarted (reason : String)
  | otherDirectory (active wanted : String)
  | otherLevel (active wanted : Level)
deriving DecidableEq, Repr

/-- The text of a failure to set up logging. -/
def LoggingError.message : LoggingError → String
  | .unsupportedLevel name =>
    s!"unsupported log level `{name}`; expected trace|debug|info|warn|error"
  | .emptyDirectory => "log_dir cannot be empty"
  | .relativeDirectory path => s!"log_dir must be an absolute path, got `{path}`"
  | .createDirectory path cause => s!"failed to create log directory `{path}`: {cause.message}"
  | .refusedLevel level reason => s!"invalid log level `{level.name}`: {reason}"
  | .notStarted reason => s!"failed to start logger: {reason}"
  | .otherDirectory active wanted =>
    s!"logging already initialized at `{active}`; refusing to switch to `{wanted}`"
  | .otherLevel active wanted =>
    s!"logging already initialized with level `{active.name}`; refusing to switch to " ++
      s!"`{wanted.name}`"

/-- The version of this library. -/
def libraryVersion : String := "0.1.0"

/-- The two ways in which a program is built. -/
inductive Build where
  | debug
  | release
deriving DecidableEq, Repr

namespace Level

/-- The names by which a level may be set. -/
def spellings : List (String × Level) :=
  all.map (fun level => (level.name, level)) ++ [("warning", .warn)]

/-- The level of a name in any case, with blank characters around it or not. -/
def normalize (name : String) : Except LoggingError Level :=
  let lowered := String.ofList ((Text.trimChars name.toList).map Char.toLower)
  match spellings.lookup lowered with
  | some level => .ok level
  | none => .error (.unsupportedLevel lowered)

/-- The level that is set in a build when none is named. -/
def defaultOf : Build → Level
  | .debug => .debug
  | .release => .info

/-- The level that is set when none is named. -/
def default : Level := defaultOf .debug

end Level

/-- Where and at which level a log is kept. -/
structure LogSettings where
  level : Level
  directory : String
deriving DecidableEq, Repr

/-- Why the recorder does not start, in its own words. -/
inductive RecorderFault where
  | level (reason : String)
  | start (reason : String)
deriving DecidableEq, Repr

/-- A recorder, by what it answers when it is started. -/
abbrev Recorder := LogSettings → Except RecorderFault Unit

/-- The recorder that always starts. -/
def Recorder.ready : Recorder := fun _ => .ok ()

/-- How logging is asked for: with a level and a directory, or as a configuration says. -/
inductive LogRequest where
  | named (level directory : String)
  | configured (config : LoggingConfig)
deriving Repr

namespace LogRequest

/-- The text for a level in a request, which is the name of the build's own level if none is given. -/
def level (build : Build) : LogRequest → String
  | named level _ => level
  | configured config => config.level.getD (Level.defaultOf build).name

/-- The text for a directory in a request. -/
def directory : LogRequest → String
  | named _ directory => directory
  | configured config => config.logDir

end LogRequest

/-- The log of a process: its settings once it is set up, and its records in their order. -/
structure Log where
  settings : Option LogSettings
  records : List LogRecord

namespace Log

/-- The log before it is set up. -/
def silent : Log := ⟨none, []⟩

/-- The directory that a text names, without the blank characters around it. -/
def normalizeDirectory (path : String) : Except LoggingError String :=
  let trimmed := Text.trim path
  if trimmed = "" then .error .emptyDirectory
  else if Path.isAbsolute trimmed then .ok trimmed
  else .error (.relativeDirectory trimmed)

/-- The settings that a call asks for. -/
def requested (level directory : String) : Except LoggingError LogSettings := do
  let level ← Level.normalize level
  let directory ← normalizeDirectory directory
  return ⟨level, directory⟩

/-- Whether settings agree with the active ones: first the directory, then the level. -/
def agree (active wanted : LogSettings) : Except LoggingError Unit :=
  if !Path.same active.directory wanted.directory then
    .error (.otherDirectory active.directory wanted.directory)
  else if active.level ≠ wanted.level then .error (.otherLevel active.level wanted.level)
  else .ok ()

/-- Keeps a record if the log is set up and its level admits the record. -/
def record (log : Log) (r : LogRecord) : Log :=
  match log.settings with
  | some settings =>
    if settings.level.admits r.level then { log with records := log.records ++ [r] } else log
  | none => log

/-- Keeps the records of events. -/
def recordAll (log : Log) (events : List Event) : Log :=
  events.foldl (fun log e => log.record e.toRecord) log

/-- Makes the directory of a log and starts the recorder. Directories that are made on the way to one
that cannot be made stay. -/
def start (recorder : Recorder) (files : Files) (wanted : LogSettings) :
    Except LoggingError Unit × Files :=
  match files.makeDirectories [] wanted.directory with
  | (.error cause, files) => (.error (.createDirectory wanted.directory cause), files)
  | (.ok (), files) =>
    match recorder wanted with
    | .error (.level reason) => (.error (.refusedLevel wanted.level reason), files)
    | .error (.start reason) => (.error (.notStarted reason), files)
    | .ok () => (.ok (), files)

/-- Sets up the log, or checks that it is set up in this way. -/
def setUp (build : Build) (recorder : Recorder) (log : Log) (files : Files) (request : LogRequest) :
    Except LoggingError Unit × Log × Files :=
  match requested (request.level build) request.directory with
  | .error cause => (.error cause, log, files)
  | .ok wanted =>
    match log.settings with
    | some active => (agree active wanted, log, files)
    | none =>
      match start recorder files wanted with
      | (.error cause, files) => (.error cause, log, files)
      | (.ok (), files) =>
        let log : Log := { log with settings := some wanted }
        let started : Event := .loggingStarted wanted.level wanted.directory libraryVersion
        (agree wanted wanted, log.record started.toRecord, files)

/-- Sets up the log with a recorder that starts, and gives the log unless that fails. -/
def setUpReady (log : Log) (files : Files) (request : LogRequest) :
    Except LoggingError Log × Files :=
  let outcome := log.setUp .debug .ready files request
  (outcome.1.map fun () => outcome.2.1, outcome.2.2)

/-- Sets up the log at a level in a directory. -/
def init (log : Log) (files : Files) (level directory : String) :
    Except LoggingError Log × Files :=
  log.setUpReady files (.named level directory)

/-- Sets up the log as a configuration says. -/
def initFromConfig (log : Log) (files : Files) (config : LoggingConfig) :
    Except LoggingError Log × Files :=
  log.setUpReady files (.configured config)

/-! ### Panics -/

/-- How many characters of a panic message are kept. -/
def maxPanicLength : Nat := 160

/-- A panic message on one line, cut off after `maxPanicLength` characters. -/
def flatten (message : String) : String :=
  let cs := message.toList.map fun c => if c = '\n' ∨ c = '\r' then ' ' else c
  String.ofList (cs.take maxPanicLength ++
    if maxPanicLength < cs.length then ['.', '.', '.'] else [])

/-- Records a panic at a place in the program; its message may not be a text. -/
def recordPanic (log : Log) (location : String) (message : Option String) : Log :=
  let payload := flatten (message.getD "non-string panic payload")
  log.record (Event.panicCaptured location payload).toRecord

/-! ### The log file -/

/-- The name of the log file in its directory. -/
def fileName : String := "pdm_rCURRENT.log"

/-- Makes the log file, empty, with the first record; a file that is there stays as it is. Records
are written out once a second, and a run of the command line ends before that. -/
def makeFile (log : Log) (files : Files) : Files :=
  match log.settings, log.records with
  | some settings, _ :: _ =>
    match files.locate [] settings.directory with
    | .error _ => files
    | .ok directory =>
      let place := directory ++ [fileName]
      match files.node? place with
      | some _ => files
      | none => Files.writeText files place ""
  | _, _ => files

end Log

end Lineage
