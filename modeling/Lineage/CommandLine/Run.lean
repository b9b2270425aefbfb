/-
Runs of the command line program.

A run reads the configuration, sets up logging if the configuration asks for it, opens the database,
makes one service call, and prints its result as JSON. The first failure ends the run with its
message and the exit code 1; arguments that do not fit end it with the exit code 2 before anything
is read.
-/

import Lineage.CommandLine.Arguments
import Lineage.Logging
import Lineage.Service

namespace Lineage.CommandLine

/-- The path of the database when none is given. -/
def defaultDatabase : String := "./pdm.sqlite3"

/-- The cause of a failed run. -/
inductive RunError where
  | config (cause : ConfigError)
  | logging (cause : LoggingError)
  | database (cause : DatabaseError)
  | service (cause : ServiceError)
  /-- An input file cannot be read. -/
  | unreadable (path : String) (cause : IoError)
  /-- An input file does not hold a submission. -/
  | invalid (path : String) (cause : ReadError)
deriving Repr

/-- The text of a failed run. -/
def RunError.message : RunError → String
  | .config cause => cause.message
  | .logging cause => s!"logging setup failed: {cause.message}"
  | .database cause => cause.message
  | .service cause => cause.message
  | .unreadable path cause => s!"cannot read `{path}`: {cause.message}"
  | .invalid path cause => s!"cannot read `{path}`: {cause.message}"

/-- What a run finds: the files, the working directory, and a fresh id and the time. -/
structure Surroundings where
  files : Files
  cwd : Place
  stamp : Stamp

/-- What a run leaves: its exit code, its two outputs, the files, and its log. -/
structure Report where
  code : Nat
  out : String
  err : String
  files : Files
  log : Log

/-! ### Configuration and input -/

/-- The configuration at a path, or the default one. -/
def loadConfig (files : Files) (cwd : Place) : Option String → Except ConfigError Config
  | none => .ok {}
  | some path =>
    match files.readText cwd path with
    | .ok s => Config.ofText s
    | .error cause => .error (.unreadable cause.message)

/-- The submission in the file at a path. -/
def readSubmission (files : Files) (cwd : Place) (path : String) : Except RunError Submission :=
  match files.readText cwd path with
  | .error cause => .error (.unreadable path cause)
  | .ok s =>
    match Json.decode Submission.decoder s with
    | .ok submission => .ok submission
    | .error cause => .error (.invalid path cause)

/-! ### Commands -/

/-- The document that tells what was deleted. -/
def deletedReport (what : Json) : Json :=
  Json.ofMembers [("deleted", what)]

/-- A call whose result is printed as a document. -/
def document {α : Type} (toJson : α → Json) (c : Service.Call α) : Service.Call Json :=
  c.bind fun result => .done (result.map toJson)

/-- A call that stores a submission, after which the command line says so in the log. -/
def stored (c : Service.Call Item) : Service.Call Json :=
  c.bind fun result =>
    match result with
    | .ok item =>
      .note (.commandStored item.definitionId item.version) (.done (.ok item.toJson))
    | .error cause => .done (.error cause)

/-- The service call of a command, with the document that is printed of its result. -/
def call (service : Service) (files : Files) (cwd : Place) :
    Command → Except RunError (Service.Call Json)
  | .ping => .ok (.done (.ok .null))
  | .persist file mode => do
    let submission ← readSubmission files cwd file
    return stored (service.persistByName mode submission)
  | .get id => .ok (document Item.toJson (Service.get id))
  | .list definitionId tenantId version =>
    let clause : Clause := { definitionId, tenantId, version }
    .ok (document (fun items => .array (items.map Item.toJson)) (Service.list (.single clause)))
  | .deleteOne id => .ok (document (fun done => deletedReport (.bool done)) (Service.delete id))
  | .deleteMany definitionId tenantId =>
    let count (n : Nat) : Json := deletedReport (.number (.integer n))
    .ok (document count (Service.deleteAll (.lineage definitionId tenantId)))

/-- The answer to a ping. -/
def pingAnswer : String := "pong"

/-- What the program says about itself. -/
def pingText : String :=
  s!"pdm_core ping={pingAnswer}\npdm_core version={libraryVersion}\n"

/-- The report of a run that failed. -/
def failed (cause : RunError) (files : Files) (log : Log) : Report :=
  ⟨1, "", s!"error: {cause.message}\n", log.makeFile files, log⟩

/-- Makes the service call of a command on a connection. -/
def serve (config : Config) (around : Surroundings) (log : Log) (c : Connection)
    (command : Command) : Report :=
  match c.database.checkSchema with
  | .error cause => failed (.service (.store cause)) around.files log
  | .ok () =>
    match call { config := config } around.files around.cwd command with
    | .error cause => failed cause around.files log
    | .ok dialogue =>
      let outcome := dialogue.run Connection.backend around.stamp c
      let log := log.recordAll outcome.events
      let files := outcome.state.save around.files
      match outcome.result with
      | .error cause => failed (.service cause) files log
      | .ok output => ⟨0, output.pretty ++ "\n", "", log.makeFile files, log⟩

/-- Runs a command that has been read. -/
def invoke (around : Surroundings) (i : Invocation) : Report :=
  match loadConfig around.files around.cwd i.config with
  | .error cause => failed (.config cause) around.files .silent
  | .ok config =>
    let (started, files) : Except LoggingError Log × Files :=
      match config.logging with
      | none => (.ok .silent, around.files)
      | some logging => Log.silent.initFromConfig around.files logging
    match started with
    | .error cause => failed (.logging cause) files .silent
    | .ok log =>
      if i.command = .ping then ⟨0, pingText, "", log.makeFile files, log⟩
      else
        let opening :=
          Database.openFile files around.cwd (i.database.getD defaultDatabase) 0
        let log := log.recordAll opening.events
        match opening.result with
        | .error cause => failed (.database cause) opening.files log
        | .ok c => serve config { around with files := opening.files } log c i.command

/-- How the program is used. -/
def usage : String :=
  "Usage: pdm [--config PATH] [--db PATH] COMMAND\n\n" ++
    "Commands:\n" ++
    "  ping\n" ++
    "  persist FILE [--mode MODE]\n" ++
    "  get ID\n" ++
    "  list [--definition-id ID] [--tenant-id ID] [--version VERSION]\n" ++
    "  delete --id ID\n" ++
    "  delete --definition-id ID [--tenant-id ID]\n"

/-- Runs the program with its arguments. -/
def run (around : Surroundings) (args : List String) : Report :=
  match request args with
  | .misuse => ⟨2, "", usage, around.files, .silent⟩
  | .help => ⟨0, usage, "", around.files, .silent⟩
  | .version => ⟨0, s!"pdm {libraryVersion}\n", "", around.files, .silent⟩
  | .invoke i => invoke around i

end Lineage.CommandLine
