/-
What a run of the command line program owes.

There is one rule for each way in which a run can go. `Configures` and `Submits` say which
configuration and which submission the files of a run hold; `Serves` names the service call of each
command and the document that is printed of its result; `Answers` adds how the arguments spell an
invocation (`Invocation.Spells`) and the ways in which a run ends before its call. The calls are made on
one database that stays open, and `Session` makes those of several runs one after the other.

The rules do not run the program. They use its reader of arguments only where the arguments spell no
invocation.
-/

import Lineage.CommandLine.Run
import Lineage.Proofs.CommandLine.Arguments
import Lineage.Proofs.Service.Connection

namespace Lineage.CommandLine

/-! ### What is put out -/

/-- What a run puts out: its exit code and its two outputs. -/
structure Printed where
  code : Nat
  out : String
  err : String
deriving DecidableEq, Repr

/-- What is put out of a failure with a message. -/
def Printed.failure (message : String) : Printed :=
  ⟨1, "", "error: " ++ message ++ "\n"⟩

/-- What is put out of the result of a service call: its document over many lines, or why it failed. -/
def Printed.result {α : Type} (toJson : α → Json) : Except ServiceError α → Printed
  | .ok value => ⟨0, (toJson value).pretty ++ "\n", ""⟩
  | .error cause => .failure cause.message

/-! ### What is read -/

/-- The configuration of a run: the default one if the run names no file, else the one that the text of
the file holds, whose first version must not be blank. -/
inductive Configures (files : Files) (cwd : Place) : Option String → Except String Config → Prop where
  | default :
      Configures files cwd none (.ok ⟨.autoIncrementMajor, "1", none⟩)
  | unreadable {path : String} {cause : IoError} (read : files.readText cwd path = .error cause) :
      Configures files cwd (some path) (.error ("failed to read config: " ++ cause.message))
  | invalid {path text : String} {cause : ReadError} (read : files.readText cwd path = .ok text)
      (decode : Json.decode Config.decoder text = .error cause) :
      Configures files cwd (some path) (.error ("invalid config: " ++ cause.message))
  | blank {path text : String} {config : Config} (read : files.readText cwd path = .ok text)
      (decode : Json.decode Config.decoder text = .ok config)
      (blank : ∀ c ∈ config.initialVersion.toList, Text.isBlank c = true) :
      Configures files cwd (some path) (.error "initialVersion cannot be empty")
  | named {path text : String} {config : Config} (read : files.readText cwd path = .ok text)
      (decode : Json.decode Config.decoder text = .ok config)
      (filled : ∃ c ∈ config.initialVersion.toList, Text.isBlank c = false) :
      Configures files cwd (some path) (.ok config)

/-- The submission in a file. -/
inductive Submits (files : Files) (cwd : Place) (file : String) : Except String Submission → Prop where
  | unreadable {cause : IoError} (read : files.readText cwd file = .error cause) :
      Submits files cwd file (.error s!"cannot read `{file}`: {cause.message}")
  | invalid {text : String} {cause : ReadError} (read : files.readText cwd file = .ok text)
      (decode : Json.decode Submission.decoder text = .error cause) :
      Submits files cwd file (.error s!"cannot read `{file}`: {cause.message}")
  | named {text : String} {s : Submission} (read : files.readText cwd file = .ok text)
      (decode : Json.decode Submission.decoder text = .ok s) : Submits files cwd file (.ok s)

/-- A run has its configuration, and its log is set up if the configuration asks for one, which may make
directories. -/
inductive Ready (around : Surroundings) (i : Invocation) : Config → Files → Prop where
  | silent {config : Config}
      (configured : Configures around.files around.cwd i.config (.ok config))
      (logging : config.logging = none) : Ready around i config around.files
  | logged {config : Config} {wanted : LoggingConfig} {log : Log} {files : Files}
      (configured : Configures around.files around.cwd i.config (.ok config))
      (logging : config.logging = some wanted)
      (started : Log.silent.initFromConfig around.files wanted = (.ok log, files)) :
      Ready around i config files

/-! ### What is done -/

section Serves

variable (config : Config) (files : Files) (cwd : Place) (refusal : Option EngineFault)
  (stamp : Stamp) (db : Database)

/-- What is put out of a command in a configuration, and the database after it. The service call of the
command is made on a database in memory, in which nothing may be written if there is a refusal. A command
whose submission cannot be read in the files makes no call. -/
inductive Serves : Command → Printed → Database → Prop where
  | unsubmitted {file message : String} {mode : Option String}
      (submits : Submits files cwd file (.error message)) :
      Serves (.persist file mode) (.failure message) db
  | persist {file : String} {mode : Option String} {s : Submission}
      {result : Except ServiceError Item} {after : Database}
      (submits : Submits files cwd file (.ok s))
      (call : (Service.persistByName { config := config } mode s).effect (Database.through refusal)
        stamp db = (result, after)) :
      Serves (.persist file mode) (.result Item.toJson result) after
  | get {id : Uuid} {result : Except ServiceError Item} {after : Database}
      (call : (Service.get id).effect (Database.through refusal) stamp db = (result, after)) :
      Serves (.get id) (.result Item.toJson result) after
  | list {definitionId tenantId version : Option String}
      {result : Except ServiceError (List Item)} {after : Database}
      (call : (Service.list ⟨[{ definitionId, tenantId, version }]⟩).effect
        (Database.through refusal) stamp db = (result, after)) :
      Serves (.list definitionId tenantId version)
        (.result (fun items : List Item => .array (items.map Item.toJson)) result) after
  | deleteOne {id : Uuid} {result : Except ServiceError Bool} {after : Database}
      (call : (Service.delete id).effect (Database.through refusal) stamp db = (result, after)) :
      Serves (.deleteOne id)
        (.result (fun done : Bool => .object [("deleted", .bool done)]) result) after
  | deleteMany {definitionId : String} {tenantId : Option String}
      {result : Except ServiceError Nat} {after : Database}
      (call : (Service.deleteAll ⟨[{ definitionId := some definitionId, tenantId }]⟩).effect
        (Database.through refusal) stamp db = (result, after)) :
      Serves (.deleteMany definitionId tenantId)
        (.result (fun count : Nat => .object [("deleted", .number (.integer count))]) result) after

end Serves

/-- A run: what it finds, and its arguments. -/
structure Run where
  around : Surroundings
  args : List String

/-- The path of the database of a run. -/
def Invocation.path (i : Invocation) : String :=
  i.database.getD "./pdm.sqlite3"

/-- What a run puts out whose call is made on a database in memory, and the database after it. A run that
comes to no call leaves the database as it is. -/
inductive Answers (db : Database) (r : Run) : Printed → Database → Prop where
  | misuse (asks : request r.args = .misuse) : Answers db r ⟨2, "", usage⟩ db
  | help (asks : request r.args = .help) : Answers db r ⟨0, usage, ""⟩ db
  | version (asks : request r.args = .version) :
      Answers db r ⟨0, s!"pdm {libraryVersion}\n", ""⟩ db
  | unconfigured {i : Invocation} {message : String} (asks : i.Spells r.args)
      (configures : Configures r.around.files r.around.cwd i.config (.error message)) :
      Answers db r (.failure message) db
  | unlogged {i : Invocation} {config : Config} {wanted : LoggingConfig} {cause : LoggingError}
      (asks : i.Spells r.args)
      (configures : Configures r.around.files r.around.cwd i.config (.ok config))
      (logging : config.logging = some wanted)
      (started : (Log.silent.initFromConfig r.around.files wanted).1 = .error cause) :
      Answers db r (.failure ("logging setup failed: " ++ cause.message)) db
  | pinged {i : Invocation} {config : Config} {files : Files} (asks : i.Spells r.args)
      (ready : Ready r.around i config files) (ping : i.command = .ping) :
      Answers db r ⟨0, s!"pdm_core ping=pong\npdm_core version={libraryVersion}\n", ""⟩ db
  | barred {i : Invocation} {config : Config} {files : Files} {cause : DatabaseError}
      (asks : i.Spells r.args) (ready : Ready r.around i config files)
      (opens : i.command ≠ .ping)
      (barrier : Database.barrier? files r.around.cwd i.path = some cause) :
      Answers db r (.failure cause.message) db
  | served {i : Invocation} {config : Config} {files : Files} {printed : Printed} {after : Database}
      (asks : i.Spells r.args) (ready : Ready r.around i config files)
      (barrier : Database.barrier? files r.around.cwd i.path = none)
      (serves : Serves config (Database.openFile files r.around.cwd i.path 0).files r.around.cwd
        (Database.refusal? i.path) r.around.stamp db i.command printed after) :
      Answers db r printed after

/-- What runs put out whose calls are made one after the other on one database in memory, and the rows of
that database after each of them. -/
inductive Session : Database → List Run → List (Printed × List Row) → Prop where
  | nil {db : Database} : Session db [] []
  | cons {db after : Database} {r : Run} {rest : List Run} {printed : Printed}
      {seen : List (Printed × List Row)} (answers : Answers db r printed after)
      (next : Session after rest seen) :
      Session db (r :: rest) ((printed, after.items.rows) :: seen)

end Lineage.CommandLine
