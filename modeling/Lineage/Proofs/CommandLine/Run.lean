/-
A run of the command line program owes what it puts out.

A run opens the database file anew, migrates it, and closes it. `Answers.leaves` says that it puts out
what the rules in `Answers` give, and leaves in the file what the database that is never closed has
become. By `exists_answers` the rules give something for every run.
-/

import Lineage.Proofs.CommandLine.Answers
import Lineage.Proofs.Definition.Payload
import Lineage.Proofs.Service.Permanence

namespace Lineage.CommandLine

/-! ### What a run reads -/

section Reading

variable {files : Files} {cwd : Place} {around : Surroundings} {i : Invocation} {config : Config}

theorem eq_ok_of_mapError {ε ε' α : Type} {f : ε → ε'} {x : Except ε α} {v : α}
    (h : x.mapError f = .ok v) : x = .ok v := by
  cases x with
  | error cause => cases h
  | ok w => exact congrArg Except.ok (Except.ok.inj h)

theorem exists_error_of_mapError {ε ε' α : Type} {f : ε → ε'} {x : Except ε α} {cause : ε'}
    (h : x.mapError f = .error cause) : ∃ inner, x = .error inner ∧ f inner = cause := by
  cases x with
  | error inner => exact ⟨inner, rfl, Except.error.inj h⟩
  | ok w => cases h

/-- The program loads the configuration that the rules give. -/
theorem configures_iff {path : Option String} {outcome : Except String Config} :
    Configures files cwd path outcome ↔
      (loadConfig files cwd path).mapError ConfigError.message = outcome := by
  constructor
  · intro h
    cases h with
    | default => rfl
    | unreadable read =>
      simp only [loadConfig, read]
      rfl
    | invalid read decode =>
      simp only [loadConfig, read, Config.ofText, decode]
      rfl
    | @blank path text config read decode blank =>
      have hblank : Text.isBlankText config.initialVersion = true := List.all_eq_true.2 blank
      simp only [loadConfig, read, Config.ofText, decode, Config.validate, if_pos hblank]
      rfl
    | @named path text config read decode filled =>
      have hfilled : ¬ Text.isBlankText config.initialVersion = true := by
        simpa [Text.isBlankText] using filled
      simp only [loadConfig, read, Config.ofText, decode, Config.validate, if_neg hfilled]
      rfl
  · rintro rfl
    cases path with
    | none => exact .default
    | some path =>
      cases read : files.readText cwd path with
      | error cause =>
        simp only [loadConfig, read]
        exact .unreadable read
      | ok text =>
        cases decode : Json.decode Config.decoder text with
        | error cause =>
          simp only [loadConfig, read, Config.ofText, decode]
          exact .invalid read decode
        | ok config =>
          simp only [loadConfig, read, Config.ofText, decode, Config.validate]
          split
          · next blank => exact .blank read decode (List.all_eq_true.1 blank)
          · next filled => exact .named read decode (by simpa [Text.isBlankText] using filled)

theorem submits_iff {file : String} {outcome : Except String Submission} :
    Submits files cwd file outcome ↔
      (readSubmission files cwd file).mapError RunError.message = outcome := by
  constructor
  · intro h
    cases h with
    | unreadable read =>
      simp only [readSubmission, read]
      rfl
    | invalid read decode =>
      simp only [readSubmission, read, decode]
      rfl
    | named read decode =>
      simp only [readSubmission, read, decode]
      rfl
  · rintro rfl
    cases read : files.readText cwd file with
    | error cause =>
      simp only [readSubmission, read]
      exact .unreadable read
    | ok text =>
      cases decode : Json.decode Submission.decoder text with
      | error cause =>
        simp only [readSubmission, read, decode]
        exact .invalid read decode
      | ok s =>
        simp only [readSubmission, read, decode]
        exact .named read decode

/-- The payload of a submission that a file holds can be read back. -/
theorem Submits.readable {file : String} {s : Submission} (h : Submits files cwd file (.ok s)) :
    s.payload.Readable := by
  cases h with
  | named _ decode => exact Submission.readable_of_decode decode

/-- What a run of an invocation does once its configuration is loaded and its log is set up. -/
def proceed (around : Surroundings) (i : Invocation) (config : Config) (log : Log) (files : Files) :
    Report :=
  if i.command = .ping then ⟨0, pingText, "", log.makeFile files, log⟩
  else
    let opening := Database.openFile files around.cwd i.path 0
    let log := log.recordAll opening.events
    match opening.result with
    | .error cause => failed (.database cause) opening.files log
    | .ok c => serve config { around with files := opening.files } log c i.command

theorem Ready.exists_invoke_eq {files : Files} (h : Ready around i config files) :
    ∃ log, invoke around i = proceed around i config log files := by
  cases h with
  | silent configured logging =>
    refine ⟨.silent, ?_⟩
    simp only [invoke, eq_ok_of_mapError (configures_iff.1 configured), logging]
    rfl
  | @logged _ log _ configured logging started =>
    refine ⟨log, ?_⟩
    simp only [invoke, eq_ok_of_mapError (configures_iff.1 configured), logging, started]
    rfl

end Reading

/-! ### What a run leaves at a place -/

theorem spares_makeFile (log : Log) (files : Files) (place : Place) :
    files.Spares place (log.makeFile files) := by
  unfold Log.makeFile
  split
  · split
    · exact .inl rfl
    · next directory _ =>
      dsimp only
      split
      · exact .inl rfl
      · next hnone =>
        refine Files.spares_put hnone ?_ place
        rintro content ⟨⟩
        rfl
  · exact .inl rfl

theorem spares_start (recorder : Recorder) (files : Files) (wanted : LogSettings) (place : Place) :
    files.Spares place (Log.start recorder files wanted).2 := by
  have hgrows := files.grows_makeDirectories [] wanted.directory
  unfold Log.start
  split
  · next hmade =>
    rw [hmade] at hgrows
    exact hgrows.spares place
  · next hmade =>
    rw [hmade] at hgrows
    split
    all_goals exact hgrows.spares place

theorem spares_setUp (log : Log) (files : Files) (request : LogRequest) (place : Place) :
    files.Spares place (log.setUp .debug .ready files request).2.2 := by
  unfold Log.setUp
  split
  · exact .inl rfl
  · next wanted _ =>
    split
    · exact .inl rfl
    · have hspared := spares_start .ready files wanted place
      split
      all_goals
        next hstarted =>
        rw [hstarted] at hspared
        exact hspared

theorem spares_initFromConfig {log : Log} {files after : Files} {logging : LoggingConfig}
    {started : Except LoggingError Log} (h : log.initFromConfig files logging = (started, after))
    (place : Place) : files.Spares place after := by
  rw [Log.initFromConfig, Log.setUpReady, Prod.mk.injEq] at h
  exact h.2 ▸ spares_setUp log files (.configured logging) place

theorem Ready.spares {around : Surroundings} {i : Invocation} {config : Config} {files : Files}
    (h : Ready around i config files) (place : Place) : around.files.Spares place files := by
  cases h with
  | silent _ _ => exact .inl rfl
  | logged _ _ started => exact spares_initFromConfig started place

/-- A report puts out what it should, and leaves a database that requests have made in the file at a
place. -/
structure Report.Leaves (report : Report) (place : Place) (printed : Printed) (db : Database) : Prop where
  code : report.code = printed.code
  out : report.out = printed.out
  err : report.err = printed.err
  houses : Houses place db (report.files.node? place)
  reachable : db.Reachable

/-! ### Calls and their documents -/

section Calls

variable {σ α : Type} {backend : Backend σ} {stamp : Stamp} {s after : σ}

theorem effect_document {toJson : α → Json} {c : Service.Call α} {result : Except ServiceError α}
    (h : c.effect backend stamp s = (result, after)) :
    (document toJson c).effect backend stamp s = (result.map toJson, after) := by
  rw [document, Dialogue.effect_bind, h]
  rfl

theorem effect_stored {c : Service.Call Item} {result : Except ServiceError Item}
    (h : c.effect backend stamp s = (result, after)) :
    (stored c).effect backend stamp s = (result.map Item.toJson, after) := by
  rw [stored, Dialogue.effect_bind, h]
  cases result <;> rfl

theorem asks_ask {allowed : Lineage.Request → Prop} {r : Lineage.Request}
    {next : r.Value → Service.Call α} (hr : allowed r) (hnext : ∀ value, (next value).Asks allowed) :
    (Service.ask r next).Asks allowed := by
  refine ⟨hr, fun answer => ?_⟩
  cases answer with
  | ok value => exact hnext value
  | error cause => trivial

theorem asks_stored {allowed : Lineage.Request → Prop} {c : Service.Call Item}
    (hc : c.Asks allowed) : (stored c).Asks allowed :=
  hc.bind fun result => by cases result <;> trivial

end Calls

section Step

variable {place : Place} {db after : Database} {files : Files} {around : Surroundings}
  {config : Config} {refusal : Option EngineFault} {command : Command} {printed : Printed}

theorem leaves_of_files (hdb : db.Reachable) (hhouses : Houses place db (files.node? place))
    (code : Nat) (out err : String) (log : Log) :
    Report.Leaves ⟨code, out, err, log.makeFile files, log⟩ place ⟨code, out, err⟩ db :=
  ⟨rfl, rfl, rfl, (spares_makeFile log files place).houses hhouses, hdb⟩

/-- A run that fails leaves what there was. -/
theorem leaves_failed (hdb : db.Reachable) (hhouses : Houses place db (files.node? place))
    {cause : RunError} {message : String} (h : cause.message = message) (log : Log) :
    (failed cause files log).Leaves place (.failure message) db := by
  subst h
  exact leaves_of_files hdb hhouses 1 "" _ log

/-- A call on the connection to a database that has been opened goes as on the database itself. -/
theorem leaves_call (log : Log) (hdb : db.Reachable) (hfits : Companion.Fits place)
    (hnode : around.files.node? place = some (.file (.database db))) {α : Type} {toJson : α → Json}
    {d : Service.Call Json} {result : Except ServiceError α} (hasks : d.Asks Lineage.Request.Readable)
    (hcall : call { config := config } around.files around.cwd command = .ok d)
    (heffect : d.effect (Database.through refusal) around.stamp db = (result.map toJson, after)) :
    (serve config around log ⟨some place, refusal, db, false⟩ command).Leaves place
      (.result toJson result) after := by
  unfold serve
  rw [Database.checkSchema_of_latest hdb.version_eq]
  simp only [hcall]
  obtain ⟨changed, hconnection, hsame⟩ :=
    hdb.effect_connection refusal around.stamp hasks (some place) false
  have hreachable := hdb.effect refusal around.stamp d
  rw [heffect] at hconnection hsame hreachable
  have hresult : (d.run Connection.backend around.stamp ⟨some place, refusal, db, false⟩).result =
      result.map toJson := congrArg Prod.fst hconnection
  have hstate : (d.run Connection.backend around.stamp ⟨some place, refusal, db, false⟩).state =
      ⟨some place, refusal, after, changed⟩ := congrArg Prod.snd hconnection
  have hsaved := Database.houses_save hfits hnode (fun hunchanged => (hsame hunchanged).2) refusal
  rw [hresult, hstate]
  cases result with
  | error cause => exact leaves_failed hreachable hsaved rfl _
  | ok value => exact leaves_of_files hreachable hsaved 0 _ "" _

/-- The result of a call is printed as a document. -/
theorem leaves_document (log : Log) (hdb : db.Reachable) (hfits : Companion.Fits place)
    (hnode : around.files.node? place = some (.file (.database db))) {α : Type} {toJson : α → Json}
    {c : Service.Call α} {result : Except ServiceError α}
    (hcall : call { config := config } around.files around.cwd command = .ok (document toJson c))
    (heffect : c.effect (Database.through refusal) around.stamp db = (result, after))
    (hasks : c.Asks Lineage.Request.Readable) :
    (serve config around log ⟨some place, refusal, db, false⟩ command).Leaves place
      (.result toJson result) after := by
  have hdocument : (document toJson c).Asks Lineage.Request.Readable := hasks.bind fun _ => trivial
  exact leaves_call log hdb hfits hnode hdocument hcall (effect_document heffect)

theorem call_persist (service : Service) (files : Files) (cwd : Place) (file : String)
    (mode : Option String) :
    call service files cwd (.persist file mode) =
      (readSubmission files cwd file).map fun s => stored (service.persistByName mode s) := by
  unfold call
  dsimp only
  cases readSubmission files cwd file <;> rfl

/-- On the connection to a database that has been opened, a command goes as its rule says. -/
theorem Serves.leaves
    (h : Serves config around.files around.cwd refusal around.stamp db command printed after)
    (log : Log) (hdb : db.Reachable) (hfits : Companion.Fits place)
    (hnode : around.files.node? place = some (.file (.database db))) :
    (serve config around log ⟨some place, refusal, db, false⟩ command).Leaves place printed after := by
  cases h with
  | unsubmitted submits =>
    obtain ⟨cause, hread, hcause⟩ := exists_error_of_mapError (submits_iff.1 submits)
    unfold serve
    rw [Database.checkSchema_of_latest hdb.version_eq]
    simp only [call_persist, hread]
    exact leaves_failed hdb (hnode ▸ .stored hfits) hcause log
  | @persist _ mode s _ _ submits call =>
    have hread := eq_ok_of_mapError (submits_iff.1 submits)
    have hlast := writesLast_persistByName { config := config } mode s
    refine leaves_call log hdb hfits hnode (asks_stored (hlast.asks submits.readable)) ?_
      (effect_stored call)
    rw [call_persist, hread]
    rfl
  | get call => exact leaves_document log hdb hfits hnode rfl call (asks_ask trivial fun _ => trivial)
  | list call => exact leaves_document log hdb hfits hnode rfl call (asks_ask trivial fun _ => trivial)
  | deleteOne call =>
    exact leaves_document log hdb hfits hnode rfl call (asks_ask trivial fun _ => trivial)
  | deleteMany call =>
    exact leaves_document log hdb hfits hnode rfl call (asks_ask trivial fun _ => trivial)

/-! ### One run -/

/-- The report of a run. -/
def Run.report (r : Run) : Report :=
  run r.around r.args

/-- Whether the database of a run, if it comes to use one, is that at a place. -/
def Run.Aims (r : Run) (place : Place) : Prop :=
  ∀ i config files, i.Spells r.args → Ready r.around i config files → i.command ≠ .ping →
    Database.LeadsTo files r.around.cwd i.path place

/-- A run puts out what comes of its call on a database in memory, and leaves in the file what that
database has become. -/
theorem Answers.leaves {r : Run} (h : Answers db r printed after) (hdb : db.Reachable)
    (hhouses : Houses place db (r.around.files.node? place)) (haims : r.Aims place) :
    r.report.Leaves place printed after := by
  unfold Run.report run
  cases h with
  | misuse asks =>
    rw [asks]
    exact ⟨rfl, rfl, rfl, hhouses, hdb⟩
  | help asks =>
    rw [asks]
    exact ⟨rfl, rfl, rfl, hhouses, hdb⟩
  | version asks =>
    rw [asks]
    exact ⟨rfl, rfl, rfl, hhouses, hdb⟩
  | unconfigured asks configures =>
    obtain ⟨cause, hload, hcause⟩ := exists_error_of_mapError (configures_iff.1 configures)
    simp only [request_of_spells asks, invoke, hload]
    exact leaves_failed hdb hhouses (show (RunError.config cause).message = _ from hcause) .silent
  | @unlogged i config wanted cause asks configures logging started =>
    have hload := eq_ok_of_mapError (configures_iff.1 configures)
    rcases houtcome : Log.silent.initFromConfig r.around.files wanted with ⟨result, files⟩
    obtain rfl : result = .error cause := (congrArg Prod.fst houtcome).symm.trans started
    have hspared := (spares_initFromConfig houtcome place).houses hhouses
    simp only [request_of_spells asks, invoke, hload, logging, houtcome]
    exact leaves_failed hdb hspared rfl .silent
  | pinged asks ready ping =>
    obtain ⟨log, hinvoke⟩ := ready.exists_invoke_eq
    simp only [request_of_spells asks, hinvoke, proceed, if_pos ping]
    exact leaves_of_files hdb ((ready.spares place).houses hhouses) 0 _ "" log
  | @barred i _ files _ asks ready opens barrier =>
    obtain ⟨log, hinvoke⟩ := ready.exists_invoke_eq
    have hspared := (ready.spares place).houses hhouses
    have hopened := Database.reopened hdb.version_eq hspared (haims _ _ _ asks ready opens) 0
    simp only [request_of_spells asks, hinvoke, proceed, if_neg opens]
    rw [barrier] at hopened
    generalize Database.openFile files r.around.cwd i.path 0 = opening at hopened ⊢
    obtain ⟨result, opened, events⟩ := opening
    cases hopened with
    | barred houses => exact leaves_failed hdb houses rfl _
  | @served i _ files _ _ asks ready barrier serves =>
    have opens : i.command ≠ .ping := by
      intro hping
      rw [hping] at serves
      cases serves
    obtain ⟨log, hinvoke⟩ := ready.exists_invoke_eq
    have hspared := (ready.spares place).houses hhouses
    have hopened := Database.reopened hdb.version_eq hspared (haims _ _ _ asks ready opens) 0
    simp only [request_of_spells asks, hinvoke, proceed, if_neg opens]
    rw [barrier] at hopened
    generalize Database.openFile files r.around.cwd i.path 0 = opening at hopened serves ⊢
    obtain ⟨result, opened, events⟩ := opening
    cases hopened with
    | opened hfits hnode => exact serves.leaves _ hdb hfits hnode

theorem exists_serves (config : Config) (files : Files) (cwd : Place) (refusal : Option EngineFault)
    (stamp : Stamp) (db : Database) (h : command ≠ .ping) :
    ∃ printed after, Serves config files cwd refusal stamp db command printed after := by
  cases command with
  | ping => exact absurd rfl h
  | persist file mode =>
    have submits : Submits files cwd file _ := submits_iff.2 rfl
    cases hread : (readSubmission files cwd file).mapError RunError.message with
    | error message => exact ⟨_, _, .unsubmitted (hread ▸ submits)⟩
    | ok s => exact ⟨_, _, .persist (hread ▸ submits) rfl⟩
  | get id => exact ⟨_, _, .get rfl⟩
  | list definitionId tenantId version => exact ⟨_, _, .list rfl⟩
  | deleteOne id => exact ⟨_, _, .deleteOne rfl⟩
  | deleteMany definitionId tenantId => exact ⟨_, _, .deleteMany rfl⟩

/-- The configuration of an invocation cannot be loaded, its log cannot be set up, or it is ready. -/
theorem exists_ready (around : Surroundings) (i : Invocation) :
    (∃ message, Configures around.files around.cwd i.config (.error message)) ∨
      (∃ config wanted cause, Configures around.files around.cwd i.config (.ok config) ∧
        config.logging = some wanted ∧
          (Log.silent.initFromConfig around.files wanted).1 = .error cause) ∨
      ∃ config files, Ready around i config files := by
  have configures : Configures around.files around.cwd i.config _ := configures_iff.2 rfl
  cases hload : (loadConfig around.files around.cwd i.config).mapError ConfigError.message with
  | error message => exact .inl ⟨message, hload ▸ configures⟩
  | ok config =>
    rw [hload] at configures
    cases logging : config.logging with
    | none => exact .inr (.inr ⟨config, _, .silent configures logging⟩)
    | some wanted =>
      rcases started : Log.silent.initFromConfig around.files wanted with ⟨result, files⟩
      cases result with
      | error cause =>
        exact .inr (.inl ⟨config, wanted, cause, configures, logging, congrArg Prod.fst started⟩)
      | ok log => exact .inr (.inr ⟨config, files, .logged configures logging started⟩)

/-- Every run comes to something. -/
theorem exists_answers (db : Database) (r : Run) : ∃ printed after, Answers db r printed after := by
  cases asks : request r.args with
  | misuse => exact ⟨_, _, .misuse asks⟩
  | help => exact ⟨_, _, .help asks⟩
  | version => exact ⟨_, _, .version asks⟩
  | invoke i =>
    have asks := spells_of_request asks
    rcases exists_ready r.around i with ⟨message, configures⟩ |
      ⟨config, wanted, cause, configures, logging, started⟩ | ⟨config, files, ready⟩
    · exact ⟨_, _, .unconfigured asks configures⟩
    · exact ⟨_, _, .unlogged asks configures logging started⟩
    · by_cases ping : i.command = .ping
      · exact ⟨_, _, .pinged asks ready ping⟩
      · cases barrier : Database.barrier? files r.around.cwd i.path with
        | some cause => exact ⟨_, _, .barred asks ready ping barrier⟩
        | none =>
          obtain ⟨printed, after, serves⟩ := exists_serves config
            (Database.openFile files r.around.cwd i.path 0).files r.around.cwd
            (Database.refusal? i.path) r.around.stamp db ping
          exact ⟨printed, after, .served asks ready barrier serves⟩

end Step

end Lineage.CommandLine
