/-
A migration is done as a whole or not at all.

The engine is asked for a migration step by step: a transaction is begun, statements are executed in
it, versions are set, and it is committed at the end. `Session` says what becomes of a database when a
step fails or no further step comes: a transaction that is not committed leaves nothing behind.
`run_steps` says that the steps for a database end as `migrate` does, and `run_take_steps` that nothing
is seen of them before the last one. What a migration that succeeds leaves alone follows from what one
statement leaves alone (`Extends`).
-/

import Lineage.Database.Open

namespace Lineage

namespace Database

/-! ### Transactions -/

/-- What the engine is asked to do next. -/
inductive Step where
  | begin
  | execute (statement : Statement)
  | setVersion (version : Nat)
  | commit

/-- A database, and what an open transaction has made of it. -/
structure Session where
  database : Database
  transaction : Option Database

namespace Session

/-- Changes what the open transaction has made, or the database itself if none is open. -/
def change (s : Session) (f : Database → Except EngineFault Database) :
    Except EngineFault Session :=
  match s.transaction with
  | some db => (f db).map fun db => { s with transaction := some db }
  | none => (f s.database).map fun db => { s with database := db }

/-- Takes one step. -/
def step (s : Session) : Step → Except EngineFault Session
  | .begin => .ok { s with transaction := some s.database }
  | .execute statement => s.change (·.execute statement)
  | .setVersion version => s.change fun db => .ok { db with version := version }
  | .commit => .ok ⟨s.transaction.getD s.database, none⟩

/-- Takes steps up to the first one that fails, and gives its fault and the database after them. A
transaction that is still open then is dropped. -/
def run (s : Session) : List Step → Option EngineFault × Database
  | [] => (none, s.database)
  | step :: rest =>
    match s.step step with
    | .ok s => s.run rest
    | .error fault => (some fault, s.database)

end Session

/-- The steps of a migration. -/
def Migration.steps (migration : Migration) : List Step :=
  migration.statements.map .execute ++ [.setVersion migration.version]

/-- The steps that bring a database at a version to the latest one, in one transaction. -/
def stepsFrom (version : Nat) : List Step :=
  .begin :: ((pending version).flatMap Migration.steps ++ [.commit])

/-- The steps that a database takes to the latest schema: none if its version cannot be read or is
not an earlier one. -/
def steps (db : Database) : List Step :=
  match db.schemaVersion with
  | .ok version => if version < latestVersion then stepsFrom version else []
  | .error _ => []

end Database

/-- The fault of the step at which a migration failed, if it was a step. -/
def DatabaseError.stepFault? : DatabaseError → Option EngineFault
  | .migration _ _ fault => some fault
  | _ => none

namespace Database

/-! ### Steps in a transaction -/

namespace Session

variable {db work after : Database} {migration : Migration} {rest : List Step}

theorem run_of_ok {s s' : Session} {step : Step} (h : s.step step = .ok s') :
    s.run (step :: rest) = s'.run rest := by
  rw [run, h]

theorem run_of_error {s : Session} {step : Step} {fault : EngineFault}
    (h : s.step step = .error fault) : s.run (step :: rest) = (some fault, s.database) := by
  rw [run, h]

/-- Statements in a transaction are executed one after the other. -/
theorem run_statements (statements : List Statement) (rest : List Step) (db work : Database) :
    run ⟨db, some work⟩ (statements.map .execute ++ rest) =
      match statements.foldlM execute work with
      | .ok after => run ⟨db, some after⟩ rest
      | .error fault => (some fault, db) := by
  induction statements generalizing work with
  | nil => rfl
  | cons statement statements ih =>
    rw [List.map_cons, List.cons_append, List.foldlM_cons]
    cases h : work.execute statement with
    | error fault =>
      have hstep : step ⟨db, some work⟩ (.execute statement) = .error fault := by
        simp only [step, change, h]
        rfl
      exact run_of_error hstep
    | ok next =>
      have hstep : step ⟨db, some work⟩ (.execute statement) = .ok ⟨db, some next⟩ := by
        simp only [step, change, h]
        rfl
      exact (run_of_ok hstep).trans (ih next)

theorem run_migration_of_ok (h : work.apply migration = .ok after) (rest : List Step) :
    run ⟨db, some work⟩ (migration.steps ++ rest) = run ⟨db, some after⟩ rest := by
  rw [apply] at h
  cases hnext : migration.statements.foldlM execute work with
  | error fault =>
    rw [hnext] at h
    cases h
  | ok next =>
    rw [hnext] at h
    cases h
    rw [Migration.steps, List.append_assoc, run_statements, hnext]
    rfl

theorem run_migration_of_error {cause : DatabaseError} (h : work.apply migration = .error cause)
    (rest : List Step) :
    run ⟨db, some work⟩ (migration.steps ++ rest) = (cause.stepFault?, db) := by
  rw [apply] at h
  cases hfault : migration.statements.foldlM execute work with
  | ok next =>
    rw [hfault] at h
    cases h
  | error fault =>
    rw [hfault] at h
    cases h
    rw [Migration.steps, List.append_assoc, run_statements, hfault]
    rfl

/-- Migrations in a transaction are committed together if all of them succeed. -/
theorem run_migrations (migrations : List Migration) (db work : Database) :
    run ⟨db, some work⟩ (migrations.flatMap Migration.steps ++ [.commit]) =
      match (work.applyAll migrations).1 with
      | .ok after => (none, after)
      | .error cause => (cause.stepFault?, db) := by
  induction migrations generalizing work with
  | nil => rfl
  | cons migration migrations ih =>
    rw [List.flatMap_cons, List.append_assoc, applyAll]
    cases h : work.apply migration with
    | error cause => exact run_migration_of_error h _
    | ok next => exact (run_migration_of_ok h _).trans (ih next)

/-- Nothing is seen of a transaction that is not committed. -/
theorem run_of_uncommitted {steps : List Step} (h : .commit ∉ steps) :
    (run ⟨db, some work⟩ steps).2 = db := by
  induction steps generalizing work with
  | nil => rfl
  | cons step rest ih =>
    rw [List.mem_cons, not_or] at h
    have hchange : ∀ f : Database → Except EngineFault Database,
        (∃ next, change ⟨db, some work⟩ f = .ok ⟨db, some next⟩) ∨
          ∃ fault, change ⟨db, some work⟩ f = .error fault := by
      intro f
      simp only [change]
      cases f work with
      | ok next => exact .inl ⟨next, rfl⟩
      | error fault => exact .inr ⟨fault, rfl⟩
    have hrun : ∀ f, Session.step ⟨db, some work⟩ step = change ⟨db, some work⟩ f →
        (run ⟨db, some work⟩ (step :: rest)).2 = db := by
      intro f hf
      rcases hchange f with ⟨next, hnext⟩ | ⟨fault, hfault⟩
      · rw [run_of_ok (hf.trans hnext)]
        exact ih h.2
      · rw [run_of_error (hf.trans hfault)]
    cases step with
    | begin => exact ih h.2
    | execute statement => exact hrun (·.execute statement) rfl
    | setVersion version => exact hrun (fun db => .ok { db with version := version }) rfl
    | commit => exact absurd rfl h.1

end Session

/-! ### What a statement leaves alone -/

/-- A database with the objects of another one, and maybe further ones, and with the same rows. -/
structure Extends (after db : Database) : Prop where
  objects : db.objects <+: after.objects
  items : after.items = db.items

namespace Extends

variable {db next after : Database}

theorem refl (db : Database) : db.Extends db :=
  ⟨List.prefix_refl _, rfl⟩

theorem trans (h : after.Extends next) (h' : next.Extends db) : after.Extends db :=
  ⟨h'.objects.trans h.objects, h.items.trans h'.items⟩

end Extends

section Migrations

variable {db after : Database}

theorem extends_createTable {name : String} {columns : List String}
    (h : db.createTable name columns = .ok after) : after.Extends db := by
  unfold createTable at h
  split at h
  · split at h
    · cases h
    · cases h
      exact .refl db
  · cases h
    exact ⟨List.prefix_append _ _, rfl⟩

theorem extends_createIndex {name table : String} {unique : Bool} {columns : List String}
    (h : db.createIndex name unique table columns = .ok after) : after.Extends db := by
  unfold createIndex at h
  repeat' split at h
  all_goals cases h
  · exact .refl db
  · exact ⟨List.prefix_append _ _, rfl⟩

theorem extends_execute {statement : Statement} (h : db.execute statement = .ok after) :
    after.Extends db := by
  cases statement with
  | createTable name columns => exact extends_createTable h
  | createIndex name unique table columns => exact extends_createIndex h

theorem extends_statements {statements : List Statement}
    (h : statements.foldlM execute db = .ok after) : after.Extends db := by
  induction statements generalizing db with
  | nil =>
    cases h
    exact .refl _
  | cons statement statements ih =>
    rw [List.foldlM_cons] at h
    cases hnext : db.execute statement with
    | error fault =>
      rw [hnext] at h
      cases h
    | ok next =>
      rw [hnext] at h
      exact (ih h).trans (extends_execute hnext)

theorem extends_apply {migration : Migration} (h : db.apply migration = .ok after) :
    after.Extends db ∧ after.version = migration.version := by
  unfold apply at h
  split at h
  · next next hnext =>
    cases h
    exact ⟨⟨(extends_statements hnext).objects, (extends_statements hnext).items⟩, rfl⟩
  · cases h

/-- Migrations leave the objects and the rows alone that are there, and the last one decides the
version. -/
theorem extends_applyAll {migrations : List Migration}
    (h : (db.applyAll migrations).1 = .ok after) :
    after.Extends db ∧
      ∀ migration, migrations.getLast? = some migration → after.version = migration.version := by
  induction migrations generalizing db with
  | nil =>
    cases h
    exact ⟨.refl _, nofun⟩
  | cons migration migrations ih =>
    rw [applyAll] at h
    cases hnext : db.apply migration with
    | error cause =>
      rw [hnext] at h
      cases h
    | ok next =>
      rw [hnext] at h
      obtain ⟨hextends, hversion⟩ := ih h
      obtain ⟨hextends', hversion'⟩ := extends_apply hnext
      refine ⟨hextends.trans hextends', fun last hlast => ?_⟩
      cases migrations with
      | nil =>
        cases hlast
        cases h
        exact hversion'
      | cons second rest => exact hversion last (by rwa [List.getLast?_cons_cons] at hlast)

end Migrations

/-! ### Runs of migrations -/

section Runs

variable {db after : Database}

theorem pending_of_lt {version : Nat} (h : version < latestVersion) :
    pending version = migrations := by
  have hzero : version = 0 := Nat.lt_one_iff.1 h
  rw [hzero]
  rfl

/-- A migration that fails is named by the failure. -/
theorem exists_migration_of_applyAll {migrations : List Migration} {cause : DatabaseError}
    (h : (db.applyAll migrations).1 = .error cause) :
    ∃ version name fault, cause = .migration version name fault := by
  induction migrations generalizing db with
  | nil => cases h
  | cons migration migrations ih =>
    rw [applyAll] at h
    cases hnext : db.apply migration with
    | error fault =>
      rw [hnext] at h
      cases h
      unfold apply at hnext
      split at hnext
      · cases hnext
      · cases hnext
        exact ⟨_, _, _, rfl⟩
    | ok next =>
      rw [hnext] at h
      exact ih h

theorem schemaVersion_of_neg (h : db.version < 0) :
    db.schemaVersion = .error (.versionOutOfRange db.version) :=
  if_pos h

theorem schemaVersion_of_eq {version : Nat} (h : db.version = version) :
    db.schemaVersion = .ok version := by
  have hnonneg : ¬ db.version < 0 := by omega
  rw [schemaVersion, if_neg hnonneg, h, Int.toNat_natCast]

/-- How the migration of a database goes, by its version. -/
inductive Course (db : Database) : Prop where
  | unreadable (version : db.version < 0) (steps : db.steps = [])
      (result : db.migrate.1 = .error (.engine (.versionOutOfRange db.version)))
  | unsupported (found : Nat) (version : db.version = found) (gt : latestVersion < found)
      (steps : db.steps = [])
      (result : db.migrate.1 = .error (.unsupportedVersion found latestVersion))
  | latest (version : db.version = latestVersion) (steps : db.steps = [])
      (result : db.migrate = (.ok db, []))
  | earlier (found : Nat) (version : db.version = found) (lt : found < latestVersion)
      (steps : db.steps = stepsFrom found)
      (result : db.migrate.1 = (db.applyAll (pending found)).1)

theorem course (db : Database) : db.Course := by
  by_cases hneg : db.version < 0
  · have hschema := schemaVersion_of_neg hneg
    refine .unreadable hneg ?_ ?_
    · simp only [steps, hschema]
    · simp only [migrate, hschema]
  · obtain ⟨found, hversion⟩ := Int.eq_ofNat_of_zero_le (Int.not_lt.1 hneg)
    have hschema := schemaVersion_of_eq hversion
    rcases Nat.lt_trichotomy found latestVersion with hlt | rfl | hgt
    · refine .earlier found hversion hlt ?_ ?_
      · simp only [steps, hschema, if_pos hlt]
      · simp only [migrate, hschema, if_neg (Nat.lt_asymm hlt), if_neg (Nat.ne_of_lt hlt)]
        cases (db.applyAll (pending found)).1 <;> rfl
    · refine .latest hversion ?_ ?_
      · simp only [steps, hschema, if_neg (Nat.lt_irrefl latestVersion)]
      · simp only [migrate, hschema, if_neg (Nat.lt_irrefl latestVersion), if_true]
    · refine .unsupported found hversion hgt ?_ ?_
      · simp only [steps, hschema, if_neg (Nat.lt_asymm hgt)]
      · simp only [migrate, hschema, if_pos hgt]

/-- The steps for a database end as `migrate` does, and leave what it gives; or they fail where it
fails, and leave the database as it was. -/
theorem run_steps (db : Database) :
    Session.run ⟨db, none⟩ db.steps =
      match db.migrate.1 with
      | .ok after => (none, after)
      | .error cause => (cause.stepFault?, db) := by
  cases db.course with
  | unreadable _ hsteps hresult =>
    rw [hsteps, hresult]
    rfl
  | unsupported _ _ _ hsteps hresult =>
    rw [hsteps, hresult]
    rfl
  | latest _ hsteps hresult =>
    rw [hsteps, hresult]
    rfl
  | earlier found _ _ hsteps hresult =>
    rw [hsteps, hresult]
    exact Session.run_migrations (pending found) db db

theorem commit_not_mem_steps (migrations : List Migration) :
    .commit ∉ migrations.flatMap Migration.steps := by
  simp [Migration.steps]

/-- Whatever comes between the steps for a database, it is as it was until the last one is done. -/
theorem run_take_steps (db : Database) {n : Nat} (hn : n < db.steps.length) :
    (Session.run ⟨db, none⟩ (db.steps.take n)).2 = db := by
  have hnone : db.steps = [] → (Session.run ⟨db, none⟩ (db.steps.take n)).2 = db := by
    intro hsteps
    rw [hsteps] at hn
    cases hn
  cases db.course with
  | unreadable _ hsteps _ => exact hnone hsteps
  | unsupported _ _ _ hsteps _ => exact hnone hsteps
  | latest _ hsteps _ => exact hnone hsteps
  | earlier found _ _ hsteps _ =>
    cases n with
    | zero => rfl
    | succ n =>
      rw [hsteps, stepsFrom, List.length_cons, List.length_append, List.length_singleton] at hn
      rw [hsteps, stepsFrom, List.take_succ_cons, List.take_append_of_le_length (by omega)]
      have huncommitted : .commit ∉ ((pending found).flatMap Migration.steps).take n :=
        fun hmem => commit_not_mem_steps (pending found) (List.mem_of_mem_take hmem)
      exact Session.run_of_uncommitted huncommitted

theorem extends_migrate (h : db.migrate.1 = .ok after) :
    after.Extends db ∧ after.version = latestVersion := by
  cases db.course with
  | unreadable _ _ hresult =>
    rw [hresult] at h
    cases h
  | unsupported _ _ _ _ hresult =>
    rw [hresult] at h
    cases h
  | latest hversion _ hresult =>
    rw [hresult] at h
    cases h
    exact ⟨.refl _, hversion⟩
  | earlier found _ hlt _ hresult =>
    rw [hresult, pending_of_lt hlt] at h
    obtain ⟨hextends, hversion⟩ := extends_applyAll h
    exact ⟨hextends, hversion _ rfl⟩

theorem migrate_of_latest (h : db.version = latestVersion) : db.migrate = (.ok db, []) := by
  cases db.course with
  | unreadable hneg _ _ => omega
  | unsupported found hversion hgt _ _ => omega
  | latest _ _ hresult => exact hresult
  | earlier found hversion hlt _ _ => omega

/-- A database is refused as too new just if its version exceeds the latest one. -/
theorem unsupported_iff (db : Database) :
    (∃ found latest, db.migrate.1 = .error (.unsupportedVersion found latest)) ↔
      (latestVersion : Int) < db.version := by
  cases db.course with
  | unreadable hneg _ hresult =>
    refine iff_of_false ?_ (by omega)
    rintro ⟨found, latest, h⟩
    rw [hresult] at h
    cases h
  | unsupported found hversion hgt _ hresult => exact iff_of_true ⟨_, _, hresult⟩ (by omega)
  | latest hversion _ hresult =>
    refine iff_of_false ?_ (by omega)
    rintro ⟨found, latest, h⟩
    rw [hresult] at h
    cases h
  | earlier version hversion hlt _ hresult =>
    refine iff_of_false ?_ (by omega)
    rintro ⟨found, latest, h⟩
    obtain ⟨_, _, _, hcause⟩ := exists_migration_of_applyAll (hresult.symm.trans h)
    cases hcause

end Runs

/-! ### Databases that a store can work on -/

theorem checkSchema_of_latest {db : Database} (h : db.version = latestVersion) :
    db.checkSchema = .ok () := by
  rw [checkSchema, schemaVersion_of_eq h]
  exact if_pos rfl

end Database

namespace Connection

variable {c c' : Connection}

/-- No migration comes next for a database that is migrated without one only if it is the latest. -/
theorem version_of_migrate (h : c.migrate.1 = .ok c') :
    c'.database.version = Database.latestVersion := by
  unfold migrate at h
  cases hresult : c.database.migrate.1 with
  | error cause =>
    simp only [hresult, Except.map] at h
    repeat' split at h
    all_goals cases h
  | ok after =>
    simp only [hresult, Except.map] at h
    split at h
    · next hnone =>
      cases h
      cases c.database.course with
      | unreadable _ _ hfailed => simp [hfailed] at hresult
      | unsupported _ _ _ _ hfailed => simp [hfailed] at hresult
      | latest hversion _ _ => exact hversion
      | earlier found hversion hlt _ _ =>
        -- An earlier database has a migration before it.
        rw [Database.nextMigration?, Database.schemaVersion_of_eq hversion] at hnone
        dsimp only at hnone
        rw [Database.pending_of_lt hlt] at hnone
        cases hnone
    · split at h
      · cases h
      · cases h
        exact (Database.extends_migrate hresult).2

end Connection

namespace Database

section Opening

variable {files : Files} {cwd : Place} {path : String}

/-- How the opening of a database at a path goes: the step at which it fails, if it fails at one, what
comes of it, and the files after it. -/
inductive OpeningCourse (files : Files) (cwd : Place) (path : String) :
    Except DatabaseError Connection → Files → Prop where
  | noParents {cause : DatabaseError} {made : Files}
      (parents : makeParents files cwd path = (.error cause, made)) :
      OpeningCourse files cwd path (.error cause) made
  | notFound {made : Files} {fault : EngineFault}
      (parents : makeParents files cwd path = (.ok (), made))
      (handle : Handle.ofText made cwd path = .error fault) :
      OpeningCourse files cwd path (.error (.engine fault)) made
  | notRead {made found cleared : Files} {h : Handle} {fault : EngineFault}
      (parents : makeParents files cwd path = (.ok (), made))
      (handle : Handle.ofText made cwd path = .ok (h, found))
      (read : h.read found = (.error fault, cleared)) :
      OpeningCourse files cwd path (.error (.engine fault)) cleared
  | notMigrated {made found cleared : Files} {h : Handle} {c : Connection} {cause : DatabaseError}
      (parents : makeParents files cwd path = (.ok (), made))
      (handle : Handle.ofText made cwd path = .ok (h, found))
      (read : h.read found = (.ok c, cleared)) (migration : c.migrate.1 = .error cause) :
      OpeningCourse files cwd path (.error cause) cleared
  | opened {made found cleared : Files} {h : Handle} {c migrated : Connection}
      (parents : makeParents files cwd path = (.ok (), made))
      (handle : Handle.ofText made cwd path = .ok (h, found))
      (read : h.read found = (.ok c, cleared)) (migration : c.migrate.1 = .ok migrated) :
      OpeningCourse files cwd path (.ok { migrated with isChanged := false })
        (migrated.save cleared)

theorem openingCourse (files : Files) (cwd : Place) (path : String) (millis : Nat) :
    OpeningCourse files cwd path (openFile files cwd path millis).result
      (openFile files cwd path millis).files := by
  unfold openFile
  dsimp only
  split
  · next cause made hparents => exact .noParents hparents
  · next made hparents =>
    split
    · next fault hhandle => exact .notFound hparents hhandle
    · next h found hhandle =>
      split
      · next fault cleared hread => exact .notRead hparents hhandle hread
      · next c cleared hread =>
        split
        · next cause events hmigrate =>
          exact .notMigrated hparents hhandle hread (congrArg Prod.fst hmigrate)
        · next migrated events hmigrate =>
          exact .opened hparents hhandle hread (congrArg Prod.fst hmigrate)

/-- A store can work on a database that has been opened at a path. -/
theorem checkSchema_of_openFile {millis : Nat} {c : Connection}
    (h : (openFile files cwd path millis).result = .ok c) : c.database.checkSchema = .ok () := by
  have hcourse := openingCourse files cwd path millis
  rw [h] at hcourse
  generalize (openFile files cwd path millis).files = after at hcourse
  cases hcourse with
  | opened _ _ _ migration =>
    have hversion := Connection.version_of_migrate migration
    exact checkSchema_of_latest hversion

/-- A store can work on a new database in memory. -/
theorem checkSchema_of_openMemory {millis : Nat} {db : Database}
    (h : (openMemory millis).1 = .ok db) : db.checkSchema = .ok () :=
  have hmigrate : Database.empty.migrate.1 = .ok db := h
  checkSchema_of_latest (extends_migrate hmigrate).2

end Opening

end Database

/-! ### Migrations -/

/-- Take any database: any version, any objects, and any rows. When its migration fails, the steps that
have been taken have failed with the same fault and left the database as it was, and they have done so
as well when they are broken off before the last one; it is refused as too new just if its version
exceeds the latest one. When its migration succeeds, the steps lead to what it gives: a database of the
latest version with the same objects, after which there may be new ones, and with the same rows; and a
second migration gives that database again and does nothing.

A store can work on each database that has been opened, and on no other version of the schema. -/
theorem migration_atomic :
    (∀ db : Database,
      ((∃ found latest, db.migrate.1 = .error (.unsupportedVersion found latest)) ↔
        (Database.latestVersion : Int) < db.version) ∧
      (∀ cause, db.migrate.1 = .error cause →
        Database.Session.run ⟨db, none⟩ db.steps = (cause.stepFault?, db)) ∧
      (∀ n < db.steps.length, (Database.Session.run ⟨db, none⟩ (db.steps.take n)).2 = db) ∧
      ∀ after, db.migrate.1 = .ok after →
        Database.Session.run ⟨db, none⟩ db.steps = (none, after) ∧
          after.version = Database.latestVersion ∧ db.objects <+: after.objects ∧
          after.items = db.items ∧ after.migrate = (.ok after, [])) ∧
    (∀ files cwd path millis c, (Database.openFile files cwd path millis).result = .ok c →
      c.database.checkSchema = .ok ()) ∧
    (∀ millis db, (Database.openMemory millis).1 = .ok db → db.checkSchema = .ok ()) ∧
    ∀ (db : Database) (version : Nat), db.schemaVersion = .ok version →
      version ≠ Database.latestVersion →
        db.checkSchema = .error (.schemaNotReady version Database.latestVersion) := by
  refine ⟨fun db => ⟨db.unsupported_iff, ?_, fun n => db.run_take_steps, ?_⟩,
    fun files cwd path millis c => Database.checkSchema_of_openFile,
    fun millis db => Database.checkSchema_of_openMemory, ?_⟩
  · intro cause hcause
    rw [db.run_steps, hcause]
  · intro after hafter
    obtain ⟨hextends, hversion⟩ := Database.extends_migrate hafter
    refine ⟨?_, hversion, hextends.objects, hextends.items, Database.migrate_of_latest hversion⟩
    rw [db.run_steps, hafter]
  · intro db version hschema hne
    rw [Database.checkSchema, hschema]
    exact if_neg hne

/-- A database from elsewhere whose item table holds the same order twice. -/
def doubled : Database where
  version := 0
  objects := [⟨.view, "orders", ["id"]⟩, ⟨.table, Database.itemTable, Database.itemColumns⟩]
  items :=
    { rows :=
        [⟨"1", "order", none, "1", none, none, "null", .millis 0, .millis 0⟩,
          ⟨"2", "order", none, "1", none, none, "true", .millis 0, .millis 0⟩] }

/-- The migration of the order that is there twice fails after the table has been looked at, and nothing
has changed; after the migration of an empty database another one does nothing; and a store refuses a
database of the second version. -/
theorem migration_atomic_doubled :
    doubled.migrate.1 = .error (.migration 1 "definition_items" .notUnique) ∧
      Database.Session.run ⟨doubled, none⟩ doubled.steps = (some .notUnique, doubled) ∧
      (Database.Session.run ⟨doubled, none⟩ (doubled.steps.take 2)).2 = doubled ∧
      (∃ after, Database.empty.migrate.1 = .ok after ∧ after.migrate = (.ok after, [])) ∧
      { doubled with version := 2 }.checkSchema = .error (.schemaNotReady 2 1) := by
  obtain ⟨hall, -, -, hschema⟩ := migration_atomic
  obtain ⟨-, hfailed, hbroken, -⟩ := hall doubled
  obtain ⟨-, -, -, hdone⟩ := hall .empty
  have hcause : doubled.migrate.1 = .error (.migration 1 "definition_items" .notUnique) := by rfl
  obtain ⟨-, -, -, -, hagain⟩ := hdone _ rfl
  exact ⟨hcause, hfailed _ hcause, hbroken 2 (by decide), ⟨_, rfl, hagain⟩,
    hschema { doubled with version := 2 } 2 rfl (by decide)⟩

end Lineage
