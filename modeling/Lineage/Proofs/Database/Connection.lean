/-
A database that is closed and opened again is the one that it was.

What a file holds is said of what stands at its place alone (`Houses`), so whatever happens to the other
files, and to the place before a database is first written there, only has to spare it (`Spares`).
Opening the file finds the database that it holds unless the file system stands in the way (`reopened`).
A path may say that nothing is written through it (`refusal?`).
-/

import Lineage.Proofs.Database.Migration
import Lineage.Proofs.Disk
import Lineage.Proofs.Store.Permanence

namespace Lineage

/-! ### What stands at a place -/

/-- What stands at a place is as it was, or it has come where nothing was and has no pages. -/
def Files.Spares (place : Place) (before after : Files) : Prop :=
  after.node? place = before.node? place ∨
    before.node? place = none ∧
      ∀ content, after.node? place = some (.file content) → content.hasPages = false

theorem Disk.Grows.spares {before after : Files} (h : before.Grows after) (place : Place) :
    Files.Spares place before after := by
  rcases h place with hsame | ⟨hnone, hmade⟩
  · exact .inl hsame
  · refine .inr ⟨hnone, fun content hcontent => ?_⟩
    rw [hmade] at hcontent
    cases hcontent

/-- What is put where nothing was spares every place if it has no pages. -/
theorem Files.spares_put {files : Files} {other : Place} {node : Node Content}
    (hfree : files.node? other = none)
    (hblank : ∀ content, node = .file content → content.hasPages = false) (place : Place) :
    files.Spares place (files.put other node) := by
  by_cases hplace : place = other
  · subst hplace
    refine .inr ⟨hfree, fun content hcontent => hblank content ?_⟩
    rw [Disk.node?_put_self (Disk.ne_nil_of_node? hfree nofun)] at hcontent
    exact Option.some.inj hcontent
  · exact .inl (Disk.node?_put_of_ne hplace files node)

/-- Whether the name of the journal at a place is not too long. -/
def Companion.Fits (place : Place) : Prop :=
  (Companion.journal place).any (fun name => Path.maxName < name.utf8ByteSize) = false

/-- What stands at a place houses a database: its file holds it; or the database is the initial one, and
no file with pages stands there. -/
inductive Houses (place : Place) (db : Database) : Option (Node Content) → Prop where
  | stored (fits : Companion.Fits place) : Houses place db (some (.file (.database db)))
  | fresh {node : Option (Node Content)} (initial : db = .initial)
      (blank : ∀ content, node = some (.file content) → content.hasPages = false) :
      Houses place db node

theorem Files.Spares.houses {place : Place} {before after : Files} {db : Database}
    (h : Files.Spares place before after) (hhouses : Houses place db (before.node? place)) :
    Houses place db (after.node? place) := by
  rcases h with hsame | ⟨hnone, hblank⟩
  · rw [hsame]
    exact hhouses
  · rw [hnone] at hhouses
    cases hhouses with
    | fresh hinitial _ => exact .fresh hinitial hblank

/-! ### Beside a database -/

namespace Companion

variable {place other : Place} {files after : Files} {hasPages canWrite : Bool}

theorem beside_ne (hplace : place ≠ []) {ending : String} (hending : ending ≠ "") :
    place ≠ beside place ending := by
  intro heq
  have hlast := congrArg List.getLast? heq
  rw [beside, List.getLast?_concat, List.getLast?_eq_some_getLast hplace, Option.getD_some] at hlast
  have hlength := congrArg String.length (Option.some.inj hlast)
  rw [String.length_append] at hlength
  exact hending (String.length_eq_zero_iff.1 (by omega))

theorem journal_ne (hplace : place ≠ []) : journal place ≠ place :=
  (beside_ne hplace (by decide)).symm

theorem log_ne (hplace : place ≠ []) : log place ≠ place :=
  (beside_ne hplace (by decide)).symm

theorem clearJournal_files (files : Files) (place : Place) (hasPages canWrite : Bool) :
    (clearJournal files place hasPages canWrite).2 = files ∨
      (clearJournal files place hasPages canWrite).2 = files.remove (journal place) := by
  unfold clearJournal
  split
  · exact .inl rfl
  · exact .inl rfl
  · split
    · exact .inl rfl
    · split
      · exact .inr rfl
      · exact .inl rfl

theorem clearLog_files (files : Files) (place : Place) (hasPages canWrite : Bool) :
    (clearLog files place hasPages canWrite).2 = files ∨
      (clearLog files place hasPages canWrite).2 = files.remove (log place) := by
  unfold clearLog
  split
  · exact .inl rfl
  · exact .inl rfl
  · split
    · exact .inl rfl
    · exact .inr rfl

/-- What stands beside a database is cleared away and nothing else. -/
theorem clear_files (files : Files) (place : Place) (hasPages canWrite : Bool) :
    ∃ cleared, (cleared = files ∨ cleared = files.remove (journal place)) ∧
      ((clear files place hasPages canWrite).2 = cleared ∨
        (clear files place hasPages canWrite).2 = cleared.remove (log place)) := by
  have hjournal := clearJournal_files files place hasPages canWrite
  unfold clear
  split
  · next cleared heq =>
    rw [heq] at hjournal
    exact ⟨cleared, hjournal, clearLog_files cleared place hasPages canWrite⟩
  · exact ⟨_, hjournal, .inl rfl⟩

theorem node?_clear (hplace : place ≠ []) (files : Files) (hasPages canWrite : Bool) :
    (clear files place hasPages canWrite).2.node? place = files.node? place := by
  obtain ⟨cleared, hcleared, hafter⟩ := clear_files files place hasPages canWrite
  have hsame : cleared.node? place = files.node? place := by
    rcases hcleared with rfl | rfl
    · rfl
    · exact Disk.node?_remove_of_ne (journal_ne hplace).symm files
  rcases hafter with heq | heq
  · rw [heq, hsame]
  · rw [heq, Disk.node?_remove_of_ne (log_ne hplace).symm, hsame]

theorem node?_of_clear {node : Node Content}
    (h : (clear files place hasPages canWrite).2.node? other = some node) :
    files.node? other = some node := by
  obtain ⟨cleared, hcleared, hafter⟩ := clear_files files place hasPages canWrite
  have hbefore : cleared.node? other = some node := by
    rcases hafter with heq | heq
    · rwa [heq] at h
    · rw [heq] at h
      exact Disk.node?_of_remove h
  rcases hcleared with rfl | rfl
  · exact hbefore
  · exact Disk.node?_of_remove hbefore

/-- Where a database with pages could be cleared, nothing keeps a journal from being written. -/
theorem blocksJournal_of_clear (fits : Fits place)
    (h : clear files place true canWrite = (.ok (), after)) : blocksJournal after place = false := by
  unfold blocksJournal
  rw [fits, Bool.false_or]
  split
  · next hnode =>
    have hcleared : (clear files place true canWrite).2.node? (journal place) = some .directory := by
      rw [h]
      exact hnode
    have hbefore := node?_of_clear hcleared
    simp only [clear, clearJournal, hbefore, if_true] at h
    cases h
  · rfl

theorem blocksJournal_of_free (fits : Fits place) (hjournal : files.node? (journal place) = none) :
    blocksJournal files place = false := by
  rw [blocksJournal, hjournal, fits]
  rfl

theorem clear_of_free (hjournal : files.node? (journal place) = none)
    (hlog : files.node? (log place) = none) :
    clear files place hasPages canWrite = (.ok (), files) := by
  simp only [clear, clearJournal, hjournal, clearLog, hlog]

theorem fits_of_not_blocksJournal (h : blocksJournal files place = false) : Fits place :=
  (Bool.or_eq_false_iff.1 h).1

end Companion

/-! ### Opening -/

namespace Database

/-- The path of a database stands for a file, and whenever the file is found, it is found at a place. -/
def LeadsTo (files : Files) (cwd : Place) (path : String) (place : Place) : Prop :=
  ∃ f, Address.ofText path = .ok (.file f) ∧
    ∀ found, findPlace (makeParents files cwd path).2 cwd f.path = .ok found → found = place

/-- Why nothing may be written through the path of a database, if the path says that its file is only
read. -/
def refusal? (path : String) : Option EngineFault :=
  match Address.ofText path with
  | .ok (.file f) => if f.mode = .readOnly ∨ f.immutable then some .readOnly else none
  | _ => none

/-- The store of a database through which nothing may be written if there is a refusal. -/
def through (refusal : Option EngineFault) : Backend Database := fun stamp r db =>
  match refusal, r.needsWrite with
  | some fault, true => (.error (.database (.engine fault)), db)
  | _, _ => backend stamp r db

/-- Why no database can be made in a file, if there is none yet and none can be made. -/
def creationFault? (handle : Handle) (files : Files) : Option EngineFault :=
  if handle.content.hasPages then none else handle.writeFault? files

/-- Why the file of a database cannot be used, if it cannot, whatever database it holds: directories on
the way to it cannot be made, it cannot be found, what stands beside it is in the way, or there is none
yet and none can be made. -/
def barrier? (files : Files) (cwd : Place) (path : String) : Option DatabaseError :=
  match makeParents files cwd path with
  | (.error cause, _) => some cause
  | (.ok (), files) =>
    match Handle.ofText files cwd path with
    | .error fault => some (.engine fault)
    | .ok (handle, files) =>
      match handle.clear files with
      | (.error fault, _) => some (.engine fault)
      | (.ok (), files) => (creationFault? handle files).map (.migration 1 "definition_items")

variable {files made found : Files} {cwd place : Place} {path : String} {db : Database}

theorem spares_makeParents (files : Files) (cwd : Place) (path : String) (place : Place) :
    files.Spares place (makeParents files cwd path).2 := by
  unfold makeParents
  split
  · exact .inl rfl
  · next parent _ =>
    split
    · exact .inl rfl
    · exact (files.grows_makeDirectories cwd parent).spares place

/-- A handle of a file that houses a database, found at its place and opened as its path says. -/
structure Found (place : Place) (db : Database) (path : String) (handle : Handle) (found : Files) :
    Prop where
  place_eq : handle.place = some place
  refusal?_eq : refusal? path =
    if handle.mode = .readOnly ∨ handle.immutable then some .readOnly else none
  node : found.node? place = some (.file handle.content)
  houses : Houses place db (some (.file handle.content))

/-- A file that is found is found at its place, and one that is made is empty. -/
theorem found_of_leadsTo (hpath : LeadsTo files cwd path place)
    (hhouses : Houses place db (files.node? place))
    (hparents : makeParents files cwd path = (.ok (), made))
    {handle : Handle} (hhandle : Handle.ofText made cwd path = .ok (handle, found)) :
    Found place db path handle found := by
  obtain ⟨f, haddress, hplace⟩ := hpath
  have hmade := (spares_makeParents files cwd path place).houses hhouses
  have hrefusal : refusal? path =
      if f.mode = .readOnly ∨ f.immutable then some .readOnly else none := by
    rw [refusal?, haddress]
  rw [hparents] at hmade hplace
  rw [Handle.ofText, haddress] at hhandle
  change Handle.ofFile made cwd f = .ok (handle, found) at hhandle
  unfold Handle.ofFile at hhandle
  cases hfound : findPlace made cwd f.path with
  | error fault =>
    rw [hfound] at hhandle
    cases hhandle
  | ok p =>
    obtain rfl := hplace p hfound
    rw [hfound] at hhandle
    dsimp only [bind, Except.bind] at hhandle
    split at hhandle
    · cases hhandle
    · split at hhandle
      · next content _ hfile =>
        cases hhandle
        exact ⟨rfl, hrefusal, hfile, hfile ▸ hmade⟩
      · next hnone _ =>
        split at hhandle
        · cases hhandle
          have hput := Disk.node?_put_self (Disk.ne_nil_of_node? hnone nofun) made (.file .empty)
          have hblank : ∀ content, Node.file Content.empty = .file content →
              content.hasPages = false := by
            rintro content ⟨⟩
            rfl
          have hhoused := (Files.spares_put hnone hblank p).houses hmade
          exact ⟨rfl, hrefusal, hput, hput ▸ hhoused⟩
        · cases hhandle
      · cases hhandle

/-- How a file is opened in which a database is housed: the file system stands in the way, or the
database is found. -/
inductive Reopened (place : Place) (db : Database) (refusal : Option EngineFault) :
    Option DatabaseError → Except DatabaseError Connection → Files → Prop where
  | barred {cause : DatabaseError} {after : Files} (houses : Houses place db (after.node? place)) :
      Reopened place db refusal (some cause) (.error cause) after
  | opened {after : Files} (fits : Companion.Fits place)
      (node : after.node? place = some (.file (.database db))) :
      Reopened place db refusal none (.ok ⟨some place, refusal, db, false⟩) after

/-- What the file of a database holds is read as that database. -/
theorem toDatabase_of_houses {content : Content} (h : Houses place db (some (.file content))) :
    content = .database db ∧ Companion.Fits place ∨
      db = .initial ∧ content.hasPages = false ∧ content.toDatabase = .ok .empty := by
  cases h with
  | stored hfits => exact .inl ⟨rfl, hfits⟩
  | fresh hinitial hblank =>
    have hpages := hblank content rfl
    refine .inr ⟨hinitial, hpages, ?_⟩
    cases content with
    | bytes bs => simp [Content.toDatabase, hpages]
    | database other => cases hpages

theorem nextMigration?_of_latest (h : db.version = latestVersion) : db.nextMigration? = none := by
  rw [nextMigration?, schemaVersion_of_eq h]
  rfl

theorem migrate_connection {c : Connection} (h : c.database.version = latestVersion) :
    c.migrate.1 = .ok c := by
  rw [Connection.migrate, nextMigration?_of_latest h]
  dsimp only
  rw [migrate_of_latest h]
  rfl

theorem node?_save (hplace : place ≠ []) (c : Connection) (files : Files)
    (hc : c.place = some place) (hchanged : c.isChanged = true) :
    (c.save files).node? place = some (.file (.database c.database)) := by
  rw [Connection.save, hc, hchanged]
  exact Disk.node?_put_self hplace _ _

/-- A database that has changed is written into its file, and one that has not is there already. -/
theorem houses_save (hfits : Companion.Fits place)
    (hnode : files.node? place = some (.file (.database db))) {after : Database} {changed : Bool}
    (hsame : changed = false → after = db) (refusal : Option EngineFault) :
    Houses place after
      ((Connection.save ⟨some place, refusal, after, changed⟩ files).node? place) := by
  cases changed with
  | false =>
    rw [hsame rfl, Connection.save, hnode]
    exact .stored hfits
  | true =>
    rw [node?_save (Disk.ne_nil_of_node? hnode nofun) _ files rfl rfl]
    exact .stored hfits

theorem read_error {handle : Handle} {fault : EngineFault} {cleared : Files}
    (h : handle.read found = (.error fault, cleared)) :
    handle.clear found = (.error fault, cleared) ∨
      handle.clear found = (.ok (), cleared) ∧ handle.content.toDatabase = .error fault := by
  unfold Handle.read at h
  split at h
  · next hclear =>
    cases h
    exact .inl hclear
  · next hclear =>
    cases hcontent : handle.content.toDatabase with
    | ok db =>
      rw [hcontent] at h
      cases h
    | error fault' =>
      rw [hcontent] at h
      cases h
      exact .inr ⟨hclear, rfl⟩

theorem read_ok {handle : Handle} {c : Connection} {cleared : Files}
    (h : handle.read found = (.ok c, cleared)) :
    handle.clear found = (.ok (), cleared) ∧ ∃ db, handle.content.toDatabase = .ok db ∧
      c = ⟨handle.place, handle.writeFault? cleared, db, false⟩ := by
  unfold Handle.read at h
  split at h
  · cases h
  · next hclear =>
    cases hcontent : handle.content.toDatabase with
    | ok db =>
      rw [hcontent] at h
      cases h
      exact ⟨hclear, db, rfl, rfl⟩
    | error fault =>
      rw [hcontent] at h
      cases h

namespace Found

variable {handle : Handle} {cleared : Files} {c : Connection}

theorem place_ne (h : Found place db path handle found) : place ≠ [] :=
  Disk.ne_nil_of_node? h.node nofun

theorem node?_cleared (h : Found place db path handle found) :
    (handle.clear found).2.node? place = some (.file handle.content) := by
  rw [Handle.clear, h.place_eq]
  cases handle.immutable with
  | true => exact h.node
  | false => exact (Companion.node?_clear h.place_ne found _ _).trans h.node

/-- What a path does not refuse to write can be written unless no journal can be. -/
theorem writeFault?_eq (h : Found place db path handle found) (files : Files) :
    handle.writeFault? files =
      (refusal? path).or (if Companion.blocksJournal files place then some .cannotOpen else none) := by
  rw [Handle.writeFault?, h.place_eq, h.refusal?_eq]
  by_cases hread : handle.mode = .readOnly ∨ handle.immutable
  · rw [if_pos hread, if_pos hread, Option.some_or]
  · rw [if_neg hread, if_neg hread, Option.none_or, Option.any_some]

/-- Where there are pages that could be cleared, only the path can refuse to write. -/
theorem writeFault?_of_clear (h : Found place db path handle found) (fits : Companion.Fits place)
    (hpages : handle.content.hasPages = true) (hclear : handle.clear found = (.ok (), cleared)) :
    handle.writeFault? cleared = refusal? path := by
  by_cases hread : handle.mode = .readOnly ∨ handle.immutable
  · rw [h.writeFault?_eq, h.refusal?_eq, if_pos hread, Option.some_or]
  · obtain ⟨hmode, himmutable⟩ := not_or.1 hread
    rw [Handle.clear, h.place_eq, Bool.eq_false_iff.2 himmutable, hpages] at hclear
    rw [h.writeFault?_eq, Companion.blocksJournal_of_clear fits hclear, if_neg Bool.false_ne_true,
      Option.or_none]

/-- A handle that has been read leads to the database, or there is none yet and none can be made. -/
theorem migrate (h : Found place db path handle found) (hversion : db.version = latestVersion)
    (hread : handle.read found = (.ok c, cleared)) :
    (∃ fault, creationFault? handle cleared = some fault ∧
        c.migrate.1 = .error (.migration 1 "definition_items" fault)) ∨
      creationFault? handle cleared = none ∧ Companion.Fits place ∧
        ∃ changed, c.migrate.1 = .ok ⟨some place, refusal? path, db, changed⟩ ∧
          (Connection.save ⟨some place, refusal? path, db, changed⟩ cleared).node? place =
            some (.file (.database db)) := by
  obtain ⟨hclear, read, hcontent, rfl⟩ := read_ok hread
  have hnode := h.node?_cleared
  rw [hclear] at hnode
  rw [h.place_eq]
  rcases toDatabase_of_houses h.houses with ⟨hdb, hfits⟩ | ⟨hinitial, hpages, hempty⟩
  · -- There is a database already.
    have hpages : handle.content.hasPages = true := hdb ▸ rfl
    rw [hdb] at hcontent hnode
    obtain rfl := Except.ok.inj hcontent
    rw [h.writeFault?_of_clear hfits hpages hclear, creationFault?, if_pos hpages]
    exact .inr ⟨rfl, hfits, false, migrate_connection hversion, hnode⟩
  · -- The file is as good as new.
    obtain rfl := Except.ok.inj (hempty.symm.trans hcontent)
    have hcreation : creationFault? handle cleared = handle.writeFault? cleared :=
      if_neg (Bool.eq_false_iff.1 hpages)
    rw [hcreation]
    cases hfault : handle.writeFault? cleared with
    | some fault => exact .inl ⟨fault, rfl, rfl⟩
    | none =>
      rw [h.writeFault?_eq] at hfault
      obtain ⟨hrefusal, hblocks⟩ := Option.or_eq_none_iff.1 hfault
      have hfits : Companion.Fits place := by
        cases hjournal : Companion.blocksJournal cleared place with
        | true =>
          rw [hjournal] at hblocks
          cases hblocks
        | false => exact Companion.fits_of_not_blocksJournal hjournal
      subst hinitial
      rw [hrefusal]
      exact .inr ⟨rfl, hfits, true, rfl, node?_save h.place_ne _ cleared rfl rfl⟩

end Found

/-- A path of a database on which the directories are there or can be made, which names a file or a free
place in a directory, and beside whose place nothing stands. -/
structure Usable (files made : Files) (cwd : Place) (path : String) (place : Place) : Prop where
  parents : makeParents files cwd path = (.ok (), made)
  address : ∃ p, Address.ofText path = .ok (.file ⟨p, .readWriteCreate, false, none⟩) ∧
    findPlace made cwd p = .ok place
  directory : made.node? place.dropLast = some .directory
  node : made.node? place ≠ some .directory
  fits : Companion.Fits place
  journal : made.node? (Companion.journal place) = none
  log : made.node? (Companion.log place) = none

/-- Nothing stands in the way of a path that can be used. -/
theorem Usable.barrier?_eq_none (h : Usable files made cwd path place) :
    barrier? files cwd path = none := by
  have hne := Disk.ne_nil_of_node? rfl h.node
  obtain ⟨p, haddress, hplace⟩ := h.address
  have hhandle : ∃ content found,
      Handle.ofText made cwd path = .ok (⟨some place, .readWriteCreate, false, content⟩, found) ∧
        found.node? (Companion.journal place) = none ∧ found.node? (Companion.log place) = none := by
    have hfile : Handle.ofText made cwd path =
        Handle.ofFile made cwd ⟨p, .readWriteCreate, false, none⟩ := by
      rw [Handle.ofText, haddress]
      rfl
    rw [hfile, Handle.ofFile, hplace]
    cases hnode : made.node? place with
    | none =>
      refine ⟨.empty, made.put place (.file .empty), ?_, ?_, ?_⟩
      · simp [bind, Except.bind, hnode, h.directory, pure, Except.pure]
      · rw [Disk.node?_put_of_ne (Companion.journal_ne hne)]
        exact h.journal
      · rw [Disk.node?_put_of_ne (Companion.log_ne hne)]
        exact h.log
    | some node =>
      cases node with
      | directory => exact absurd hnode h.node
      | file content =>
        refine ⟨content, made, ?_, h.journal, h.log⟩
        simp [bind, Except.bind, hnode, pure, Except.pure]
  obtain ⟨content, found, hhandle, hjournal, hlog⟩ := hhandle
  have hclear : Handle.clear ⟨some place, .readWriteCreate, false, content⟩ found = (.ok (), found) :=
    Companion.clear_of_free hjournal hlog
  have hblocks := Companion.blocksJournal_of_free h.fits hjournal
  simp only [barrier?, h.parents, hhandle, hclear]
  simp [creationFault?, Handle.writeFault?, hblocks]

/-- A path that can be used does not refuse to write. -/
theorem Usable.refusal?_eq_none (h : Usable files made cwd path place) : refusal? path = none := by
  obtain ⟨p, haddress, -⟩ := h.address
  rw [refusal?, haddress]
  rfl

/-- Opening a file that houses a database finds that database, however often it has been migrated. -/
theorem reopened (hversion : db.version = latestVersion) (hhouses : Houses place db (files.node? place))
    (hpath : LeadsTo files cwd path place) (millis : Nat) :
    Reopened place db (refusal? path) (barrier? files cwd path) (openFile files cwd path millis).result
      (openFile files cwd path millis).files := by
  have hmade := (spares_makeParents files cwd path place).houses hhouses
  have hcourse := openingCourse files cwd path millis
  generalize (openFile files cwd path millis).result = result at hcourse ⊢
  generalize (openFile files cwd path millis).files = after at hcourse ⊢
  cases hcourse with
  | noParents parents =>
    simp only [barrier?, parents]
    rw [parents] at hmade
    exact .barred hmade
  | notFound parents hhandle =>
    simp only [barrier?, parents, hhandle]
    rw [parents] at hmade
    exact .barred hmade
  | notRead parents hhandle hread =>
    have h := found_of_leadsTo hpath hhouses parents hhandle
    have hnode := h.node?_cleared
    rcases read_error hread with hclear | ⟨-, hcontent⟩
    · simp only [barrier?, parents, hhandle, hclear]
      rw [hclear] at hnode
      exact .barred (hnode ▸ h.houses)
    · rcases toDatabase_of_houses h.houses with ⟨hdb, -⟩ | ⟨-, -, hempty⟩
      · rw [hdb] at hcontent
        cases hcontent
      · rw [hempty] at hcontent
        cases hcontent
  | notMigrated parents hhandle hread migration =>
    have h := found_of_leadsTo hpath hhouses parents hhandle
    have hnode := h.node?_cleared
    obtain ⟨hclear, -⟩ := read_ok hread
    rw [hclear] at hnode
    rcases h.migrate hversion hread with ⟨fault, hfault, hfailed⟩ | ⟨-, -, changed, hdone, -⟩
    · obtain rfl := Except.error.inj (migration.symm.trans hfailed)
      simp only [barrier?, parents, hhandle, hclear, hfault, Option.map_some]
      exact .barred (hnode ▸ h.houses)
    · rw [hdone] at migration
      cases migration
  | opened parents hhandle hread migration =>
    have h := found_of_leadsTo hpath hhouses parents hhandle
    obtain ⟨hclear, -⟩ := read_ok hread
    rcases h.migrate hversion hread with ⟨fault, -, hfailed⟩ | ⟨hfault, hfits, changed, hdone, hsaved⟩
    · rw [hfailed] at migration
      cases migration
    · obtain rfl := Except.ok.inj (migration.symm.trans hdone)
      simp only [barrier?, parents, hhandle, hclear, hfault, Option.map_none]
      exact .opened hfits hsaved

/-! ### Requests -/

variable {stamp : Stamp} {r : Request}

theorem Reachable.version_eq (h : db.Reachable) : db.version = latestVersion := by
  induction h with
  | migrated hmigrate => exact (extends_migrate hmigrate).2
  | step stamp r _ ih =>
    rcases backend_cases stamp r _ with ⟨cause, heq⟩ | heq
    · rw [heq]
      exact ih
    · rw [heq]
      exact ih

/-- Deleting no rows leaves a table as it was. -/
theorem deleteAll_of_zero {t : Table} {filter : Filter} (h : (t.deleteAll filter).1 = 0) :
    (t.deleteAll filter).2 = t := by
  have hlength := List.length_filter_le (fun row => !filter.condition.selects row.column) t.rows
  have hequal := Nat.le_antisymm hlength (Nat.sub_eq_zero_iff_le.1 h)
  have hkept := List.length_filter_eq_length_iff.1 hequal
  rw [Table.deleteAll, List.filter_eq_self.2 hkept]

/-- A request that does not count as a change leaves a database as it was. -/
theorem Reachable.backend_of_unchanging (hdb : db.Reachable) (hr : r.Readable)
    (h : r.changes (backend stamp r db).1 = false) : (backend stamp r db).2 = db := by
  cases hanswer : (backend stamp r db).1 with
  | error cause => exact hdb.backend_of_error hr hanswer
  | ok value =>
    rcases backend_cases stamp r db with ⟨cause, heq⟩ | heq
    · rw [heq]
    · rw [heq] at hanswer h ⊢
      cases r with
      | hasItem | hasItems | getItem | getItems => rfl
      | addItem | updateItem | deleteItem =>
        dsimp only at hanswer h
        rw [hanswer] at h
        cases h
      | deleteItems filter =>
        have hzero : (db.items.deleteAll filter).1 = 0 := by
          simpa [Request.changes, Table.backend] using h
        change { db with items := (db.items.deleteAll filter).2 } = db
        rw [deleteAll_of_zero hzero]

end Database

end Lineage
