/-
Opening databases.

A database is opened at a path, whose missing parent directories are made first. Whatever is opened
is migrated before it is used, and only a successful migration changes its file.
-/

import Lineage.Database.Connection

namespace Lineage

/-- What came of opening a database: the connection, the files after it, and the events. -/
structure Opening where
  result : Except DatabaseError Connection
  files : Files
  events : List Event

namespace Database

/-- Makes the directories on the way to a file. -/
def makeParents (files : Files) (cwd : Place) (path : String) :
    Except DatabaseError Unit × Files :=
  match Path.parent? path with
  | none => (.ok (), files)
  | some parent =>
    if parent = "" then (.ok (), files)
    else
      let (result, files) := files.makeDirectories cwd parent
      (result.mapError (.createDirectory parent), files)

/-- Opens a new database in memory. `millis` is how long that takes. -/
def openMemory (millis : Nat) : Except DatabaseError Database × List Event :=
  let (result, events) := Database.empty.migrate
  let ending : Event :=
    match result with
    | .ok _ => .opened .memory millis
    | .error cause => .openFailed .memory millis true cause
  (result, .openStarted .memory :: events ++ [ending])

/-- Opens the database at a path. `millis` is how long that takes. -/
def openFile (files : Files) (cwd : Place) (path : String) (millis : Nat) : Opening :=
  let failed (files : Files) (events : List Event) (ready : Bool) (cause : DatabaseError) :
      Opening :=
    ⟨.error cause, files, .openStarted .file :: events ++ [.openFailed .file millis ready cause]⟩
  match makeParents files cwd path with
  | (.error cause, files) => failed files [] false cause
  | (.ok (), files) =>
    match Handle.ofText files cwd path with
    | .error fault => failed files [] false (.engine fault)
    | .ok (handle, files) =>
      match handle.read files with
      | (.error fault, files) => failed files [] true (.engine fault)
      | (.ok c, files) =>
        match c.migrate with
        | (.error cause, events) => failed files events true cause
        | (.ok c, events) =>
          ⟨.ok { c with isChanged := false }, c.save files,
            .openStarted .file :: events ++ [.opened .file millis]⟩

end Database

end Lineage
