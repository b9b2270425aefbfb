/-
Connections to databases.

What a path stands for is found first, and a file is made if none is there and the path allows it:
this gives a handle. Only reading it shows whether it holds a database, and gives a connection. A
connection may be unable to write; its file changes when a change is saved.
-/

import Lineage.Database.Address
import Lineage.Database.Companion

namespace Lineage

/-! ### Finding the file -/

namespace Database

/-- The greatest length of the absolute path of a database file, in bytes, and that of the paths on
the way to it. -/
def maxPath : Nat × Nat := (504, 511)

/-- The length of the absolute path of a place, in bytes. -/
def pathLength (place : Place) : Nat :=
  place.foldl (fun length name => length + 1 + name.utf8ByteSize) 0

/-- Goes on from a place by name alone: two dots take back a step, whatever stands there. A path
must not lead on from a file or get too long. -/
def follow (files : Files) (place : Place) (name : String) : Except EngineFault Place :=
  if name = "." then .ok place
  else if name = ".." then .ok place.dropLast
  else
    let next := place ++ [name]
    if maxPath.2 < pathLength next then .error .cannotOpen
    else
      match files.walk [] next with
      | .ok _ | .error .notFound => .ok next
      | .error _ => .error .cannotOpen

/-- The place of a database file. -/
def findPlace (files : Files) (cwd : Place) (path : String) : Except EngineFault Place := do
  let place ← (Disk.start cwd path ++ Path.pieces path).foldlM (follow files) []
  if maxPath.1 < pathLength place then throw .cannotOpen
  return place

end Database

/-! ### Handles -/

/-- What a path stands for, found but not looked into. -/
structure Handle where
  /-- Where the file stands, if there is one. -/
  place : Option Place
  mode : AccessMode
  immutable : Bool
  content : Content

namespace Handle

/-- Finds a file, or makes an empty one if the mode allows it. -/
def ofFile (files : Files) (cwd : Place) (f : FileAddress) :
    Except EngineFault (Handle × Files) := do
  let place ← Database.findPlace files cwd f.path
  if f.template.any fun path => !files.exists? cwd path then throw .inputOutput
  match files.node? place, files.node? place.dropLast with
  | some (.file content), _ => return (⟨some place, f.mode, f.immutable, content⟩, files)
  | none, some .directory =>
    if f.mode = .readWriteCreate then
      return (⟨some place, f.mode, f.immutable, .empty⟩, files.put place (.file .empty))
    else throw .cannotOpen
  | _, _ => throw .cannotOpen

/-- Finds what the path of a database stands for. -/
def ofText (files : Files) (cwd : Place) (path : String) :
    Except EngineFault (Handle × Files) := do
  match ← Address.ofText path with
  | .transient writable =>
    return (⟨none, if writable then .memory else .readOnly, false, .empty⟩, files)
  | .file f => ofFile files cwd f

/-- Why the database cannot be changed, if it cannot. -/
def writeFault? (h : Handle) (files : Files) : Option EngineFault :=
  if h.mode = .readOnly ∨ h.immutable then some .readOnly
  else if h.place.any (Companion.blocksJournal files) then some .cannotOpen
  else none

/-- Clears away what stands beside the file. An immutable file is taken as it is. -/
def clear (h : Handle) (files : Files) : Except EngineFault Unit × Files :=
  match h.place, h.immutable with
  | some place, false => Companion.clear files place h.content.hasPages (h.mode ≠ .readOnly)
  | _, _ => (.ok (), files)

end Handle

/-! ### Connections -/

/-- An open database. -/
structure Connection where
  /-- Where its file stands, if it has one. -/
  place : Option Place
  /-- Why it cannot be changed, if it cannot. -/
  writeFault? : Option EngineFault
  database : Database
  /-- Whether it is not what its file holds any more. -/
  isChanged : Bool

/-- Reads the database of a handle. -/
def Handle.read (h : Handle) (files : Files) : Except EngineFault Connection × Files :=
  match h.clear files with
  | (.error fault, files) => (.error fault, files)
  | (.ok (), files) =>
    (h.content.toDatabase.map fun db => ⟨h.place, h.writeFault? files, db, false⟩, files)

namespace Connection

/-- The store on a connection as a backend. A call that writes fails if the connection cannot
write. -/
def backend : Backend Connection := fun stamp r c =>
  match c.writeFault?, r.needsWrite with
  | some fault, true => (.error (.database (.engine fault)), c)
  | _, _ =>
    let (answer, db) := Database.backend stamp r c.database
    (answer, { c with database := db, isChanged := c.isChanged || r.changes answer })

/-- Writes a changed database into its file, if it has one. The journal of the write is gone after
it. -/
def save (c : Connection) (files : Files) : Files :=
  match c.place, c.isChanged with
  | some place, true =>
    (files.remove (Companion.journal place)).put place (.file (.database c.database))
  | _, _ => files

/-- Brings the database of a connection to the latest schema. The first migration fails if the
connection cannot write. -/
def migrate (c : Connection) : Except DatabaseError Connection × List Event :=
  match c.database.nextMigration? with
  | none =>
    let (result, events) := c.database.migrate
    (result.map fun _ => c, events)
  | some next =>
    match c.writeFault? with
    | some fault => (.error (.migration next.version next.name fault), [])
    | none =>
      let (result, events) := c.database.migrate
      (result.map fun db => { c with database := db, isChanged := true }, events)

end Connection

end Lineage
