/-
What files hold.

A file holds bytes or a database. A database has its file in pages: a file of at most one byte has
no page, and holds the empty database.
-/

import Lineage.Database

namespace Lineage

/-- What a file holds: bytes, or a database. -/
inductive Content where
  | bytes (bs : ByteArray)
  | database (db : Database)

/-- A file system with databases in it. -/
abbrev Files := Disk Content

namespace Content

/-- The content of an empty file. -/
def empty : Content := .bytes .empty

/-- Whether a file is empty. -/
def isEmpty : Content → Bool
  | .bytes bs => bs.isEmpty
  | .database _ => false

/-- Whether the first byte of a file is zero. -/
def startsWithZero : Content → Bool
  | .bytes bs => bs.data[0]? = some 0
  | .database _ => false

/-- Whether a file has pages of a database. -/
def hasPages : Content → Bool
  | .bytes bs => 1 < bs.size
  | .database _ => true

/-- The database that a file holds, if it holds one. -/
def toDatabase (content : Content) : Except EngineFault Database :=
  match content with
  | .database db => .ok db
  | .bytes _ => if content.hasPages then .error .notADatabase else .ok Database.empty

end Content

namespace Files

/-- The text of the file at a path. -/
def readText (files : Files) (cwd : Place) (path : String) : Except IoError String := do
  match ← files.read cwd path with
  | .bytes bs =>
    match String.fromUTF8? bs with
    | some s => return s
    | none => throw .notText
  | .database _ => throw .notText

/-- Writes a text into the file at a place. -/
def writeText (files : Files) (place : Place) (s : String) : Files :=
  files.put place (.file (.bytes s.toUTF8))

end Files

end Lineage
