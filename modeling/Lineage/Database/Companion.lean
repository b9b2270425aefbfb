/-
The files beside a database.

While a database is written to, a journal stands beside its file, and a database may have a log of
writes beside it. Both are named after the file. What is left there from elsewhere holds nothing of
the database: it is cleared away when the database is first looked at, as far as the database may be
changed. A directory in the place of a journal or a log cannot be cleared away.
-/

import Lineage.Database.Content

namespace Lineage.Companion

/-- The end of the name of a journal. -/
def journalEnding : String := "-journal"

/-- The end of the name of a log of writes. -/
def logEnding : String := "-wal"

/-- The place beside a file whose name has a further ending. -/
def beside (place : Place) (ending : String) : Place :=
  place.dropLast ++ [place.getLast?.getD "" ++ ending]

/-- The place of the journal of a database. -/
def journal (place : Place) : Place := beside place journalEnding

/-- The place of the log of writes of a database. -/
def log (place : Place) : Place := beside place logEnding

/-- Whether no journal can be written at its place: its name is too long, or a directory stands
there. -/
def blocksJournal (files : Files) (place : Place) : Bool :=
  (journal place).any (fun name => Path.maxName < name.utf8ByteSize) ||
    match files.node? (journal place) with
    | some .directory => true
    | _ => false

/-- Clears away the journal of a database with or without pages. A journal that starts with a zero
byte or is empty is a finished one and stays until the next write. -/
def clearJournal (files : Files) (place : Place) (hasPages canWrite : Bool) :
    Except EngineFault Unit × Files :=
  match files.node? (journal place) with
  | none => (.ok (), files)
  | some .directory => (if hasPages then .error .inputOutput else .ok (), files)
  | some (.file content) =>
    if content.isEmpty || (hasPages && content.startsWithZero) then (.ok (), files)
    else if canWrite then (.ok (), files.remove (journal place))
    else (if hasPages then .error .readOnly else .ok (), files)

/-- Clears away the log of writes of a database with or without pages. One that is empty stays, and
so does that of pages that may not be changed. -/
def clearLog (files : Files) (place : Place) (hasPages canWrite : Bool) :
    Except EngineFault Unit × Files :=
  match files.node? (log place) with
  | none => (.ok (), files)
  | some .directory => (.error (if hasPages then .cannotOpen else .inputOutput), files)
  | some (.file content) =>
    if content.isEmpty || (hasPages && !canWrite) then (.ok (), files)
    else (.ok (), files.remove (log place))

/-- Clears away what stands beside a database. -/
def clear (files : Files) (place : Place) (hasPages canWrite : Bool) :
    Except EngineFault Unit × Files :=
  match clearJournal files place hasPages canWrite with
  | (.ok (), files) => clearLog files place hasPages canWrite
  | failed => failed

end Lineage.Companion
