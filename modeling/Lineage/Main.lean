/-
The command line program.

A run is a function of the files that it may look at. This module takes those files from the file
system, makes the run, and puts back what the run has changed. It decides nothing else.
-/

import Lineage.CommandLine.Run
import Lineage.Database.Archive
import Std.Time.DateTime.Timestamp

namespace Lineage.CommandLine

/-! ### Looking at the file system -/

/-- The absolute path of a place. -/
def absolutePath (place : Place) : String :=
  "/" ++ "/".intercalate place

/-- What stands at a place of the file system. Only a directory can be opened but not read. -/
def observeNode (place : Place) : IO (Option (Node Content)) := do
  try
    return some (.file (.ofBytes (← IO.FS.readBinFile (absolutePath place))))
  catch
    | .noFileOrDirectory .. => return none
    | .inappropriateType .. => return some .directory
    | e => throw e

/-- Adds what stands on the way along steps, up to the first place where nothing can stand. -/
def observeSteps (files : Files) (place : Place) : List String → IO Files
  | [] => return files
  | name :: rest => do
    if Path.maxName < name.utf8ByteSize then return files
    let place := if name = ".." then place.dropLast else place ++ [name]
    match ← observeNode place with
    | none => return files
    | some (.file content) => return files.put place (.file content)
    | some .directory => observeSteps (files.put place .directory) place rest

/-- Adds what stands on the way along a path, and on the way to the place that it names when each
two dots take back the step before them. -/
def observe (files : Files) (cwd : Place) (path : String) : IO Files := do
  match Path.check path with
  | .error _ => return files
  | .ok () =>
    let start := Disk.start cwd path
    let files ← observeSteps files start (Path.steps path)
    observeSteps files []
      ((Path.steps path).foldl (fun place name =>
        if name = ".." then place.dropLast else place ++ [name]) start)

/-- The path of the database of an invocation. -/
def Invocation.databasePath (i : Invocation) : String :=
  i.database.getD defaultDatabase

/-- The database file of an invocation, if there is one. -/
def Invocation.databaseFile? (i : Invocation) : Option FileAddress :=
  match Address.ofText i.databasePath with
  | .ok (.file f) => some f
  | _ => none

/-- The paths that a run of an invocation may look at, except for the log. -/
def Invocation.paths (i : Invocation) : List String :=
  let input :=
    match i.command with
    | .persist file _ => [file]
    | _ => []
  let named :=
    match i.databaseFile? with
    | some f => f.path :: f.template.toList
    | none => []
  i.config.toList ++ i.databasePath :: named ++ input

/-- Adds what stands beside the database of an invocation. -/
def observeBeside (files : Files) (cwd : Place) (i : Invocation) : IO Files :=
  match i.databaseFile?.map fun f => Database.findPlace files cwd f.path with
  | some (.ok place) =>
    [Companion.journal place, Companion.log place].foldlM (observeSteps · []) files
  | _ => return files

/-- The path of the log file that a configuration asks for. -/
def logPaths : Except ConfigError Config → List String
  | .ok config => (config.logging.map fun l => Text.trim l.logDir ++ "/" ++ Log.fileName).toList
  | .error _ => []

/-- The files that a run may look at. -/
def observeAll (cwd : Place) (i : Invocation) : IO Files := do
  let files ← observeSteps Disk.empty [] cwd
  let files ← i.paths.foldlM (observe · cwd) files
  let files ← observeBeside files cwd i
  (logPaths (loadConfig files cwd i.config)).foldlM (observe · cwd) files

/-! ### Changing the file system -/

/-- Makes the file system, which is as the first disk tells, as the second one tells. -/
def restore (before after : Files) : IO Unit := do
  before.entries.forM fun (place, _) => do
    if (after.node? place).isNone then IO.FS.removeFile (absolutePath place)
  after.entries.forM fun (place, node) =>
    match before.node? place, node with
    | some .directory, .directory => return
    | _, .directory => IO.FS.createDirAll (absolutePath place)
    | some (.file old), .file new => do
      unless old.toBytes == new.toBytes do IO.FS.writeBinFile (absolutePath place) new.toBytes
    | _, .file new => IO.FS.writeBinFile (absolutePath place) new.toBytes

/-- A fresh id and the time. -/
def freshStamp : IO Stamp := do
  let bytes ← IO.getRandomBytes 16
  let bits := bytes.toList.foldl (fun n b => 256 * n + b.toNat) 0
  let now ← Std.Time.Timestamp.now
  return ⟨Uuid.ofRandom (BitVec.ofNat 128 bits), Int64.ofInt now.toMillisecondsSinceUnixEpoch.val⟩

end Lineage.CommandLine

open Lineage Lineage.CommandLine

/-- Runs the program with its arguments. -/
def main (args : List String) : IO UInt32 := do
  let cwd := Path.steps (toString (← IO.currentDir))
  let files ←
    match request args with
    | .invoke i => observeAll cwd i
    | _ => pure Disk.empty
  let report := run ⟨files, cwd, ← freshStamp⟩ args
  restore files report.files
  (← IO.getStdout).putStr report.out
  (← IO.getStderr).putStr report.err
  return report.code.toUInt32
