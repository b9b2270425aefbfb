/-
A small file system.

A disk maps absolute paths to directories and files; what a file holds is a parameter. A path in a
text is walked from the root, or from a working directory if it does not start with a slash: a
single dot stays, two dots go to the parent, and either can only be taken in a directory. Names and
paths have a greatest length in bytes. Each failure is one of the causes of `IoError`.
-/

import Lineage.Text.Split

namespace Lineage

/-- The cause of a failed file operation. -/
inductive IoError where
  | notFound
  | alreadyExists
  | notDirectory
  | isDirectory
  | nameTooLong
  /-- The path holds the character with code zero. -/
  | zeroInPath
  | notText
deriving DecidableEq, Repr

/-- The text of a failed file operation. -/
def IoError.message : IoError → String
  | .notFound => "No such file or directory (os error 2)"
  | .alreadyExists => "File exists (os error 17)"
  | .notDirectory => "Not a directory (os error 20)"
  | .isDirectory => "Is a directory (os error 21)"
  | .nameTooLong => "File name too long (os error 36)"
  | .zeroInPath => "file name contained an unexpected NUL byte"
  | .notText => "stream did not contain valid UTF-8"

/-- A place in the file system: the names on the way from the root. -/
abbrev Place := List String

/-! ### Paths in texts -/

namespace Path

/-- A path is absolute when it starts with a slash. -/
def isAbsolute (path : String) : Bool :=
  path.toList.head? = some '/'

/-- The greatest length of a name, in bytes. -/
def maxName : Nat := 255

/-- The greatest length of a path, in bytes. -/
def maxLength : Nat := 4095

/-- The pieces of a path that are not empty. -/
def pieces (path : String) : List String :=
  (Text.split '/' path.toList).map String.ofList |>.filter (· ≠ "")

/-- The steps of a path: its pieces without single dots. -/
def steps (path : String) : List String :=
  (pieces path).filter (· ≠ ".")

/-- Whether a path can be looked up at all. -/
def check (path : String) : Except IoError Unit :=
  if path.toList.any (·.toNat = 0) then .error .zeroInPath
  else if path = "" then .error .notFound
  else if maxLength < path.utf8ByteSize then .error .nameTooLong
  else .ok ()

/-- Whether two paths have the same steps from the same start. Two dots are a step like any
other. -/
def same (a b : String) : Bool :=
  isAbsolute a = isAbsolute b && steps a = steps b

/-- The pieces of a path without the empty ones and single dots at its end; the first piece always
stays. The pieces are given from the last one on. -/
def dropIdle : List String → List String
  | [] => []
  | [first] => [first]
  | piece :: before => if piece = "" ∨ piece = "." then dropIdle before else piece :: before

/-- The text of a path without its last step: empty for a single step, and none for the root and the
empty path. -/
def parent? (path : String) : Option String :=
  let pieces := (Text.split '/' path.toList).map String.ofList
  match dropIdle pieces.reverse with
  | [] => none
  | [first] => if first = "" then none else some ""
  | _ :: before =>
    match (dropIdle before).reverse with
    | [""] => some "/"
    | kept => some ("/".intercalate kept)

/-- The path and those above it that are not empty, `fuel` of them at most. -/
def ancestorsWithin (path : String) : Nat → List String
  | 0 => []
  | fuel + 1 =>
    if path = "" then []
    else
      match parent? path with
      | none => [path]
      | some parent => path :: ancestorsWithin parent fuel

/-- The path and those above it that are not empty. Each is shorter than the one before it. -/
def ancestors (path : String) : List String :=
  ancestorsWithin path (path.length + 1)

end Path

/-- What stands at a place. -/
inductive Node (α : Type) where
  | directory
  | file (content : α)

/-- A file system whose files hold values of type `α`. The root is a directory and is not listed. -/
structure Disk (α : Type) where
  entries : List (Place × Node α)

namespace Disk

variable {α : Type}

/-- The disk with nothing but the root. -/
def empty : Disk α := ⟨[]⟩

/-- What stands at a place. -/
def node? (disk : Disk α) (place : Place) : Option (Node α) :=
  if place.isEmpty then some .directory else disk.entries.lookup place

/-- Puts a node at a place. -/
def put (disk : Disk α) (place : Place) (node : Node α) : Disk α :=
  ⟨(disk.entries.filter fun entry => entry.1 ≠ place) ++ [(place, node)]⟩

/-- Takes away the file at a place, if one stands there. -/
def remove (disk : Disk α) (place : Place) : Disk α :=
  match disk.node? place with
  | some (.file _) => ⟨disk.entries.filter fun entry => entry.1 ≠ place⟩
  | _ => disk

/-- Goes one step on from a place. Only a directory can be left. -/
def step (disk : Disk α) (place : Place) (name : String) : Except IoError Place :=
  match disk.node? place with
  | none => .error .notFound
  | some (.file _) => .error .notDirectory
  | some .directory =>
    if name = "." then .ok place
    else if name = ".." then .ok place.dropLast
    else if Path.maxName < name.utf8ByteSize then .error .nameTooLong
    else .ok (place ++ [name])

/-- The place that steps lead to, whether or not something stands there. -/
def walk (disk : Disk α) (start : Place) (steps : List String) : Except IoError Place :=
  steps.foldlM (disk.step ·) start

/-- Where the walk along a path starts. -/
def start (cwd : Place) (path : String) : Place :=
  if Path.isAbsolute path then [] else cwd

/-- The place of a path in a text. A path that ends in a slash must be a directory if it exists. -/
def locate (disk : Disk α) (cwd : Place) (path : String) : Except IoError Place := do
  Path.check path
  let place ← disk.walk (start cwd path) (Path.pieces path)
  match path.toList.getLast?, disk.node? place with
  | some '/', some (.file _) => throw .notDirectory
  | _, _ => return place

/-- Whether something stands at a path. -/
def exists? (disk : Disk α) (cwd : Place) (path : String) : Bool :=
  match disk.locate cwd path with
  | .ok place => (disk.node? place).isSome
  | .error _ => false

/-- Whether a directory stands at a path. -/
def isDirectory (disk : Disk α) (cwd : Place) (path : String) : Bool :=
  match disk.locate cwd path with
  | .ok place =>
    match disk.node? place with
    | some .directory => true
    | _ => false
  | .error _ => false

/-- The content of the file at a path. -/
def read (disk : Disk α) (cwd : Place) (path : String) : Except IoError α := do
  let place ← disk.locate cwd path
  match disk.node? place with
  | none => throw .notFound
  | some .directory => throw .isDirectory
  | some (.file content) => return content

/-- Makes a directory in a directory that exists. -/
def makeDirectory (disk : Disk α) (cwd : Place) (path : String) : Except IoError (Disk α) := do
  Path.check path
  let place ← disk.walk (start cwd path) (Path.pieces path)
  match disk.node? place with
  | some _ => throw .alreadyExists
  | none => return disk.put place .directory

/-- Makes a directory unless it is there. -/
def ensureDirectory (disk : Disk α) (cwd : Place) (path : String) :
    Except IoError Unit × Disk α :=
  match disk.makeDirectory cwd path with
  | .ok made => (.ok (), made)
  | .error cause => (if disk.isDirectory cwd path then .ok () else .error cause, disk)

/-- Makes the first of some directories, each of which stands above the one before it, and those
above it that are missing. What is made before a failure stays. -/
def ensureDirectories (disk : Disk α) (cwd : Place) : List String → Except IoError Unit × Disk α
  | [] => (.ok (), disk)
  | path :: above =>
    match disk.makeDirectory cwd path with
    | .error .notFound =>
      match disk.ensureDirectories cwd above with
      | (.ok (), disk) => disk.ensureDirectory cwd path
      | failed => failed
    | _ => disk.ensureDirectory cwd path

/-- Makes the directory at a path and those on the way to it that are missing. What is made before a
failure stays. -/
def makeDirectories (disk : Disk α) (cwd : Place) (path : String) :
    Except IoError Unit × Disk α :=
  disk.ensureDirectories cwd (Path.ancestors path)

/-- The names of what stands in a directory. -/
def names (disk : Disk α) (place : Place) : List String :=
  disk.entries.filterMap fun entry =>
    if entry.1.dropLast = place ∧ ¬entry.1.isEmpty then entry.1.getLast? else none

end Disk

end Lineage
