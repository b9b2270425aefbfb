/-
What the path of a database stands for.

A path stands for a file, except that `:memory:` stands for a database that is gone once it is
closed. A path that starts with `file:` is a URI: an authority that must be this machine, the path
of the file, and after a question mark parameters. A percent sign and two hexadecimal digits in it
are a byte, and a number sign ends it. The parameter `mode` says what may be done with the file and
can only take rights away; `modeof` names a file that must be there. A URI without a path stands for
a database that is gone once it is closed, too.
-/

import Lineage.Store.Error
import Lineage.Text.Numeral
import Lineage.Text.Utf8

namespace Lineage

/-- What may be done with the file of a database. -/
inductive AccessMode where
  | readOnly
  | readWrite
  | readWriteCreate
  /-- There is no file. -/
  | memory
deriving DecidableEq, Repr

/-- The file that a path stands for, and how it is opened. -/
structure FileAddress where
  path : String
  mode : AccessMode
  /-- Whether nobody changes the file. It is read only then, whatever the mode. -/
  immutable : Bool := false
  /-- The file whose permissions a new file gets. It must be there. -/
  template : Option String := none
deriving DecidableEq, Repr

/-- What a path stands for. -/
inductive Address where
  /-- A database that is gone once it is closed. -/
  | transient (writable : Bool)
  | file (address : FileAddress)
deriving DecidableEq, Repr

namespace AccessMode

/-- The modes by the names that a URI gives them. -/
def names : List (String × AccessMode) :=
  [("ro", .readOnly), ("rw", .readWrite), ("rwc", .readWriteCreate), ("memory", .memory)]

/-- How many rights a mode has. -/
def rank : AccessMode → Nat
  | .readOnly => 0
  | .readWrite => 1
  | .readWriteCreate => 2
  | .memory => 3

/-- Whether a mode may take the place of the one before it. -/
def mayFollow (wanted before : AccessMode) : Bool :=
  wanted = .memory || wanted.rank ≤ before.rank

end AccessMode

namespace Address

/-- The path of a database in memory. -/
def memoryPath : String := ":memory:"

/-! ### URIs -/

/-- What a URI starts with. -/
def scheme : List Char := ['f', 'i', 'l', 'e', ':']

/-- The bytes that a part of a URI stands for. The byte zero ends the part. -/
def decodeBytes : List Char → List UInt8
  | [] => []
  | '%' :: a :: b :: cs =>
    match Text.hexNumber? [a, b] with
    | some 0 => []
    | some n => UInt8.ofNat n :: decodeBytes cs
    | none => String.utf8EncodeChar '%' ++ decodeBytes (a :: b :: cs)
  | c :: cs => String.utf8EncodeChar c ++ decodeBytes cs

/-- The text that a part of a URI stands for. -/
def decode (cs : List Char) : String :=
  String.ofList (Text.decodeLossy (decodeBytes cs))

/-- A URI without its scheme and authority. -/
def withoutAuthority (cs : List Char) : Except EngineFault (List Char) :=
  match cs with
  | '/' :: '/' :: cs =>
    let authority := String.ofList (cs.takeWhile (· ≠ '/'))
    if authority = "" ∨ authority = "localhost" then .ok (cs.dropWhile (· ≠ '/'))
    else .error (.foreignAuthority authority)
  | cs => .ok cs

/-- The parameters in the part after the question mark. Those without a name are left out. -/
def parameters (query : List Char) : List (String × String) :=
  (Text.split '&' query).filterMap fun part =>
    let (name, value) := Text.cut '=' part
    if decode name = "" then none else some (decode name, decode (value.getD []))

/-- Whether the value of a parameter means yes: a word for it, or a number whose lowest byte is not
zero. -/
def isAffirmative (value : String) : Bool :=
  match value.toList.takeWhile Char.isDigit with
  | [] => ["on", "yes", "true"].contains (String.ofList (value.toList.map Char.toLower))
  | ds => Text.value ds ≤ 2147483647 && Text.value ds % 256 ≠ 0

/-- The mode after a parameter. -/
def applyParameter (mode : AccessMode) : String × String → Except EngineFault AccessMode
  | ("mode", value) =>
    match AccessMode.names.lookup value with
    | none => .error (.noSuchMode "access" value)
    | some wanted =>
      if wanted.mayFollow mode then .ok wanted else .error (.modeNotAllowed "access" value)
  | ("cache", value) =>
    if value = "shared" ∨ value = "private" then .ok mode else .error (.noSuchMode "cache" value)
  | _ => .ok mode

/-- The file systems that a URI may name, and whether they keep their files in memory. -/
def fileSystems : List (String × Bool) :=
  [("unix", false), ("unix-none", false), ("unix-dotfile", false), ("unix-excl", false),
    ("memdb", true)]

/-- Whether the file system that a URI names last keeps its files in memory. -/
def inMemory (given : List (String × String)) : Except EngineFault Bool :=
  match given.reverse.lookup "vfs" with
  | none => .ok false
  | some name =>
    match fileSystems.lookup name with
    | some inMemory => .ok inMemory
    | none => .error (.noSuchFileSystem name)

/-- What the path of a file stands for. -/
def ofFile (f : FileAddress) : Address :=
  if f.path = "" ∨ f.path = memoryPath ∨ f.mode = .memory then .transient (f.mode ≠ .readOnly)
  else .file f

/-- What a URI without its scheme stands for. -/
def ofUri (cs : List Char) : Except EngineFault Address := do
  let cs ← withoutAuthority cs
  let (path, query) := Text.cut '?' (cs.takeWhile (· ≠ '#'))
  let given := parameters (query.getD [])
  let mode ← given.foldlM applyParameter .readWriteCreate
  if ← inMemory given then return .transient (mode ≠ .readOnly)
  return ofFile {
    path := decode path
    mode := mode
    immutable := (given.lookup "immutable").any isAffirmative
    template := given.lookup "modeof" }

/-- What the path of a database stands for. -/
def ofText (s : String) : Except EngineFault Address :=
  if s.toList.any (·.toNat = 0) then .error .cannotOpen
  else if scheme.isPrefixOf s.toList then ofUri (s.toList.drop scheme.length)
  else .ok (ofFile ⟨s, .readWriteCreate, false, none⟩)

end Address

end Lineage
