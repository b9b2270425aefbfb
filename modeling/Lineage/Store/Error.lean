/-
The causes of store failures and their texts.

`DatabaseError` is about the database that holds a store, `StoreError` about the store itself.
-/

import Lineage.Definition
import Lineage.Disk
import Lineage.Json.Decoder

namespace Lineage

/-- A fault of the database engine. -/
inductive EngineFault where
  /-- The file cannot be opened, or a file beside it that a write needs. -/
  | cannotOpen
  /-- The authority of a URI is not this machine. -/
  | foreignAuthority (name : String)
  /-- A parameter of a URI has a value that it cannot have. -/
  | noSuchMode (parameter value : String)
  /-- A parameter of a URI asks for more than what is allowed so far. -/
  | modeNotAllowed (parameter value : String)
  | noSuchFileSystem (name : String)
  /-- The database was opened for reading only. -/
  | readOnly
  /-- A file that is named or stands beside the database cannot be used. -/
  | inputOutput
  /-- The file holds no database. -/
  | notADatabase
  /-- The schema version is negative. -/
  | versionOutOfRange (version : Int)
  /-- An object that a statement names is not there, or is not what the statement needs. -/
  | noSuchTable (name : String)
  | noSuchColumn (name : String)
  | notIndexable (name : String)
  | nameTaken (name : String)
  /-- Rows of a new unique index agree. -/
  | notUnique
  /-- A write is refused by a rule of the table. -/
  | writeRefused
  /-- The condition of a statement nests too deep. -/
  | tooDeep (maximum : Nat)
  /-- A column holds a value of the wrong type. -/
  | columnType (name : String)
deriving DecidableEq, Repr

/-- The text of a fault of the database engine. -/
def EngineFault.message : EngineFault → String
  | .cannotOpen => "unable to open database file"
  | .foreignAuthority name => s!"invalid uri authority: {name}"
  | .noSuchMode parameter value => s!"no such {parameter} mode: {value}"
  | .modeNotAllowed parameter value => s!"{parameter} mode not allowed: {value}"
  | .noSuchFileSystem name => s!"no such vfs: {name}"
  | .readOnly => "attempt to write a readonly database"
  | .inputOutput => "disk I/O error"
  | .notADatabase => "file is not a database"
  | .versionOutOfRange version => s!"integer {version} out of range"
  | .noSuchTable name => s!"no such table: {name}"
  | .noSuchColumn name => s!"no such column: {name}"
  | .notIndexable name => s!"{name} may not be indexed"
  | .nameTaken name => s!"there is already another object named {name}"
  | .notUnique => "UNIQUE constraint failed"
  | .writeRefused => "write refused"
  | .tooDeep maximum => s!"Expression tree is too large (maximum depth {maximum})"
  | .columnType name => s!"invalid column type for {name}"

/-- The cause of a failure to open or migrate a database. -/
inductive DatabaseError where
  | engine (fault : EngineFault)
  | createDirectory (path : String) (cause : IoError)
  | migration (version : Nat) (name : String) (fault : EngineFault)
  | unsupportedVersion (found latest : Nat)
deriving DecidableEq, Repr

/-- The text of a database failure. -/
def DatabaseError.message : DatabaseError → String
  | .engine fault => s!"sqlite error: {fault.message}"
  | .createDirectory path cause =>
    s!"cannot create database directory `{path}`: {cause.message}"
  | .migration version name fault => s!"migration {version} ({name}) failed: {fault.message}"
  | .unsupportedVersion found latest =>
    s!"definition store schema {found} is newer than this build supports ({latest})"

/-- The cause of a failed store call. -/
inductive StoreError where
  | database (cause : DatabaseError)
  | notFound (id : Uuid)
  /-- Another row of the lineage has the version. -/
  | versionTaken (definitionId : String) (tenantId : Option String) (version : String)
  | schemaNotReady (found expected : Nat)
  /-- A row whose id is no identifier. -/
  | invalidId (text : String)
  /-- A row whose payload is not JSON. -/
  | invalidPayload (id : Uuid) (cause : ReadError)
deriving Repr

/-- The text of a failed store call. -/
def StoreError.message : StoreError → String
  | .database cause => cause.message
  | .notFound id => s!"definition item not found: {id.text}"
  | .versionTaken definitionId tenantId version =>
    s!"definition {definitionId} for tenant {describeTenant tenantId} already has version {version}"
  | .schemaNotReady found expected =>
    s!"database schema version {found} does not match expected {expected}"
  | .invalidId text =>
    s!"invalid persisted definition data: invalid uuid value `{text}` in definition_items.id"
  | .invalidPayload id cause =>
    "invalid persisted definition data: invalid json in definition_items.definition_payload for " ++
      s!"{id.text}: {cause.message}"

end Lineage
