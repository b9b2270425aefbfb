/-
The database that holds a store: a schema version, schema objects, and the rows of the item table.

`Database.migrate` brings a database to the schema of this library. Migrations run one after the
other on a copy that takes the place of the database only if all of them succeed, so a failed one
changes nothing. A database with a later schema is refused.
-/

import Lineage.Logging.Event
import Lineage.Store.Table

namespace Lineage

/-- The kind of a schema object. -/
inductive ObjectKind where
  | table
  | index
  | view
deriving DecidableEq, Repr

/-- The name of a kind of schema objects. -/
def ObjectKind.name : ObjectKind → String
  | .table => "table"
  | .index => "index"
  | .view => "view"

/-- A named object of a database, and its columns. -/
structure SchemaObject where
  kind : ObjectKind
  name : String
  columns : List String
deriving DecidableEq, Repr

/-- A database. The rows belong to the item table. -/
structure Database where
  version : Int
  objects : List SchemaObject
  items : Table

namespace Database

/-- The database with nothing in it. -/
def empty : Database := ⟨0, [], Table.empty⟩

/-- The name of the item table. -/
def itemTable : String := "definition_items"

/-- The columns of the item table. -/
def itemColumns : List String :=
  ["id", "definition_id", "tenant_id", "version", "name", "purpose", "definition_payload",
    "created_at", "last_updated_at"]

/-- The object with a name. -/
def object? (db : Database) (name : String) : Option SchemaObject :=
  db.objects.find? (·.name = name)

/-- The kinds and names of the objects, in order. -/
def describeObjects (db : Database) : List String :=
  (db.objects.map fun o => s!"{o.kind.name} {o.name}").mergeSort
    fun a b => Text.compareText a b != .gt

/-- The schema version, which must not be negative. -/
def schemaVersion (db : Database) : Except EngineFault Nat :=
  if db.version < 0 then .error (.versionOutOfRange db.version) else .ok db.version.toNat

/-! ### Statements -/

/-- A statement that defines a schema object unless it is there already. -/
inductive Statement where
  | createTable (name : String) (columns : List String)
  | createIndex (name : String) (unique : Bool) (table : String) (columns : List String)
deriving DecidableEq, Repr

/-- Whether the rows of a table allow a unique index, which can only fail for the item table. -/
def allowsUnique (db : Database) (table : String) : Bool :=
  table ≠ itemTable || (db.items.rows.map Row.key).Nodup

/-- Makes a table. Any object but an index may stand in its place. -/
def createTable (db : Database) (name : String) (columns : List String) :
    Except EngineFault Database :=
  match db.object? name with
  | some o => if o.kind = .index then .error (.nameTaken name) else .ok db
  | none => .ok { db with objects := db.objects ++ [⟨.table, name, columns⟩] }

/-- Makes an index on columns of a table. -/
def createIndex (db : Database) (name : String) (unique : Bool) (table : String)
    (columns : List String) : Except EngineFault Database :=
  match db.object? table with
  | none => .error (.noSuchTable table)
  | some target =>
    if target.kind = .index then .error (.noSuchTable table)
    else if target.kind = .view then .error (.notIndexable table)
    else
      match db.object? name with
      | some o => if o.kind = .index then .ok db else .error (.nameTaken name)
      | none =>
        match columns.find? (· ∉ target.columns) with
        | some column => .error (.noSuchColumn column)
        | none =>
          if unique && !db.allowsUnique table then .error .notUnique
          else .ok { db with objects := db.objects ++ [⟨.index, name, columns⟩] }

/-- Does what a statement says. -/
def execute (db : Database) : Statement → Except EngineFault Database
  | .createTable name columns => db.createTable name columns
  | .createIndex name unique table columns => db.createIndex name unique table columns

/-! ### Migrations -/

/-- A step from one schema version to the next. -/
structure Migration where
  version : Nat
  name : String
  statements : List Statement

/-- The migrations in the order of their versions. -/
def migrations : List Migration := [
  { version := 1
    name := "definition_items"
    statements := [
      .createTable itemTable itemColumns,
      .createIndex "ux_definition_items_lineage_version" true itemTable
        ["definition_id", "tenant_id", "version"],
      .createIndex "ix_definition_items_lineage" false itemTable
        ["definition_id", "tenant_id"]] }]

/-- The latest schema version. -/
def latestVersion : Nat :=
  match migrations.getLast? with
  | some migration => migration.version
  | none => 0

/-- Runs a migration and records its version. -/
def apply (db : Database) (migration : Migration) : Except DatabaseError Database :=
  match migration.statements.foldlM execute db with
  | .ok db => .ok { db with version := migration.version }
  | .error fault => .error (.migration migration.version migration.name fault)

/-- The migrations that a database at a version lacks. -/
def pending (version : Nat) : List Migration :=
  migrations.filter (version < ·.version)

/-- The migration that comes next for a database, if it lacks one. -/
def nextMigration? (db : Database) : Option Migration :=
  match db.schemaVersion with
  | .ok version => (pending version).head?
  | .error _ => none

/-- Runs migrations one after the other, and gives the steps that succeeded. -/
def applyAll (db : Database) : List Migration → Except DatabaseError Database × List Event
  | [] => (.ok db, [])
  | migration :: rest =>
    match db.apply migration with
    | .error cause => (.error cause, [])
    | .ok db =>
      let (result, events) := db.applyAll rest
      (result, .migrationStep migration.version migration.name :: events)

/-- Brings a database to the latest schema. -/
def migrate (db : Database) : Except DatabaseError Database × List Event :=
  match db.schemaVersion with
  | .error fault => (.error (.engine fault), [])
  | .ok version =>
    if latestVersion < version then (.error (.unsupportedVersion version latestVersion), [])
    else if version = latestVersion then (.ok db, [])
    else
      let (result, events) := db.applyAll (pending version)
      match result with
      | .ok db => (.ok db, events ++ [.migrated version latestVersion])
      | .error cause => (.error cause, events)

/-! ### The store in a database -/

/-- Whether a store can work on a database: its schema must be the latest one. -/
def checkSchema (db : Database) : Except StoreError Unit :=
  match db.schemaVersion with
  | .error fault => .error (.database (.engine fault))
  | .ok version =>
    if version = latestVersion then .ok () else .error (.schemaNotReady version latestVersion)

/-- The fault that keeps a store from its table, if the table is not there or lacks a column. -/
def tableFault? (db : Database) : Option EngineFault :=
  match db.object? itemTable with
  | none => some (.noSuchTable itemTable)
  | some o =>
    if o.kind = .table then (itemColumns.find? (· ∉ o.columns)).map .noSuchColumn
    else some (.noSuchTable itemTable)

/-- How deep the condition of a statement may nest. -/
def maxHeight : Nat := 1000

/-- The fault that a request is too large for one statement. A condition counts once, or twice and
once more if the statement only asks whether there are such rows. -/
def statementFault? (r : Request) : Option EngineFault :=
  let height :=
    match r with
    | .hasItems filter => 2 * filter.condition.height + 1
    | .getItems filter | .deleteItems filter => filter.condition.height
    | _ => 0
  if maxHeight < height then some (.tooDeep maxHeight) else none

/-- The store in a database as a backend. -/
def backend : Backend Database := fun stamp r db =>
  match (statementFault? r).or db.tableFault? with
  | some fault => (.error (.database (.engine fault)), db)
  | none =>
    let (answer, items) := Table.backend stamp r db.items
    (answer, { db with items := items })

/-- The database without the item table and its indexes. -/
def dropItems (db : Database) : Database :=
  { db with
    objects := db.objects.filter fun o =>
      o.name ≠ itemTable && !migrations.any fun m =>
        m.statements.any fun
          | .createIndex name _ table _ => name = o.name && table = itemTable
          | _ => false
    items := Table.empty }

end Database

end Lineage
