/-
Databases as bytes.

A database is kept in a file as one JSON document: its schema version, its schema objects, and its
rows, each as the list of its columns. Reading takes exactly such documents; whatever else a file
holds is bytes.
-/

import Lineage.Database.Open

namespace Lineage

/-! ### Writing -/

/-- The document of a list of texts. -/
def Json.ofTexts (texts : List String) : Json :=
  .array (texts.map .string)

/-- The document of a column of time. -/
def TimeCell.toJson : TimeCell → Json
  | .millis t => Json.ofTime t
  | .text s => .string s

/-- The document of a row. -/
def Row.toJson (row : Row) : Json :=
  .array
    [.string row.id, .string row.definitionId, Json.ofText? row.tenantId, .string row.version,
      Json.ofText? row.name, Json.ofText? row.purpose, .string row.payload, row.createdAt.toJson,
      row.lastUpdatedAt.toJson]

/-- The document of a schema object. -/
def SchemaObject.toJson (o : SchemaObject) : Json :=
  .array [.string o.kind.name, .string o.name, Json.ofTexts o.columns]

/-- The document of a database. -/
def Database.toJson (db : Database) : Json :=
  Json.ofMembers
    [("schemaVersion", .number (.integer db.version)),
      ("schemaObjects", .array (db.objects.map SchemaObject.toJson)),
      ("rows", .array (db.items.rows.map Row.toJson)),
      ("refusesWrites", .bool db.items.refusesWrites)]

/-! ### Reading -/

/-- The text or `null` that a document is. -/
def Json.optionalText? : Json → Option (Option String)
  | .null => some none
  | .string s => some (some s)
  | _ => none

/-- The elements of an array, each read in the same way. -/
def Json.elements? {α : Type} (read : Json → Option α) : Json → Option (List α)
  | .array xs => xs.mapM read
  | _ => none

/-- The column of time that a document holds. -/
def TimeCell.ofJson? : Json → Option TimeCell
  | .number (.integer n) => some (.millis (Int64.ofInt n))
  | .string s => some (.text s)
  | _ => none

/-- The row that a document holds. -/
def Row.ofJson? : Json → Option Row
  | .array [id, definitionId, tenantId, version, name, purpose, payload, createdAt,
      lastUpdatedAt] => do
    return {
      id := ← id.text?
      definitionId := ← definitionId.text?
      tenantId := ← tenantId.optionalText?
      version := ← version.text?
      name := ← name.optionalText?
      purpose := ← purpose.optionalText?
      payload := ← payload.text?
      createdAt := ← TimeCell.ofJson? createdAt
      lastUpdatedAt := ← TimeCell.ofJson? lastUpdatedAt }
  | _ => none

/-- The kinds of schema objects. -/
def ObjectKind.all : List ObjectKind := [.table, .index, .view]

/-- The schema object that a document holds. -/
def SchemaObject.ofJson? : Json → Option SchemaObject
  | .array [kind, name, columns] => do
    let kind ← kind.text?
    return {
      kind := ← ObjectKind.all.find? (·.name = kind)
      name := ← name.text?
      columns := ← columns.elements? Json.text? }
  | _ => none

/-- The integer that a document is. -/
def Json.integer? : Json → Option Int
  | .number (.integer n) => some n
  | _ => none

/-- The truth value that a document is. -/
def Json.bool? : Json → Option Bool
  | .bool b => some b
  | _ => none

/-- The database that a document holds. -/
def Database.ofJson? (x : Json) : Option Database := do
  return {
    version := ← (← x.member? "schemaVersion").integer?
    objects := ← (← x.member? "schemaObjects").elements? SchemaObject.ofJson?
    items := {
      rows := ← (← x.member? "rows").elements? Row.ofJson?
      refusesWrites := ← (← x.member? "refusesWrites").bool? } }

/-! ### Files -/

namespace Content

/-- The database that a text holds. -/
def database? (s : String) : Option Database :=
  match Json.parse s with
  | .ok x => Database.ofJson? x
  | .error _ => none

/-- What the bytes of a file are: a database if they hold one. -/
def ofBytes (bs : ByteArray) : Content :=
  match (String.fromUTF8? bs).bind database? with
  | some db => .database db
  | none => .bytes bs

/-- The bytes of a file. -/
def toBytes : Content → ByteArray
  | .bytes bs => bs
  | .database db => (db.toJson.text ++ "\n").toUTF8

end Content

end Lineage
