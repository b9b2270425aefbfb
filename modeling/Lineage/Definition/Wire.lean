/-
The JSON form of items, candidates, submissions, clauses and filters.

Every record is an object with the names of its fields in camel case, and an optional field that is
not set is `null`. Reading is more liberal than writing: optional fields may be left out, unknown
members are passed over, and a record may be an array of its fields in their order.
-/

import Lineage.Definition
import Lineage.Filter
import Lineage.Mode
import Lineage.Json.Decoder

namespace Lineage

open Json (Record Decoder)

/-! ### Writing -/

/-- The document of an optional text. -/
def Json.ofText? : Option String → Json
  | some s => .string s
  | none => .null

/-- The document of an optional identifier. -/
def Json.ofId? : Option Uuid → Json
  | some id => .string id.text
  | none => .null

/-- The document of a time. -/
def Json.ofTime (t : Int64) : Json :=
  .number (.integer t.toInt)

/-- The members of an item in the order of its fields. -/
def Item.members (item : Item) : List (String × Json) :=
  [("id", .string item.id.text), ("definitionId", .string item.definitionId),
    ("tenantId", Json.ofText? item.tenantId), ("version", .string item.version),
    ("name", Json.ofText? item.name), ("purpose", Json.ofText? item.purpose),
    ("definitionPayload", item.payload), ("createdAt", Json.ofTime item.createdAt),
    ("lastUpdatedAt", Json.ofTime item.lastUpdatedAt)]

/-- The members of a candidate in the order of its fields. -/
def Candidate.members (c : Candidate) : List (String × Json) :=
  [("definitionId", .string c.definitionId), ("tenantId", Json.ofText? c.tenantId),
    ("version", .string c.version), ("name", Json.ofText? c.name),
    ("purpose", Json.ofText? c.purpose), ("definitionPayload", c.payload)]

/-- The members of a submission in the order of its fields. -/
def Submission.members (s : Submission) : List (String × Json) :=
  [("id", Json.ofId? s.id), ("definitionId", Json.ofText? s.definitionId),
    ("tenantId", Json.ofText? s.tenantId), ("version", Json.ofText? s.version),
    ("name", Json.ofText? s.name), ("purpose", Json.ofText? s.purpose),
    ("definitionPayload", s.payload)]

/-- The members of a clause in the order of its fields. -/
def Clause.members (c : Clause) : List (String × Json) :=
  [("id", Json.ofId? c.id), ("definitionId", Json.ofText? c.definitionId),
    ("tenantId", Json.ofText? c.tenantId), ("version", Json.ofText? c.version)]

/-- The document of an item. -/
def Item.toJson (item : Item) : Json :=
  Json.ofMembers item.members

/-- The document of a candidate. -/
def Candidate.toJson (c : Candidate) : Json :=
  Json.ofMembers c.members

/-- The document of a submission. -/
def Submission.toJson (s : Submission) : Json :=
  Json.ofMembers s.members

/-- The document of a clause. -/
def Clause.toJson (c : Clause) : Json :=
  Json.ofMembers c.members

/-- The document of a filter. -/
def Filter.toJson (f : Filter) : Json :=
  .array (f.clauses.map Clause.toJson)

/-! ### Reading -/

/-- The fields of a record that have been read so far. -/
structure Fields where
  id : Option (Option Uuid) := none
  definitionId : Option (Option String) := none
  tenantId : Option (Option String) := none
  version : Option (Option String) := none
  name : Option (Option String) := none
  purpose : Option (Option String) := none
  payload : Option Json := none
  createdAt : Option Int64 := none
  lastUpdatedAt : Option Int64 := none

namespace Fields

/-- The field `id`, which may be `null`. -/
def idField : Json.Field Fields :=
  .of "id" (·.id) (fun s v => { s with id := some v }) (.optional .uuid)

/-- The field `id`, which must be set. -/
def requiredIdField : Json.Field Fields :=
  .of "id" (·.id) (fun s v => { s with id := some v }) (.given .uuid)

/-- The field `definitionId`, which may be `null`. -/
def definitionIdField : Json.Field Fields :=
  .of "definitionId" (·.definitionId) (fun s v => { s with definitionId := some v })
    (.optional .text)

/-- The field `definitionId`, which must be set. -/
def requiredDefinitionIdField : Json.Field Fields :=
  .of "definitionId" (·.definitionId) (fun s v => { s with definitionId := some v })
    (.given .text)

/-- The field `tenantId`. -/
def tenantIdField : Json.Field Fields :=
  .of "tenantId" (·.tenantId) (fun s v => { s with tenantId := some v }) (.optional .text)

/-- The field `version`, which may be `null`. -/
def versionField : Json.Field Fields :=
  .of "version" (·.version) (fun s v => { s with version := some v }) (.optional .text)

/-- The field `version`, which must be set. -/
def requiredVersionField : Json.Field Fields :=
  .of "version" (·.version) (fun s v => { s with version := some v }) (.given .text)

/-- The field `name`. -/
def nameField : Json.Field Fields :=
  .of "name" (·.name) (fun s v => { s with name := some v }) (.optional .text)

/-- The field `purpose`. -/
def purposeField : Json.Field Fields :=
  .of "purpose" (·.purpose) (fun s v => { s with purpose := some v }) (.optional .text)

/-- The field `definitionPayload`, which may hold any document. -/
def payloadField : Json.Field Fields :=
  .of "definitionPayload" (·.payload) (fun s v => { s with payload := some v }) .json

/-- The field `createdAt`. -/
def createdAtField : Json.Field Fields :=
  .of "createdAt" (·.createdAt) (fun s v => { s with createdAt := some v }) .int64

/-- The field `lastUpdatedAt`. -/
def lastUpdatedAtField : Json.Field Fields :=
  .of "lastUpdatedAt" (·.lastUpdatedAt) (fun s v => { s with lastUpdatedAt := some v }) .int64

end Fields

open Fields

/-- The item of fields that have been read. -/
def Fields.item (s : Fields) : Except ReadError Item := do
  return {
    id := ← Record.require "id" s.id.join
    definitionId := ← Record.require "definitionId" s.definitionId.join
    tenantId := s.tenantId.join
    version := ← Record.require "version" s.version.join
    name := s.name.join
    purpose := s.purpose.join
    payload := ← Record.require "definitionPayload" s.payload
    createdAt := ← Record.require "createdAt" s.createdAt
    lastUpdatedAt := ← Record.require "lastUpdatedAt" s.lastUpdatedAt }

/-- The candidate of fields that have been read. -/
def Fields.candidate (s : Fields) : Except ReadError Candidate := do
  return {
    definitionId := ← Record.require "definitionId" s.definitionId.join
    tenantId := s.tenantId.join
    version := ← Record.require "version" s.version.join
    name := s.name.join
    purpose := s.purpose.join
    payload := ← Record.require "definitionPayload" s.payload }

/-- The submission of fields that have been read. -/
def Fields.submission (s : Fields) : Except ReadError Submission := do
  return {
    id := s.id.join
    definitionId := s.definitionId.join
    tenantId := s.tenantId.join
    version := s.version.join
    name := s.name.join
    purpose := s.purpose.join
    payload := ← Record.require "definitionPayload" s.payload }

/-- The clause of fields that have been read. -/
def Fields.clause (s : Fields) : Except ReadError Clause :=
  .ok { id := s.id.join, definitionId := s.definitionId.join, tenantId := s.tenantId.join,
        version := s.version.join }

/-- The fields of an item. -/
def Item.record : Record Fields where
  name := "DefinitionItem"
  fields := [requiredIdField, requiredDefinitionIdField, tenantIdField, requiredVersionField,
    nameField, purposeField, payloadField, createdAtField, lastUpdatedAtField]
  mayEndEarly := false

/-- The fields of a candidate. -/
def Candidate.record : Record Fields where
  name := "NonPersistedDefinitionItem"
  fields := [requiredDefinitionIdField, tenantIdField, requiredVersionField, nameField,
    purposeField, payloadField]
  mayEndEarly := false

/-- The fields of a submission. -/
def Submission.record : Record Fields where
  name := "DefinitionItemInput"
  fields := [idField, definitionIdField, tenantIdField, versionField, nameField, purposeField,
    payloadField]
  mayEndEarly := false

/-- The fields of a clause. -/
def Clause.record : Record Fields where
  name := "DefinitionFilterClause"
  fields := [idField, definitionIdField, tenantIdField, versionField]
  mayEndEarly := false

/-- Reads an item. -/
def Item.decoder : Decoder Item :=
  Item.record.decoder {} Fields.item

/-- Reads a candidate. -/
def Candidate.decoder : Decoder Candidate :=
  Candidate.record.decoder {} Fields.candidate

/-- Reads a submission. -/
def Submission.decoder : Decoder Submission :=
  Submission.record.decoder {} Fields.submission

/-- Reads a clause. -/
def Clause.decoder : Decoder Clause :=
  Clause.record.decoder {} Fields.clause

/-- Reads a filter: the list of its clauses. -/
def Filter.decoder : Decoder Filter := fun levels x =>
  (Decoder.listOf Clause.decoder levels x).map Filter.mk

/-- Reads the name of a mode. -/
def Mode.decoder : Decoder Mode :=
  Decoder.variant (Mode.all.map fun mode => (mode.name, mode))

end Lineage
