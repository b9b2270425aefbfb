/-
The store as a table of raw rows.

A row holds texts: the id in its hyphenated form, the payload as JSON. Rows stand in the order in
which they were added. The id is the key of the table, and no two rows agree in definition id,
tenant and version, where no tenant counts as the empty one. A write that would break this is
refused before it changes a row. What is read is decoded row by row, and the first row that cannot
be decoded fails the call; a write reads back the row that it has written.
-/

import Lineage.Definition.Wire
import Lineage.Store.Condition
import Lineage.Store.Request

namespace Lineage

/-- A column of time: a number of milliseconds, or a text that got into it. -/
inductive TimeCell where
  | millis (t : Int64)
  | text (s : String)
deriving DecidableEq, Repr

/-- A row as it is stored. -/
structure Row where
  id : String
  definitionId : String
  tenantId : Option String
  version : String
  name : Option String
  purpose : Option String
  payload : String
  createdAt : TimeCell
  lastUpdatedAt : TimeCell
deriving DecidableEq, Repr

namespace Row

/-- The value of a column that conditions may name. -/
def column (row : Row) : Column → Option String
  | .id => some row.id
  | .definitionId => some row.definitionId
  | .tenantId => row.tenantId
  | .version => some row.version

/-- The row of an item. -/
def ofItem (item : Item) : Row where
  id := item.id.text
  definitionId := item.definitionId
  tenantId := item.tenantId
  version := item.version
  name := item.name
  purpose := item.purpose
  payload := item.payload.text
  createdAt := .millis item.createdAt
  lastUpdatedAt := .millis item.lastUpdatedAt

/-- The number in a column of time. -/
def time (name : String) : TimeCell → Except StoreError Int64
  | .millis t => .ok t
  | .text _ => .error (.database (.engine (.columnType name)))

/-- The item of a row: first its id is read, then its payload, then its times. -/
def decode (row : Row) : Except StoreError Item :=
  match Uuid.parse? row.id with
  | none => .error (.invalidId row.id)
  | some id =>
    match Json.parse row.payload with
    | .error cause => .error (.invalidPayload id cause)
    | .ok payload => do
      return {
        id := id
        definitionId := row.definitionId
        tenantId := row.tenantId
        version := row.version
        name := row.name
        purpose := row.purpose
        payload := payload
        createdAt := ← time "created_at" row.createdAt
        lastUpdatedAt := ← time "last_updated_at" row.lastUpdatedAt }

/-- What no two rows may agree in. -/
def key (row : Row) : String × String × String :=
  (row.definitionId, row.tenantId.getD "", row.version)

end Row

/-- The rows in the order in which they were added, and whether the table refuses to take or to
change rows. -/
structure Table where
  rows : List Row
  refusesWrites : Bool := false

namespace Table

/-- The table without rows. -/
def empty : Table := { rows := [] }

/-- The rows that a condition selects. -/
def select (t : Table) (c : Condition) : List Row :=
  t.rows.filter fun row => c.selects row.column

/-- Whether there is a row with the id. -/
def has (t : Table) (id : Uuid) : Bool :=
  t.rows.any (·.id = id.text)

/-- Whether a row matches. -/
def hasAny (t : Table) (filter : Filter) : Bool :=
  !(t.select filter.condition).isEmpty

/-- The item with the id. -/
def get (t : Table) (id : Uuid) : Except StoreError Item :=
  match t.rows.find? (·.id = id.text) with
  | some row => row.decode
  | none => .error (.notFound id)

/-- The matching items, the highest version first. -/
def list (t : Table) (filter : Filter) : Except StoreError (List Item) := do
  return sortItems (← (t.select filter.condition).mapM Row.decode)

/-- Why a row cannot be written, given the rows beside which it would stand. -/
def obstacle? (t : Table) (row : Row) (others : List Row) : Option StoreError :=
  if t.refusesWrites then some (.database (.engine .writeRefused))
  else if others.any (·.id = row.id) then some (.database (.engine .notUnique))
  else if others.any (·.key = row.key) then
    some (.versionTaken row.definitionId row.tenantId row.version)
  else none

/-- Adds the row of a candidate and reads it back. -/
def add (t : Table) (stamp : Stamp) (c : Candidate) : Except StoreError Item × Table :=
  let row : Row := {
    id := stamp.id.text
    definitionId := c.definitionId
    tenantId := normalizeTenant c.tenantId
    version := c.version
    name := c.name
    purpose := c.purpose
    payload := c.payload.text
    createdAt := .millis stamp.now
    lastUpdatedAt := .millis stamp.now }
  match t.obstacle? row t.rows with
  | some cause => (.error cause, t)
  | none =>
    let t := { t with rows := t.rows ++ [row] }
    (t.get stamp.id, t)

/-- The row of an item that takes the place of a stored row. -/
def replacing (item : Item) (stored : Row) (now : Int64) : Row where
  id := stored.id
  definitionId := item.definitionId
  tenantId := normalizeTenant item.tenantId
  version := item.version
  name := item.name
  purpose := item.purpose
  payload := item.payload.text
  createdAt := stored.createdAt
  lastUpdatedAt := .millis now

/-- Changes the row with the item's id and reads it back. -/
def update (t : Table) (now : Int64) (item : Item) : Except StoreError Item × Table :=
  match t.rows.find? (·.id = item.id.text) with
  | none => (.error (.notFound item.id), t)
  | some stored =>
    let row := replacing item stored now
    match t.obstacle? row (t.rows.filter (·.id ≠ stored.id)) with
    | some cause => (.error cause, t)
    | none =>
      let t := { t with rows := t.rows.map fun other => if other.id = row.id then row else other }
      (t.get item.id, t)

/-- Deletes the row with the id. -/
def delete (t : Table) (id : Uuid) : Except StoreError Unit × Table :=
  if t.has id then (.ok (), { t with rows := t.rows.filter (·.id ≠ id.text) })
  else (.error (.notFound id), t)

/-- Deletes the matching rows and counts them. -/
def deleteAll (t : Table) (filter : Filter) : Nat × Table :=
  let kept := t.rows.filter fun row => !filter.condition.selects row.column
  (t.rows.length - kept.length, { t with rows := kept })

/-- The table as a backend. -/
def backend : Backend Table := fun stamp r t =>
  match r with
  | .hasItem id => (.ok (t.has id), t)
  | .hasItems filter => (.ok (t.hasAny filter), t)
  | .getItem id => (t.get id, t)
  | .getItems filter => (t.list filter, t)
  | .addItem c => t.add stamp c
  | .updateItem item => t.update stamp.now item
  | .deleteItem id => t.delete id
  | .deleteItems filter =>
    let (count, t) := t.deleteAll filter
    (.ok count, t)

end Table

end Lineage
