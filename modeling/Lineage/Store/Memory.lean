/-
The store in memory: its items in the order in which they were added.

The items of a lineage have different versions. A write that would break this fails and changes
nothing; an update first asks for its row. Tenants are normalized when they are written, and an
update keeps the row's place, its id and its creation time.
-/

import Lineage.Store.Request

namespace Lineage

/-- The items in the order in which they were added. -/
structure Memory where
  items : List Item

/-- The item of a candidate that is added. -/
def Candidate.toItem (c : Candidate) (stamp : Stamp) : Item where
  id := stamp.id
  definitionId := c.definitionId
  tenantId := normalizeTenant c.tenantId
  version := c.version
  name := c.name
  purpose := c.purpose
  payload := c.payload
  createdAt := stamp.now
  lastUpdatedAt := stamp.now

/-- The item that takes the place of a stored one. -/
def Item.replacing (item stored : Item) (now : Int64) : Item :=
  { item with
    tenantId := normalizeTenant item.tenantId
    createdAt := stored.createdAt
    lastUpdatedAt := now }

/-- Whether an item has a version of a lineage. -/
def Item.occupies (item : Item) (definitionId : String) (tenantId : Option String)
    (version : String) : Bool :=
  item.definitionId = definitionId && item.tenantId = tenantId && item.version = version

namespace Memory

/-- The store without items. -/
def empty : Memory := ⟨[]⟩

/-- The number of items. -/
def size (m : Memory) : Nat :=
  m.items.length

/-- Whether there is an item with the id. -/
def has (m : Memory) (id : Uuid) : Bool :=
  m.items.any (·.id = id)

/-- Whether an item matches. -/
def hasAny (m : Memory) (filter : Filter) : Bool :=
  m.items.any filter.holds

/-- The item with the id. -/
def get (m : Memory) (id : Uuid) : Except StoreError Item :=
  match m.items.find? (·.id = id) with
  | some item => .ok item
  | none => .error (.notFound id)

/-- The matching items, the highest version first. -/
def list (m : Memory) (filter : Filter) : List Item :=
  sortItems (m.items.filter filter.holds)

/-- Adds an item unless its lineage has the version. -/
def add (m : Memory) (stamp : Stamp) (c : Candidate) : Except StoreError Item × Memory :=
  let item := c.toItem stamp
  if m.items.any (·.occupies c.definitionId item.tenantId c.version) then
    (.error (.versionTaken c.definitionId item.tenantId c.version), m)
  else (.ok item, ⟨m.items ++ [item]⟩)

/-- Replaces the item with the id unless another one of its lineage has the version. -/
def update (m : Memory) (now : Int64) (item : Item) : Except StoreError Item × Memory :=
  match m.items.find? (·.id = item.id) with
  | none => (.error (.notFound item.id), m)
  | some stored =>
    let updated := item.replacing stored now
    if m.items.any fun other =>
        other.id ≠ item.id && other.occupies item.definitionId updated.tenantId item.version then
      (.error (.versionTaken item.definitionId updated.tenantId item.version), m)
    else (.ok updated, ⟨m.items.map fun other => if other.id = item.id then updated else other⟩)

/-- Deletes the item with the id. -/
def delete (m : Memory) (id : Uuid) : Except StoreError Unit × Memory :=
  if m.has id then (.ok (), ⟨m.items.eraseP (·.id = id)⟩) else (.error (.notFound id), m)

/-- Deletes the matching items and counts them. -/
def deleteAll (m : Memory) (filter : Filter) : Nat × Memory :=
  let kept := m.items.filter (!filter.holds ·)
  (m.items.length - kept.length, ⟨kept⟩)

/-- The store in memory as a backend. -/
def backend : Backend Memory := fun stamp r m =>
  match r with
  | .hasItem id => (.ok (m.has id), m)
  | .hasItems filter => (.ok (m.hasAny filter), m)
  | .getItem id => (m.get id, m)
  | .getItems filter => (.ok (m.list filter), m)
  | .addItem c => m.add stamp c
  | .updateItem item => m.update stamp.now item
  | .deleteItem id => m.delete id
  | .deleteItems filter =>
    let (count, m) := m.deleteAll filter
    (.ok count, m)

end Memory

end Lineage
