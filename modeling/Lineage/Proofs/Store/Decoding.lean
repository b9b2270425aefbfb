/-
What a raw row reads as, and why it may read as nothing.

A row may hold any texts, since its table can be changed from outside. `Row.Shows` says what such a
row says as an item, and `Row.Fails` what is wrong with a row that says nothing: the first of its
columns that cannot be read, in the order of id, payload and times. Whether a row is selected is
decided before it is read, on its columns as they are (`Filter.Admits`).
-/

import Mathlib.Data.List.Forall2
import Lineage.Proofs.Store.Selection

namespace Lineage

/-! ### Selection -/

/-- The raw columns of a row have every value that a clause asks for. -/
structure Clause.Admits (c : Clause) (row : Row) : Prop where
  id : ∀ id ∈ c.id, row.id = id.text
  definitionId : ∀ definitionId ∈ c.definitionId, row.definitionId = definitionId
  tenantId : ∀ tenantId ∈ c.tenantId, row.tenantId = some tenantId
  version : ∀ version ∈ c.version, row.version = version

/-- The raw columns of a row satisfy some clause of a filter, or there is none. -/
def Filter.Admits (filter : Filter) (row : Row) : Prop :=
  filter.clauses = [] ∨ ∃ c ∈ filter.clauses, c.Admits row

variable {filter : Filter} {row : Row} {rows : List Row} {item : Item} {items : List Item}
  {cause : StoreError}

/-- The comparisons of a clause are true of the rows that it admits. -/
theorem Clause.comparisons_eq_iff {c : Clause} :
    (∀ d ∈ c.comparisons, row.column d.column = some d.value) ↔ c.Admits row := by
  rw [comparisons, List.forall_mem_append, List.forall_mem_append, List.forall_mem_append,
    forall_mem_toList_map, forall_mem_toList_map, forall_mem_toList_map, forall_mem_toList_map]
  simp only [Row.column, Option.some.injEq]
  constructor
  · rintro ⟨⟨⟨hid, hdefinition⟩, htenant⟩, hversion⟩
    exact ⟨hid, hdefinition, htenant, hversion⟩
  · intro h
    exact ⟨⟨⟨h.id, h.definitionId⟩, h.tenantId⟩, h.version⟩

/-- The condition of a filter selects the rows that the filter admits. -/
theorem Filter.selects_iff_admits : filter.condition.selects row.column = true ↔ filter.Admits row := by
  rw [Condition.selects_iff, Admits]
  apply or_congr List.map_eq_nil_iff
  constructor
  · rintro ⟨group, hgroup, htrue⟩
    obtain ⟨c, hc, rfl⟩ := List.mem_map.1 hgroup
    exact ⟨c, hc, Clause.comparisons_eq_iff.1 htrue⟩
  · rintro ⟨c, hc, hadmits⟩
    exact ⟨c.comparisons, List.mem_map_of_mem hc, Clause.comparisons_eq_iff.2 hadmits⟩

instance (filter : Filter) (row : Row) : Decidable (filter.Admits row) :=
  decidable_of_iff _ Filter.selects_iff_admits

theorem Table.select_eq (t : Table) (filter : Filter) :
    t.select filter.condition = t.rows.filter (filter.Admits ·) := by
  apply List.filter_congr
  intro row _
  rw [Bool.eq_iff_iff, Filter.selects_iff_admits, decide_eq_true_iff]

/-! ### Rows -/

namespace Row

/-- What a row says as an item: its id is an identifier, its payload is JSON, its times are numbers,
and its other columns are what they are. -/
structure Shows (row : Row) (item : Item) : Prop where
  id : Uuid.parse? row.id = some item.id
  definitionId : row.definitionId = item.definitionId
  tenantId : row.tenantId = item.tenantId
  version : row.version = item.version
  name : row.name = item.name
  purpose : row.purpose = item.purpose
  payload : Json.parse row.payload = .ok item.payload
  createdAt : row.createdAt = .millis item.createdAt
  lastUpdatedAt : row.lastUpdatedAt = .millis item.lastUpdatedAt

/-- What is wrong with a row: its id, or its payload after a good id, or one of its times after
both. -/
inductive Fails (row : Row) : StoreError → Prop where
  | id (unreadable : Uuid.parse? row.id = none) : Fails row (.invalidId row.id)
  | payload {id : Uuid} {cause : ReadError} (readable : Uuid.parse? row.id = some id)
      (unreadable : Json.parse row.payload = .error cause) : Fails row (.invalidPayload id cause)
  | createdAt {id : Uuid} {payload : Json} {text : String}
      (readable : Uuid.parse? row.id = some id ∧ Json.parse row.payload = .ok payload)
      (unreadable : row.createdAt = .text text) :
      Fails row (.database (.engine (.columnType "created_at")))
  | lastUpdatedAt {id : Uuid} {payload : Json} {created : Int64} {text : String}
      (readable : Uuid.parse? row.id = some id ∧ Json.parse row.payload = .ok payload ∧
        row.createdAt = .millis created)
      (unreadable : row.lastUpdatedAt = .text text) :
      Fails row (.database (.engine (.columnType "last_updated_at")))

/-- Every row reads as what it says, or fails by what is wrong with it. -/
theorem decode_cases (row : Row) :
    (∃ item, row.decode = .ok item ∧ row.Shows item) ∨
      ∃ cause, row.decode = .error cause ∧ row.Fails cause := by
  unfold decode
  cases hid : Uuid.parse? row.id with
  | none => exact .inr ⟨_, rfl, .id hid⟩
  | some id =>
    cases hpayload : Json.parse row.payload with
    | error cause => exact .inr ⟨_, rfl, .payload hid hpayload⟩
    | ok payload =>
      cases hcreated : row.createdAt with
      | text s => exact .inr ⟨_, rfl, .createdAt ⟨hid, hpayload⟩ hcreated⟩
      | millis created =>
        cases hupdated : row.lastUpdatedAt with
        | text s => exact .inr ⟨_, rfl, .lastUpdatedAt ⟨hid, hpayload, hcreated⟩ hupdated⟩
        | millis updated =>
          exact .inl ⟨_, rfl, hid, rfl, rfl, rfl, rfl, rfl, hpayload, hcreated, hupdated⟩

theorem Shows.decode (h : row.Shows item) : row.decode = .ok item := by
  simp only [Row.decode, h.id, h.payload, h.createdAt, h.lastUpdatedAt, time, h.definitionId,
    h.tenantId, h.version, h.name, h.purpose]
  rfl

theorem Fails.decode (h : row.Fails cause) : row.decode = .error cause := by
  cases h with
  | id unreadable => simp only [Row.decode, unreadable]
  | payload readable unreadable => simp only [Row.decode, readable, unreadable]
  | createdAt readable unreadable =>
    simp only [Row.decode, readable.1, readable.2, unreadable, time]
    rfl
  | lastUpdatedAt readable unreadable =>
    simp only [Row.decode, readable.1, readable.2.1, readable.2.2, unreadable, time]
    rfl

/-- A row with something wrong says nothing. -/
theorem Fails.not_shows (h : row.Fails cause) : ¬ row.Shows item := by
  intro hshows
  cases h.decode.symm.trans hshows.decode

/-! ### Lists of rows -/

/-- Rows are read one after the other, and the first one that fails ends the reading. -/
theorem mapM_decode_cases (rows : List Row) :
    (∃ items, rows.mapM Row.decode = .ok items ∧ List.Forall₂ Shows rows items) ∨
      ∃ before row after cause, rows.mapM Row.decode = .error cause ∧
        rows = before ++ row :: after ∧ (∀ other ∈ before, ∃ item, other.Shows item) ∧
          row.Fails cause := by
  induction rows with
  | nil => exact .inl ⟨[], rfl, .nil⟩
  | cons row rows ih =>
    rw [List.mapM_cons]
    rcases decode_cases row with ⟨item, hitem, hshows⟩ | ⟨cause, hcause, hfails⟩
    · rw [hitem]
      rcases ih with ⟨items, hitems, hall⟩ | ⟨before, bad, after, cause, hcause, rfl, hread, hfails⟩
      · rw [hitems]
        exact .inl ⟨item :: items, rfl, .cons hshows hall⟩
      · rw [hcause]
        refine .inr ⟨row :: before, bad, after, cause, rfl, rfl, ?_, hfails⟩
        rw [List.forall_mem_cons]
        exact ⟨⟨item, hshows⟩, hread⟩
    · rw [hcause]
      exact .inr ⟨[], row, rows, cause, rfl, rfl, List.forall_mem_nil _, hfails⟩

end Row

end Lineage
