/-
Stores of which the contents are not seen.

A veil is put over the name, the purpose and the payload of whatever a store holds and is asked to
hold, and over the times. A store under the veil answers as the store itself does, under the veil
(`Veils`): it never looks at the contents, except that a database reads payloads back, so the payloads
in a database have to be texts that can be read.
-/

import Lineage.Proofs.Store.Atomicity

namespace Lineage

/-! ### The veil -/

/-- A candidate without its contents. -/
def Candidate.veil (c : Candidate) : Candidate :=
  { c with name := none, purpose := none, payload := .null }

/-- An item without its contents and its times. -/
def Item.veil (item : Item) : Item :=
  { item with name := none, purpose := none, payload := .null, createdAt := 0, lastUpdatedAt := 0 }

/-- A stamp without its time. -/
def Stamp.veil (stamp : Stamp) : Stamp :=
  { stamp with now := 0 }

/-- The store in memory under the veil. -/
def Memory.veil (m : Memory) : Memory :=
  ⟨m.items.map Item.veil⟩

/-- A column of time of which only the type is seen. -/
def TimeCell.veil : TimeCell → TimeCell
  | .millis _ => .millis 0
  | .text _ => .text ""

/-- A row without its contents and its times. -/
def Row.veil (row : Row) : Row :=
  { row with
    name := none
    purpose := none
    payload := Json.null.text
    createdAt := row.createdAt.veil
    lastUpdatedAt := row.lastUpdatedAt.veil }

/-- The table under the veil. -/
def Table.veil (t : Table) : Table :=
  { t with rows := t.rows.map Row.veil }

/-- The database under the veil: its version, its objects and its other columns are seen. -/
def Database.veil (db : Database) : Database :=
  { db with items := db.items.veil }

/-- A backend that answers under the veil as it does without it: its lookups, and the writes of one
payload. -/
structure Veils {σ : Type} (backend : Backend σ) (veil : σ → σ) (stamp : Stamp) (payload : Json)
    (st : σ) : Prop where
  reads : ∀ filter, (backend stamp (.getItems filter) st).2 = st
  lists : ∀ filter, backend stamp.veil (.getItems filter) (veil st) =
    ((backend stamp (.getItems filter) st).1.map (List.map Item.veil), veil st)
  adds : ∀ c, c.payload = payload → (backend stamp.veil (.addItem c.veil) (veil st)).1 =
    (backend stamp (.addItem c) st).1.map Item.veil
  updates : ∀ item, item.payload = payload → (backend stamp.veil (.updateItem item.veil) (veil st)).1 =
    (backend stamp (.updateItem item) st).1.map Item.veil

@[simp] theorem Item.veil_id (item : Item) : item.veil.id = item.id := rfl

@[simp] theorem Item.veil_key (item : Item) : item.veil.key = item.key := rfl

theorem Candidate.toItem_veil (c : Candidate) (stamp : Stamp) :
    c.veil.toItem stamp.veil = (c.toItem stamp).veil := rfl

theorem Item.replacing_veil (item stored : Item) (stamp : Stamp) :
    item.veil.replacing stored.veil stamp.veil.now = (item.replacing stored stamp.now).veil := rfl

/-- Sorting looks at versions only. -/
theorem sortItems_veil (items : List Item) :
    sortItems (items.map Item.veil) = (sortItems items).map Item.veil := by
  rw [sortItems_eq, sortItems_eq]
  exact (List.map_mergeSort (f := Item.veil) fun _ _ _ _ => rfl).symm

/-! ### In memory -/

namespace Memory

theorem list_veil (m : Memory) (filter : Filter) :
    m.veil.list filter = (m.list filter).map Item.veil := by
  rw [list, veil, List.filter_map, sortItems_veil]
  rfl

theorem add_veil (m : Memory) (stamp : Stamp) (c : Candidate) :
    (m.veil.add stamp.veil c.veil).1 = (m.add stamp c).1.map Item.veil := by
  rcases add_cases m stamp c with ⟨⟨other, hm, hkey⟩, heq⟩ | ⟨hfree, heq⟩
  · have htaken : ∃ other ∈ m.veil.items, other.key = (c.veil.toItem stamp.veil).key :=
      ⟨other.veil, List.mem_map_of_mem hm, hkey⟩
    rw [heq, add_of_taken htaken]
    rfl
  · have hfree' : ∀ other ∈ m.veil.items, other.key ≠ (c.veil.toItem stamp.veil).key := by
      intro other hm
      obtain ⟨old, hold, rfl⟩ := List.mem_map.1 hm
      exact hfree old hold
    rw [heq, add_of_free hfree']
    rfl

theorem find?_veil (m : Memory) (id : Uuid) :
    m.veil.items.find? (·.id = id) = (m.items.find? (·.id = id)).map Item.veil := by
  rw [veil, List.find?_map]
  rfl

theorem update_veil (m : Memory) (stamp : Stamp) (item : Item) :
    (m.veil.update stamp.veil.now item.veil).1 = (m.update stamp.now item).1.map Item.veil := by
  have hfind : m.veil.items.find? (·.id = item.veil.id) =
      (m.items.find? (·.id = item.id)).map Item.veil := m.find?_veil item.id
  rcases update_cases m stamp.now item with
    ⟨hmissing, heq⟩ | ⟨stored, hstored, ⟨⟨other, hm, hne, hkey⟩, heq⟩ | ⟨hfree, heq⟩⟩
  · have hmissing' : m.veil.has item.veil.id = false := by
      rw [has, veil, List.any_map]
      exact hmissing
    rw [heq, update_of_missing hmissing']
    rfl
  · rw [hstored, Option.map_some] at hfind
    have htaken : ∃ other ∈ m.veil.items, other.id ≠ item.veil.id ∧
        other.key = (item.veil.replacing stored.veil stamp.veil.now).key :=
      ⟨other.veil, List.mem_map_of_mem hm, hne, hkey⟩
    rw [heq, update_of_taken hfind htaken]
    rfl
  · rw [hstored, Option.map_some] at hfind
    have hfree' : ∀ other ∈ m.veil.items, other.id ≠ item.veil.id →
        other.key ≠ (item.veil.replacing stored.veil stamp.veil.now).key := by
      intro other hm hne
      obtain ⟨old, hold, rfl⟩ := List.mem_map.1 hm
      exact hfree old hold hne
    rw [heq, update_of_free hfind hfree']
    rfl

theorem veils (stamp : Stamp) (payload : Json) (m : Memory) :
    Veils backend veil stamp payload m where
  reads := fun _ => rfl
  lists := fun filter => by
    simp only [backend, list_veil]
    rfl
  adds := fun c _ => add_veil m stamp c
  updates := fun item _ => update_veil m stamp item

end Memory

/-! ### In a database -/

namespace Row

theorem ofItem_veil (item : Item) : ofItem item.veil = (ofItem item).veil := rfl

@[simp] theorem veil_id (row : Row) : row.veil.id = row.id := rfl

@[simp] theorem veil_key (row : Row) : row.veil.key = row.key := rfl

@[simp] theorem veil_column (row : Row) : row.veil.column = row.column := by
  funext c
  cases c <;> rfl

theorem time_veil (name : String) (cell : TimeCell) :
    time name cell.veil = (time name cell).map fun _ => 0 := by
  cases cell <;> rfl

/-- A row whose payload can be read is read under the veil as it is without it. -/
theorem decode_veil (row : Row) {x : Json} (h : Json.parse row.payload = .ok x) :
    row.veil.decode = row.decode.map Item.veil := by
  have hnull : Json.parse Json.null.text = .ok .null := Json.parse_text trivial (by decide)
  simp only [decode, veil, hnull, h, time_veil]
  cases Uuid.parse? row.id with
  | none => rfl
  | some id =>
    cases time "created_at" row.createdAt with
    | error cause => rfl
    | ok created => cases time "last_updated_at" row.lastUpdatedAt <;> rfl

theorem mapM_decode_veil {rows : List Row}
    (h : ∀ row ∈ rows, ∃ x, Json.parse row.payload = .ok x) :
    (rows.map veil).mapM decode = (rows.mapM decode).map (List.map Item.veil) := by
  induction rows with
  | nil => rfl
  | cons row rows ih =>
    rw [List.forall_mem_cons] at h
    obtain ⟨⟨x, hx⟩, hrest⟩ := h
    rw [List.map_cons, List.mapM_cons, List.mapM_cons, decode_veil row hx, ih hrest]
    cases row.decode with
    | error cause => rfl
    | ok item => cases rows.mapM decode <;> rfl

end Row

namespace Table

variable {t : Table}

theorem select_veil (t : Table) (c : Condition) : t.veil.select c = (t.select c).map Row.veil := by
  simp only [select, veil, List.filter_map, Function.comp_def, Row.veil_column]

theorem list_veil (h : ∀ row ∈ t.rows, ∃ x, Json.parse row.payload = .ok x) (filter : Filter) :
    t.veil.list filter = (t.list filter).map (List.map Item.veil) := by
  have hselected : ∀ row ∈ t.select filter.condition, ∃ x, Json.parse row.payload = .ok x :=
    fun row hrow => h row (List.mem_of_mem_filter hrow)
  rw [list, list, select_veil, Row.mapM_decode_veil hselected]
  cases (t.select filter.condition).mapM Row.decode with
  | error cause => rfl
  | ok items => exact congrArg Except.ok (sortItems_veil items)

theorem obstacle?_veil (t : Table) (row : Row) (others : List Row) :
    t.veil.obstacle? row.veil (others.map Row.veil) = t.obstacle? row others := by
  simp only [obstacle?, veil, List.any_map, Function.comp_def, Row.veil_id, Row.veil_key]
  rfl

theorem add_veil {stamp : Stamp} {c : Candidate} (h : ∃ x, Json.parse c.payload.text = .ok x) :
    (t.veil.add stamp.veil c.veil).1 = (t.add stamp c).1.map Item.veil := by
  have hsame : t.veil.obstacle? (Row.ofItem (c.veil.toItem stamp.veil)) t.veil.rows =
      t.obstacle? (Row.ofItem (c.toItem stamp)) t.rows :=
    t.obstacle?_veil (Row.ofItem (c.toItem stamp)) t.rows
  cases hobstacle : t.obstacle? (Row.ofItem (c.toItem stamp)) t.rows with
  | some cause =>
    rw [hobstacle] at hsame
    rw [add_of_taken hobstacle, add_of_taken hsame]
    rfl
  | none =>
    rw [hobstacle] at hsame
    obtain ⟨x, hx⟩ := h
    have hread := Row.decode_veil (Row.ofItem (c.toItem stamp)) hx
    rw [add_eq_of_free hobstacle, add_eq_of_free hsame, Candidate.toItem_veil, Row.ofItem_veil, hread]

theorem find?_veil (t : Table) (id : String) :
    t.veil.rows.find? (·.id = id) = (t.rows.find? (·.id = id)).map Row.veil := by
  rw [veil, List.find?_map]
  rfl

theorem replacing_veil (item : Item) (stored : Row) (stamp : Stamp) :
    replacing item.veil stored.veil stamp.veil.now = (replacing item stored stamp.now).veil := rfl

theorem update_veil {stamp : Stamp} {item : Item} (h : ∃ x, Json.parse item.payload.text = .ok x) :
    (t.veil.update stamp.veil.now item.veil).1 = (t.update stamp.now item).1.map Item.veil := by
  have hfind : t.veil.rows.find? (·.id = item.veil.id.text) =
      (t.rows.find? (·.id = item.id.text)).map Row.veil := t.find?_veil item.id.text
  cases hstored : t.rows.find? (·.id = item.id.text) with
  | none =>
    rw [hstored, Option.map_none] at hfind
    rw [update_of_missing hstored, update_of_missing hfind]
    rfl
  | some stored =>
    rw [hstored, Option.map_some] at hfind
    have hothers : t.veil.rows.filter (·.id ≠ stored.veil.id) =
        (t.rows.filter (·.id ≠ stored.id)).map Row.veil := by
      rw [veil, List.filter_map]
      rfl
    have hsame : t.veil.obstacle? (replacing item.veil stored.veil stamp.veil.now)
        (t.veil.rows.filter (·.id ≠ stored.veil.id)) =
          t.obstacle? (replacing item stored stamp.now) (t.rows.filter (·.id ≠ stored.id)) := by
      rw [hothers, replacing_veil, obstacle?_veil]
    cases hobstacle : t.obstacle? (replacing item stored stamp.now)
        (t.rows.filter (·.id ≠ stored.id)) with
    | some cause =>
      rw [hobstacle] at hsame
      rw [update_of_taken hstored hobstacle, update_of_taken hfind hsame]
      rfl
    | none =>
      rw [hobstacle] at hsame
      obtain ⟨x, hx⟩ := h
      have hread := Row.decode_veil (replacing item stored stamp.now) hx
      rw [update_eq_of_free hstored hobstacle, update_eq_of_free hfind hsame, replacing_veil, hread]

end Table

namespace Database

variable {db : Database}

theorem tableFault?_veil (db : Database) : db.veil.tableFault? = db.tableFault? := rfl

/-- A request that the table would answer alike under the veil is answered alike by the database. -/
theorem answer_veil (stamp : Stamp) (r r' : Request) (f : r.Answer → r'.Answer)
    (hfault : ∀ cause, f (.error cause) = .error cause)
    (hsize : statementFault? r' = statementFault? r)
    (htable : (Table.backend stamp.veil r' db.items.veil).1 = f (Table.backend stamp r db.items).1) :
    (backend stamp.veil r' db.veil).1 = f (backend stamp r db).1 := by
  rw [backend, backend, hsize, tableFault?_veil]
  cases (statementFault? r).or db.tableFault? with
  | some fault => exact (hfault _).symm
  | none => exact htable

theorem veils (hrows : ∀ row ∈ db.items.rows, ∃ x, Json.parse row.payload = .ok x) (stamp : Stamp)
    {payload : Json} (hpayload : ∃ x, Json.parse payload.text = .ok x) :
    Veils backend veil stamp payload db where
  reads := fun filter => backend_getItems stamp filter db
  lists := fun filter => by
    refine Prod.ext ?_ (backend_getItems stamp.veil filter db.veil)
    exact answer_veil stamp (.getItems filter) (.getItems filter) (Except.map (List.map Item.veil))
      (fun _ => rfl) rfl (Table.list_veil hrows filter)
  adds := by
    rintro c rfl
    exact answer_veil stamp (.addItem c) (.addItem c.veil) (Except.map Item.veil) (fun _ => rfl) rfl
      (Table.add_veil hpayload)
  updates := by
    rintro item rfl
    exact answer_veil stamp (.updateItem item) (.updateItem item.veil) (Except.map Item.veil)
      (fun _ => rfl) rfl (Table.update_veil hpayload)

end Database

end Lineage
