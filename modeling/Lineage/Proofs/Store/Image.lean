/-
A table answers like the store in memory whose items its rows hold.

`Table.ofMemory` is the table with the rows of the items of a store. Its rows read back as those
items when their payloads do, and their keys agree just where the keys of the items do. Each request
to the table therefore has the answer that the store gives, and leaves the rows of the items that
the store then holds.
-/

import Lineage.Proofs.Json.Reading
import Lineage.Proofs.Store.Selection
import Lineage.Proofs.Store.Soundness

namespace Lineage

/-- A request whose payload, if it brings one, can be stored as a text. -/
def Request.Storable : Request → Prop
  | .addItem c => c.payload.Storable
  | .updateItem item => item.payload.Storable
  | _ => True

namespace Memory

variable {m : Memory} {item : Item}

/-- A store whose payloads can be stored as texts. -/
def Storable (m : Memory) : Prop :=
  ∀ item ∈ m.items, item.payload.Storable

theorem Storable.append (hp : m.Storable) (h : item.payload.Storable) :
    Storable ⟨m.items ++ [item]⟩ :=
  List.forall_mem_append.2 ⟨hp, List.forall_mem_singleton.2 h⟩

theorem Storable.put (hp : m.Storable) (h : item.payload.Storable) : (m.put item).Storable := by
  intro other hm
  obtain ⟨old, hold, rfl⟩ := List.mem_map.1 hm
  split
  · exact h
  · exact hp old hold

/-- The payloads in a store stay storable under requests with storable payloads. -/
theorem Storable.backend (hp : m.Storable) {stamp : Stamp} {r : Request}
    (hr : r.Storable) : (Memory.backend stamp r m).2.Storable := by
  have hchange := change_backend m stamp r
  generalize (Memory.backend stamp r m).2 = next at hchange ⊢
  cases hchange with
  | none => exact hp
  | add c _ => exact hp.append hr
  | put item stored _ _ => exact hp.put hr
  | erase id => exact fun item hm => hp item (List.mem_of_mem_eraseP hm)
  | drop filter => exact fun item hm => hp item (List.mem_of_mem_filter hm)

end Memory

/-! ### Rows -/

namespace Row

variable {item other : Item}

@[simp] theorem ofItem_id (item : Item) : (ofItem item).id = item.id.text := rfl

/-- The row of an item reads back. -/
theorem decode_ofItem (h : item.payload.Storable) : (ofItem item).decode = .ok item := by
  have hread := Json.parse_text h.legible h.shallow
  simp only [decode, ofItem, Uuid.parse?_text, hread, time]
  rfl

theorem mapM_decode {items : List Item} (h : ∀ item ∈ items, item.payload.Storable) :
    (items.map ofItem).mapM decode = .ok items := by
  induction items with
  | nil => rfl
  | cons item items ih =>
    rw [List.forall_mem_cons] at h
    rw [List.map_cons, List.mapM_cons, decode_ofItem h.1, ih h.2]
    rfl

/-- A tenant that is normalized is told apart from none by its text. -/
theorem getD_inj {s t : Option String} (hs : normalizeTenant s = s) (ht : normalizeTenant t = t) :
    s.getD "" = t.getD "" ↔ s = t := by
  have hempty : normalizeTenant (some "") = none := by decide
  cases s with
  | none =>
    cases t with
    | none => simp
    | some t =>
      have hne : t ≠ "" := by
        rintro rfl
        rw [hempty] at ht
        cases ht
      simpa [eq_comm] using hne
  | some s =>
    cases t with
    | none =>
      have hne : s ≠ "" := by
        rintro rfl
        rw [hempty] at hs
        cases hs
      simpa using hne
    | some t => simp

theorem key_ofItem_inj (hi : normalizeTenant item.tenantId = item.tenantId)
    (ho : normalizeTenant other.tenantId = other.tenantId) :
    (ofItem item).key = (ofItem other).key ↔ item.key = other.key := by
  simp only [key, ofItem, Item.key, Prod.mk.injEq, getD_inj hi ho]

end Row

/-! ### Rows that a table takes -/

namespace Table

section Written

variable {t : Table} {stamp : Stamp} {now : Int64} {row stored : Row} {c : Candidate} {item : Item}
  {cause : StoreError}

theorem add_of_taken (h : t.obstacle? (Row.ofItem (c.toItem stamp)) t.rows = some cause) :
    t.add stamp c = (.error cause, t) := by
  simp only [Row.ofItem, Candidate.toItem] at h
  simp only [add, h]

theorem add_of_free (h : t.obstacle? (Row.ofItem (c.toItem stamp)) t.rows = none) :
    t.add stamp c =
      (get { t with rows := t.rows ++ [Row.ofItem (c.toItem stamp)] } stamp.id,
        { t with rows := t.rows ++ [Row.ofItem (c.toItem stamp)] }) := by
  simp only [Row.ofItem, Candidate.toItem] at h
  simp only [add, h]
  rfl

theorem update_of_missing (h : t.rows.find? (·.id = item.id.text) = none) :
    t.update now item = (.error (.notFound item.id), t) := by
  rw [update, h]

theorem update_of_taken (hfind : t.rows.find? (·.id = item.id.text) = some row)
    (h : t.obstacle? (replacing item row now) (t.rows.filter (·.id ≠ row.id)) = some cause) :
    t.update now item = (.error cause, t) := by
  simp only [update, hfind, h]

theorem update_of_free (hfind : t.rows.find? (·.id = item.id.text) = some row)
    (h : t.obstacle? (replacing item row now) (t.rows.filter (·.id ≠ row.id)) = none) :
    t.update now item =
      (get { t with rows := t.rows.map fun other =>
          if other.id = row.id then replacing item row now else other } item.id,
        { t with rows := t.rows.map fun other =>
          if other.id = row.id then replacing item row now else other }) := by
  simp only [update, hfind, h]
  rfl

/-- A row that is taken has an id of its own. -/
theorem ne_id_of_free {others : List Row} (h : t.obstacle? row others = none) :
    ∀ other ∈ others, other.id ≠ row.id := by
  intro other hother hid
  have hany : others.any (·.id = row.id) = true := List.any_eq_true.2 ⟨other, hother, by simpa⟩
  rw [obstacle?, if_pos hany] at h
  split at h <;> cases h

theorem get_of_find? {id : Uuid} (h : t.rows.find? (·.id = id.text) = some row) :
    t.get id = row.decode := by
  rw [get, h]

/-- A row that has been added is found by its id. -/
theorem find?_append (hfree : ∀ other ∈ t.rows, other.id ≠ row.id) :
    (t.rows ++ [row]).find? (·.id = row.id) = some row := by
  have hnone : t.rows.find? (·.id = row.id) = none := by
    rw [List.find?_eq_none]
    intro other hother
    simpa using hfree other hother
  rw [List.find?_append, hnone]
  simp

/-- A row that has taken the place of another one is found by their id. -/
theorem find?_replace {rows : List Row} (row : Row) (hid : row.id = stored.id)
    (hfind : rows.find? (·.id = stored.id) = some stored) :
    (rows.map fun other => if other.id = stored.id then row else other).find? (·.id = stored.id) =
      some row := by
  have hsame : ∀ other : Row,
      decide ((if other.id = stored.id then row else other).id = stored.id) =
        decide (other.id = stored.id) := by
    intro other
    by_cases hother : other.id = stored.id
    · rw [if_pos hother, hid, hother]
    · rw [if_neg hother]
  rw [List.find?_map]
  simp only [Function.comp_def, hsame, hfind, Option.map_some, if_true]

theorem add_eq_of_free (h : t.obstacle? (Row.ofItem (c.toItem stamp)) t.rows = none) :
    t.add stamp c = ((Row.ofItem (c.toItem stamp)).decode,
      { t with rows := t.rows ++ [Row.ofItem (c.toItem stamp)] }) := by
  have hget : get { t with rows := t.rows ++ [Row.ofItem (c.toItem stamp)] } stamp.id =
      (Row.ofItem (c.toItem stamp)).decode := get_of_find? (find?_append (ne_id_of_free h))
  rw [add_of_free h, hget]

theorem update_eq_of_free (hfind : t.rows.find? (·.id = item.id.text) = some stored)
    (h : t.obstacle? (replacing item stored now) (t.rows.filter (·.id ≠ stored.id)) = none) :
    t.update now item = ((replacing item stored now).decode,
      { t with rows := t.rows.map fun other =>
          if other.id = stored.id then replacing item stored now else other }) := by
  have hid : stored.id = item.id.text := by simpa using List.find?_some hfind
  have hfind' : (t.rows.map fun other => if other.id = stored.id then replacing item stored now
      else other).find? (·.id = item.id.text) = some (replacing item stored now) := by
    rw [← hid] at hfind ⊢
    exact find?_replace (replacing item stored now) rfl hfind
  have hget : get { t with rows := t.rows.map fun other =>
      if other.id = stored.id then replacing item stored now else other } item.id =
        (replacing item stored now).decode := get_of_find? hfind'
  rw [update_of_free hfind h, hget]

end Written

end Table

/-! ### Tables -/

/-- Where ids are pairwise different, taking out the first item with an id leaves none. -/
theorem Memory.eraseP_id {items : List Item} (h : (items.map Item.id).Nodup) (id : Uuid) :
    items.eraseP (·.id = id) = items.filter (·.id ≠ id) := by
  induction items with
  | nil => rfl
  | cons x xs ih =>
    rw [List.map_cons, List.nodup_cons] at h
    by_cases hx : x.id = id
    · subst hx
      have hrest : xs.filter (·.id ≠ x.id) = xs := by
        rw [List.filter_eq_self]
        intro y hy
        rw [decide_eq_true_eq]
        exact fun heq => h.1 (heq ▸ List.mem_map_of_mem hy)
      rw [List.eraseP_cons_of_pos (by simp), List.filter_cons_of_neg (by simp), hrest]
    · rw [List.eraseP_cons_of_neg (by simpa), List.filter_cons_of_pos (by simpa), ih h.2]

namespace Table

/-- The table with the rows of the items of a store. -/
def ofMemory (m : Memory) : Table :=
  { rows := m.items.map Row.ofItem }

variable {m : Memory} {stamp : Stamp} {now : Int64} {item stored : Item} {c : Candidate}

theorem has_ofMemory (m : Memory) (id : Uuid) : (ofMemory m).has id = m.has id := by
  simp only [has, ofMemory, List.any_map, Memory.has, Function.comp_def, Row.ofItem_id,
    Uuid.text_inj]

theorem find?_ofMemory (m : Memory) (id : Uuid) :
    (ofMemory m).rows.find? (·.id = id.text) = (m.items.find? (·.id = id)).map Row.ofItem := by
  simp only [ofMemory, List.find?_map, Function.comp_def, Row.ofItem_id, Uuid.text_inj]

theorem select_ofMemory (m : Memory) (filter : Filter) :
    (ofMemory m).select filter.condition = (m.items.filter filter.holds).map Row.ofItem := by
  simp only [select, ofMemory, List.filter_map, Function.comp_def, Filter.selects_condition]

theorem hasAny_ofMemory (m : Memory) (filter : Filter) :
    (ofMemory m).hasAny filter = m.hasAny filter := by
  rw [hasAny, select_ofMemory, Memory.hasAny, Bool.eq_iff_iff]
  simp

theorem get_ofMemory (hp : m.Storable) (id : Uuid) :
    (ofMemory m).get id = m.get id := by
  rw [get, find?_ofMemory, Memory.get]
  cases hfind : m.items.find? (·.id = id) with
  | none => rfl
  | some item => exact Row.decode_ofItem (hp item (List.mem_of_find?_eq_some hfind))

theorem list_ofMemory (hp : m.Storable) (filter : Filter) :
    (ofMemory m).list filter = .ok (m.list filter) := by
  have hread : (((m.items.filter filter.holds).map Row.ofItem).mapM Row.decode) =
      .ok (m.items.filter filter.holds) :=
    Row.mapM_decode fun item hm => hp item (List.mem_of_mem_filter hm)
  rw [list, select_ofMemory, hread]
  rfl

/-! ### Writes -/

/-- Beside rows with other ids, the row of an item is kept out by its key only. -/
theorem obstacle?_ofMemory (m : Memory) {others : List Item}
    (htenant : normalizeTenant item.tenantId = item.tenantId)
    (htenants : ∀ other ∈ others, normalizeTenant other.tenantId = other.tenantId)
    (hids : ∀ other ∈ others, other.id ≠ item.id) :
    (ofMemory m).obstacle? (Row.ofItem item) (others.map Row.ofItem) =
      if ∃ other ∈ others, other.key = item.key then
        some (.versionTaken item.definitionId item.tenantId item.version)
      else none := by
  have hid : ¬ (others.map Row.ofItem).any (·.id = (Row.ofItem item).id) = true := by
    simpa [Uuid.text_inj] using hids
  have hkey : (others.map Row.ofItem).any (·.key = (Row.ofItem item).key) = true ↔
      ∃ other ∈ others, other.key = item.key := by
    rw [List.any_map, List.any_eq_true]
    refine exists_congr fun other => and_congr_right fun hm => ?_
    simp only [Function.comp_apply, decide_eq_true_eq,
      Row.key_ofItem_inj (htenants other hm) htenant]
  rw [obstacle?, if_neg (by simp [ofMemory]), if_neg hid]
  exact if_congr hkey rfl rfl

theorem obstacle?_toItem (hs : m.Sound) (fresh : m.has stamp.id = false) (c : Candidate) :
    (ofMemory m).obstacle? (Row.ofItem (c.toItem stamp)) (ofMemory m).rows =
      if ∃ other ∈ m.items, other.key = (c.toItem stamp).key then
        some (.versionTaken c.definitionId (normalizeTenant c.tenantId) c.version)
      else none :=
  obstacle?_ofMemory m (normalizeTenant_idem c.tenantId) hs.tenants
    (Memory.has_eq_false_iff.1 fresh)

theorem replacing_ofItem (hid : stored.id = item.id) :
    replacing item (Row.ofItem stored) now = Row.ofItem (item.replacing stored now) := by
  simp only [replacing, Row.ofItem, Item.replacing, hid]

theorem rows_ne_ofMemory (m : Memory) (id : Uuid) :
    (ofMemory m).rows.filter (·.id ≠ id.text) = (m.items.filter (·.id ≠ id)).map Row.ofItem := by
  simp only [ofMemory, List.filter_map, Function.comp_def, Row.ofItem_id, Uuid.text_inj, ne_eq]

theorem obstacle?_replacing (hs : m.Sound) (hid : stored.id = item.id) (now : Int64) :
    (ofMemory m).obstacle? (replacing item (Row.ofItem stored) now)
        ((ofMemory m).rows.filter (·.id ≠ (Row.ofItem stored).id)) =
      if ∃ other ∈ m.items, other.id ≠ item.id ∧ other.key = (item.replacing stored now).key then
        some (.versionTaken item.definitionId (normalizeTenant item.tenantId) item.version)
      else none := by
  have htenants : ∀ other ∈ m.items.filter (·.id ≠ item.id),
      normalizeTenant other.tenantId = other.tenantId := fun other hm =>
    hs.tenants other (List.mem_of_mem_filter hm)
  have hids : ∀ other ∈ m.items.filter (·.id ≠ item.id),
      other.id ≠ (item.replacing stored now).id := by
    intro other hm
    simpa using List.of_mem_filter hm
  rw [replacing_ofItem hid, Row.ofItem_id, hid, rows_ne_ofMemory,
    obstacle?_ofMemory m (normalizeTenant_idem item.tenantId) htenants hids]
  refine if_congr ?_ rfl rfl
  simp only [List.mem_filter, decide_eq_true_eq, and_assoc]

theorem ofMemory_append (m : Memory) (item : Item) :
    ofMemory ⟨m.items ++ [item]⟩ =
      { ofMemory m with rows := (ofMemory m).rows ++ [Row.ofItem item] } := by
  simp only [ofMemory, List.map_append, List.map_cons, List.map_nil]

/-- An addition to the table is the addition to the store, but its answer is read back. -/
theorem add_ofMemory (hs : m.Sound) (fresh : m.has stamp.id = false) (c : Candidate) :
    (ofMemory m).add stamp c =
      ((m.add stamp c).1.bind fun item => (Row.ofItem item).decode, ofMemory (m.add stamp c).2) := by
  have hobstacle := obstacle?_toItem hs fresh c
  rcases Memory.add_cases m stamp c with ⟨htaken, heq⟩ | ⟨hfree, heq⟩
  · rw [if_pos htaken] at hobstacle
    rw [heq, add_of_taken hobstacle]
    rfl
  · rw [if_neg (by simpa using hfree)] at hobstacle
    rw [heq, add_eq_of_free hobstacle, ofMemory_append, Except.bind]

theorem ofMemory_put (m : Memory) (item : Item) :
    ofMemory (m.put item) =
      { rows := (ofMemory m).rows.map fun other =>
          if other.id = item.id.text then Row.ofItem item else other } := by
  rw [ofMemory, ofMemory, Memory.put, List.map_map, List.map_map]
  congr 1
  refine List.map_congr_left fun other _ => ?_
  simp only [Function.comp_apply, Row.ofItem_id, Uuid.text_inj]
  split <;> rfl

/-- An update of the table is the update of the store, but its answer is read back. -/
theorem update_ofMemory (hs : m.Sound) (now : Int64) (item : Item) :
    (ofMemory m).update now item =
      ((m.update now item).1.bind fun item => (Row.ofItem item).decode,
        ofMemory (m.update now item).2) := by
  have hfind := find?_ofMemory m item.id
  rcases Memory.update_cases m now item with ⟨hmissing, heq⟩ | ⟨stored, hstored, hcases⟩
  · have hnone : m.items.find? (·.id = item.id) = none := by
      simpa [Memory.has_eq_false_iff, List.find?_eq_none] using hmissing
    rw [hnone] at hfind
    rw [heq, update_of_missing hfind]
    rfl
  · rw [hstored, Option.map_some] at hfind
    have hid : stored.id = item.id := by simpa using List.find?_some hstored
    have hobstacle := obstacle?_replacing hs hid now
    rcases hcases with ⟨htaken, heq⟩ | ⟨hfree, heq⟩
    · rw [if_pos htaken] at hobstacle
      rw [heq, update_of_taken hfind hobstacle]
      rfl
    · rw [if_neg (by simpa using hfree)] at hobstacle
      have hrows : { ofMemory m with rows := (ofMemory m).rows.map fun other =>
            if other.id = (Row.ofItem stored).id then replacing item (Row.ofItem stored) now
            else other } = ofMemory (m.put (item.replacing stored now)) := by
        rw [replacing_ofItem hid, Row.ofItem_id, hid, ofMemory_put]
        rfl
      rw [heq, update_eq_of_free hfind hobstacle, hrows, replacing_ofItem hid, Except.bind]

theorem delete_ofMemory (hs : m.Sound) (id : Uuid) :
    (ofMemory m).delete id = ((m.delete id).1, ofMemory (m.delete id).2) := by
  rw [delete, Memory.delete, has_ofMemory]
  split
  · have hkept : (ofMemory m).rows.filter (·.id ≠ id.text) =
        (m.items.eraseP (·.id = id)).map Row.ofItem := by
      rw [Memory.eraseP_id hs.ids, rows_ne_ofMemory]
    rw [hkept]
    rfl
  · rfl

theorem deleteAll_ofMemory (m : Memory) (filter : Filter) :
    (ofMemory m).deleteAll filter = ((m.deleteAll filter).1, ofMemory (m.deleteAll filter).2) := by
  have hkept : (ofMemory m).rows.filter (fun row => !filter.condition.selects row.column) =
      (m.items.filter fun item => !filter.holds item).map Row.ofItem := by
    simp only [ofMemory, List.filter_map, Function.comp_def, Filter.selects_condition]
  rw [deleteAll, hkept, Memory.deleteAll, List.length_map]
  simp only [ofMemory, List.length_map]

/-- A request to a table leaves the rows of the items that the store then holds, whether or not they
can be read back. -/
theorem state_ofMemory (hs : m.Sound) (r : Request)
    (fresh : ∀ c, r = .addItem c → m.has stamp.id = false) :
    (backend stamp r (ofMemory m)).2 = ofMemory (Memory.backend stamp r m).2 := by
  cases r with
  | addItem c => rw [backend, Memory.backend, add_ofMemory hs (fresh c rfl)]
  | updateItem item => rw [backend, Memory.backend, update_ofMemory hs]
  | deleteItem id => rw [backend, Memory.backend, delete_ofMemory hs]
  | deleteItems filter => rw [backend, Memory.backend, deleteAll_ofMemory]
  | hasItem | hasItems | getItem | getItems => rfl

/-- What is added reads back. -/
theorem bind_decode_add (hc : c.payload.Storable) :
    ((m.add stamp c).1.bind fun item => (Row.ofItem item).decode) = (m.add stamp c).1 := by
  rcases Memory.add_cases m stamp c with ⟨-, heq⟩ | ⟨-, heq⟩
  · rw [heq]
    rfl
  · rw [heq, Except.bind, Row.decode_ofItem]
    exact hc

/-- What is put in the place of an item reads back. -/
theorem bind_decode_update (hitem : item.payload.Storable) :
    ((m.update now item).1.bind fun item => (Row.ofItem item).decode) = (m.update now item).1 := by
  rcases Memory.update_cases m now item with ⟨-, heq⟩ | ⟨stored, -, ⟨-, heq⟩ | ⟨-, heq⟩⟩
  · rw [heq]
    rfl
  · rw [heq]
    rfl
  · rw [heq, Except.bind, Row.decode_ofItem]
    exact hitem

/-- A table answers a request as the store does whose items it holds, and goes on to hold the items
of the next store. -/
theorem backend_ofMemory (hs : m.Sound) (hp : m.Storable)
    (r : Request) (hr : r.Storable) (fresh : ∀ c, r = .addItem c → m.has stamp.id = false) :
    backend stamp r (ofMemory m) =
      ((Memory.backend stamp r m).1, ofMemory (Memory.backend stamp r m).2) := by
  cases r with
  | hasItem id => simp only [backend, Memory.backend, has_ofMemory]
  | hasItems filter => simp only [backend, Memory.backend, hasAny_ofMemory]
  | getItem id => simp only [backend, Memory.backend, get_ofMemory hp]
  | getItems filter => simp only [backend, Memory.backend, list_ofMemory hp]
  | addItem c =>
    dsimp only [backend, Memory.backend]
    rw [add_ofMemory hs (fresh c rfl), bind_decode_add hr]
  | updateItem item =>
    dsimp only [backend, Memory.backend]
    rw [update_ofMemory hs, bind_decode_update hr]
  | deleteItem id => exact delete_ofMemory hs id
  | deleteItems filter => simp only [backend, Memory.backend, deleteAll_ofMemory]

end Table

end Lineage
