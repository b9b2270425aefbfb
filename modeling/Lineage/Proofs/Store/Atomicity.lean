/-
A failed request leaves a database as it was.

Additions and updates change the table first and read the row back afterwards, so all that could
keep a row that the table has taken from being read is ruled out here: its id is the text of an id,
its payload is a text that can be read, and its times are numbers in every table that requests have
made (`Table.Timed`). What remains is that the table does not take the row, or that nothing was to
be written.
-/

import Lineage.Proofs.Store.Agreement

namespace Lineage

/-- A request whose payload, if it brings one, can be read back. -/
def Request.Readable : Request → Prop
  | .addItem c => c.payload.Readable
  | .updateItem item => item.payload.Readable
  | _ => True

/-- A request whose payload, if it brings one, has its integers in range. -/
def Request.InRange : Request → Prop
  | .addItem c => c.payload.InRange
  | .updateItem item => item.payload.InRange
  | _ => True

/-- A row with the text of an id, a payload with integers in range and numbers for times is an item,
unless its payload nests too deep. -/
theorem Row.exists_decode_iff (row : Row) {id : Uuid} {x : Json} {created updated : Int64}
    (hid : row.id = id.text) (hpayload : row.payload = x.text) (hx : x.InRange)
    (hcreated : row.createdAt = .millis created) (hupdated : row.lastUpdatedAt = .millis updated) :
    (∃ item, row.decode = .ok item) ↔ x.depth < Json.maxDepth := by
  rw [← Json.exists_parse_text_iff hx]
  cases hread : Json.parse x.text with
  | ok y =>
    refine iff_of_true ?_ ⟨y, rfl⟩
    simp only [decode, hid, Uuid.parse?_text, hpayload, hread, hcreated, hupdated, time]
    exact ⟨_, rfl⟩
  | error cause =>
    constructor
    · rintro ⟨item, hitem⟩
      simp only [decode, hid, Uuid.parse?_text, hpayload, hread] at hitem
      cases hitem
    · rintro ⟨y, hy⟩
      cases hy

namespace Table

variable {t : Table} {stamp : Stamp} {now : Int64} {row stored : Row} {c : Candidate} {item : Item}
  {cause : StoreError}

/-- No text has got into the column of creation times. -/
def Timed (t : Table) : Prop :=
  ∀ row ∈ t.rows, ∃ created, row.createdAt = .millis created

/-! ### Rows that the table has taken -/

/-- An addition changes nothing, or it adds a row and answers with what that row reads as. -/
theorem add_cases (t : Table) (stamp : Stamp) (c : Candidate) :
    (∃ cause, t.add stamp c = (.error cause, t)) ∨
      t.add stamp c = ((Row.ofItem (c.toItem stamp)).decode,
        { t with rows := t.rows ++ [Row.ofItem (c.toItem stamp)] }) := by
  cases hobstacle : t.obstacle? (Row.ofItem (c.toItem stamp)) t.rows with
  | some cause => exact .inl ⟨cause, add_of_taken hobstacle⟩
  | none => exact .inr (add_eq_of_free hobstacle)

/-- A row whose id is taken is not added. -/
theorem add_of_known (h : t.has stamp.id = true) (c : Candidate) :
    (t.add stamp c).2 = t := by
  cases hobstacle : t.obstacle? (Row.ofItem (c.toItem stamp)) t.rows with
  | some cause => rw [add_of_taken hobstacle]
  | none =>
    obtain ⟨row, hrow, hid⟩ := List.any_eq_true.1 h
    exact absurd (of_decide_eq_true hid) (ne_id_of_free hobstacle row hrow)

/-- The update of the only row of a table is always taken. -/
theorem update_sole (hid : stored.id = item.id.text) (now : Int64) :
    update { rows := [stored] } now item =
      ((replacing item stored now).decode, { rows := [replacing item stored now] }) := by
  have hfind : [stored].find? (·.id = item.id.text) = some stored := by
    rw [List.find?_singleton, if_pos (decide_eq_true hid)]
  have hothers : [stored].filter (·.id ≠ stored.id) = [] := by simp
  have hfree : obstacle? { rows := [stored] } (replacing item stored now)
      ([stored].filter (·.id ≠ stored.id)) = none := by
    rw [hothers]
    rfl
  rw [update_eq_of_free (t := { rows := [stored] }) hfind hfree, List.map_singleton, if_pos rfl]

/-- An update changes nothing, or it replaces a row and answers with what the new row reads as. -/
theorem update_cases (t : Table) (now : Int64) (item : Item) :
    (∃ cause, t.update now item = (.error cause, t)) ∨
      ∃ stored ∈ t.rows, stored.id = item.id.text ∧
        t.update now item = ((replacing item stored now).decode,
          { t with rows := t.rows.map fun other =>
              if other.id = stored.id then replacing item stored now else other }) := by
  cases hfind : t.rows.find? (·.id = item.id.text) with
  | none => exact .inl ⟨_, update_of_missing hfind⟩
  | some stored =>
    cases hobstacle : t.obstacle? (replacing item stored now)
        (t.rows.filter (·.id ≠ stored.id)) with
    | some cause => exact .inl ⟨cause, update_of_taken hfind hobstacle⟩
    | none =>
      have hid : stored.id = item.id.text := by simpa using List.find?_some hfind
      exact .inr ⟨stored, List.mem_of_find?_eq_some hfind, hid, update_eq_of_free hfind hobstacle⟩

/-! ### Failed requests -/

theorem add_of_error (hc : c.payload.Readable) (h : (t.add stamp c).1 = .error cause) :
    (t.add stamp c).2 = t := by
  rcases add_cases t stamp c with ⟨cause, heq⟩ | heq
  · rw [heq]
  · obtain ⟨item, hitem⟩ : ∃ item, (Row.ofItem (c.toItem stamp)).decode = .ok item :=
      (Row.exists_decode_iff _ rfl rfl hc.inRange rfl rfl).2 hc.shallow
    rw [heq, hitem] at h
    cases h

theorem update_of_error (ht : t.Timed) (hitem : item.payload.Readable)
    (h : (t.update now item).1 = .error cause) : (t.update now item).2 = t := by
  rcases update_cases t now item with ⟨cause, heq⟩ | ⟨stored, hstored, hid, heq⟩
  · rw [heq]
  · obtain ⟨created, hcreated⟩ := ht stored hstored
    obtain ⟨read, hread⟩ : ∃ read, (replacing item stored now).decode = .ok read :=
      (Row.exists_decode_iff (replacing item stored now) hid rfl hitem.inRange hcreated rfl).2
        hitem.shallow
    rw [heq, hread] at h
    cases h

theorem delete_of_error {id : Uuid} (h : (t.delete id).1 = .error cause) : (t.delete id).2 = t := by
  unfold delete at h ⊢
  split
  · next hhas =>
    rw [if_pos hhas] at h
    cases h
  · rfl

/-- A failed request leaves the table as it was. -/
theorem backend_of_error (ht : t.Timed) {r : Request} (hr : r.Readable)
    (h : (backend stamp r t).1 = .error cause) : (backend stamp r t).2 = t := by
  cases r with
  | hasItem id => rfl
  | hasItems filter => rfl
  | getItem id => rfl
  | getItems filter => rfl
  | addItem c => exact add_of_error hr h
  | updateItem item => exact update_of_error ht hr h
  | deleteItem id => exact delete_of_error h
  | deleteItems filter => cases h

/-! ### Rows that cannot be read -/

/-- A request that fails leaves the table as it was, or it leaves a row that cannot be read: the one that
it has written. -/
theorem eq_or_exists_unreadable (r : Request) (h : (backend stamp r t).1 = .error cause) :
    (backend stamp r t).2 = t ∨ ∃ row ∈ (backend stamp r t).2.rows, row.decode = .error cause := by
  cases r with
  | hasItem id => exact .inl rfl
  | hasItems filter => exact .inl rfl
  | getItem id => exact .inl rfl
  | getItems filter => exact .inl rfl
  | addItem c =>
    rcases add_cases t stamp c with ⟨_, heq⟩ | heq
    · exact .inl (congrArg Prod.snd heq)
    · change (t.add stamp c).1 = _ at h
      change _ ∨ ∃ row ∈ (t.add stamp c).2.rows, _
      rw [heq] at h ⊢
      exact .inr ⟨_, List.mem_append_right _ List.mem_cons_self, h⟩
  | updateItem item =>
    rcases update_cases t stamp.now item with ⟨_, heq⟩ | ⟨stored, hstored, -, heq⟩
    · exact .inl (congrArg Prod.snd heq)
    · change (t.update stamp.now item).1 = _ at h
      change _ ∨ ∃ row ∈ (t.update stamp.now item).2.rows, _
      rw [heq] at h ⊢
      exact .inr ⟨_, List.mem_map.2 ⟨stored, hstored, if_pos rfl⟩, h⟩
  | deleteItem id => exact .inl (delete_of_error h)
  | deleteItems filter => cases h

/-- An update keeps the creation time of its row. Where this has become a text, the new row cannot be read
either, and the update fails with the row replaced. -/
theorem update_of_untimed (hid : stored.id = item.id.text) (hitem : item.payload.Readable) {s : String}
    (htime : stored.createdAt = .text s) (now : Int64) :
    update { rows := [stored] } now item =
      (.error (.database (.engine (.columnType "created_at"))),
        { rows := [replacing item stored now] }) := by
  obtain ⟨payload, hpayload⟩ := (Json.exists_parse_text_iff hitem.inRange).2 hitem.shallow
  rw [update_sole hid]
  simp only [Row.decode, replacing, hid, Uuid.parse?_text, hpayload, htime, Row.time]
  rfl

theorem exists_error_mapM {rows : List Row} (hrow : row ∈ rows)
    (h : ∃ cause, row.decode = .error cause) : ∃ cause, rows.mapM Row.decode = .error cause := by
  induction rows with
  | nil => cases hrow
  | cons first rest ih =>
    rw [List.mapM_cons]
    cases hfirst : first.decode with
    | error cause => exact ⟨cause, rfl⟩
    | ok item =>
      rcases List.mem_cons.1 hrow with rfl | hrest
      · obtain ⟨cause, hcause⟩ := h
        rw [hfirst] at hcause
        cases hcause
      · obtain ⟨cause, hcause⟩ := ih hrest
        rw [hcause]
        exact ⟨cause, rfl⟩

/-- A row that cannot be read fails every lookup that selects it. -/
theorem exists_error_list {filter : Filter} (hrow : row ∈ t.select filter.condition)
    (h : ∃ cause, row.decode = .error cause) : ∃ cause, t.list filter = .error cause := by
  obtain ⟨cause, hcause⟩ := exists_error_mapM hrow h
  rw [list, hcause]
  exact ⟨cause, rfl⟩

/-! ### Times -/

theorem Timed.of_subset {t' : Table} (ht : t.Timed) (h : t'.rows ⊆ t.rows) : t'.Timed :=
  fun row hrow => ht row (h hrow)

theorem Timed.add (ht : t.Timed) (stamp : Stamp) (c : Candidate) : (t.add stamp c).2.Timed := by
  rcases add_cases t stamp c with ⟨cause, heq⟩ | heq
  · rw [heq]
    exact ht
  · rw [heq]
    exact List.forall_mem_append.2 ⟨ht, List.forall_mem_singleton.2 ⟨stamp.now, rfl⟩⟩

theorem Timed.update (ht : t.Timed) (now : Int64) (item : Item) : (t.update now item).2.Timed := by
  rcases update_cases t now item with ⟨cause, heq⟩ | ⟨stored, hstored, -, heq⟩
  · rw [heq]
    exact ht
  · rw [heq]
    intro row hrow
    obtain ⟨other, hother, rfl⟩ := List.mem_map.1 hrow
    split
    · exact ht stored hstored
    · exact ht other hother

/-- Every request keeps the column of creation times free of texts. -/
theorem Timed.backend (ht : t.Timed) (stamp : Stamp) (r : Request) :
    (backend stamp r t).2.Timed := by
  cases r with
  | hasItem id => exact ht
  | hasItems filter => exact ht
  | getItem id => exact ht
  | getItems filter => exact ht
  | addItem c => exact ht.add stamp c
  | updateItem item => exact ht.update stamp.now item
  | deleteItem id =>
    change (t.delete id).2.Timed
    unfold delete
    split
    · exact ht.of_subset (List.filter_subset_self _)
    · exact ht
  | deleteItems filter => exact ht.of_subset (List.filter_subset_self _)

end Table

/-! ### Databases -/

namespace Database

/-- A database that requests have made out of an empty one that was migrated. -/
inductive Reachable : Database → Prop where
  | migrated {db : Database} (h : Database.empty.migrate.1 = .ok db) : Reachable db
  | step {db : Database} (stamp : Stamp) (r : Request) (before : Reachable db) :
      Reachable (backend stamp r db).2

variable {db : Database} {stamp : Stamp} {r : Request} {cause : StoreError}

/-- A request is turned down before it comes to the table, or the table answers it. -/
theorem backend_cases (stamp : Stamp) (r : Request) (db : Database) :
    (∃ cause, backend stamp r db = (.error cause, db)) ∨
      backend stamp r db =
        ((Table.backend stamp r db.items).1,
          { db with items := (Table.backend stamp r db.items).2 }) := by
  unfold backend
  split
  · exact .inl ⟨_, rfl⟩
  · exact .inr rfl

theorem Reachable.timed (h : db.Reachable) : db.items.Timed := by
  induction h with
  | migrated h =>
    rw [(ready_of_migrate h).2]
    intro row hrow
    cases hrow
  | step stamp r before ih =>
    rcases backend_cases stamp r _ with ⟨cause, heq⟩ | heq
    · rw [heq]
      exact ih
    · rw [heq]
      exact ih.backend stamp r

/-- A failed request leaves a database as it was. -/
theorem Reachable.backend_of_error (hdb : db.Reachable) (hr : r.Readable)
    (h : (backend stamp r db).1 = .error cause) : (backend stamp r db).2 = db := by
  rcases backend_cases stamp r db with ⟨cause, heq⟩ | heq
  · rw [heq]
  · rw [heq] at h ⊢
    rw [Table.backend_of_error hdb.timed hr h]

/-- A request that fails leaves a database as it was, or with a row that cannot be read. -/
theorem eq_or_exists_unreadable (r : Request) (h : (backend stamp r db).1 = .error cause) :
    (backend stamp r db).2 = db ∨
      ∃ row ∈ (backend stamp r db).2.items.rows, ∃ fault, row.decode = .error fault := by
  rcases backend_cases stamp r db with ⟨_, heq⟩ | heq
  · rw [heq]
    exact .inl rfl
  · rw [heq] at h ⊢
    rcases Table.eq_or_exists_unreadable r h with hsame | ⟨row, hrow, hdecode⟩
    · rw [hsame]
      exact .inl rfl
    · exact .inr ⟨row, hrow, cause, hdecode⟩

/-- Looking for items leaves a database as it was. -/
theorem backend_getItems (stamp : Stamp) (filter : Filter) (db : Database) :
    (backend stamp (.getItems filter) db).2 = db := by
  rcases backend_cases stamp (.getItems filter) db with ⟨cause, heq⟩ | heq
  · rw [heq]
  · rw [heq]
    rfl

/-- A reachable database holds the rows of the items of a sound store. -/
theorem Reachable.exists_memory (h : db.Reachable) :
    ∃ m : Memory, m.Sound ∧ db.items = Table.ofMemory m := by
  induction h with
  | migrated h => exact ⟨.empty, .empty, (ready_of_migrate h).2⟩
  | step stamp r before ih =>
    obtain ⟨m, hs, hitems⟩ := ih
    rcases backend_cases stamp r _ with ⟨cause, heq⟩ | heq
    · exact ⟨m, hs, by rw [heq, hitems]⟩
    · rw [heq, hitems]
      by_cases hknown : ∃ c, r = .addItem c ∧ m.has stamp.id = true
      · obtain ⟨c, rfl, hhas⟩ := hknown
        exact ⟨m, hs, Table.add_of_known (by rwa [Table.has_ofMemory]) c⟩
      · have fresh : ∀ c, r = .addItem c → m.has stamp.id = false := fun c hadd =>
          Bool.eq_false_iff.2 fun hhas => hknown ⟨c, hadd, hhas⟩
        exact ⟨_, hs.step stamp r fresh, Table.state_ofMemory hs r fresh⟩

/-- A row whose id and key are free is added at the end. -/
theorem backend_addItem_of_free {c : Candidate} (htable : db.tableFault? = none)
    (hfree : db.items.obstacle? (Row.ofItem (c.toItem stamp)) db.items.rows = none) :
    backend stamp (.addItem c) db = ((Row.ofItem (c.toItem stamp)).decode,
      { db with items :=
          { db.items with rows := db.items.rows ++ [Row.ofItem (c.toItem stamp)] } }) := by
  rw [backend_of_ready htable rfl, Table.backend, Table.add_eq_of_free hfree]

theorem Reachable.append (h : db.Reachable) (stamp : Stamp) (c : Candidate)
    (htable : db.tableFault? = none)
    (hfree : db.items.obstacle? (Row.ofItem (c.toItem stamp)) db.items.rows = none) :
    Reachable { db with items :=
      { db.items with rows := db.items.rows ++ [Row.ofItem (c.toItem stamp)] } } := by
  have hstep := Reachable.step stamp (.addItem c) h
  rwa [backend_addItem_of_free htable hfree] at hstep

/-- An empty database that has been migrated. -/
def initial : Database :=
  (Database.empty.migrate.1.toOption).getD .empty

theorem reachable_initial : initial.Reachable :=
  .migrated rfl

end Database

/-! ### A database with one row -/

/-- The first version of an order. -/
def order : Candidate :=
  ⟨"order", none, "1", none, none, .ofMembers [("rev", .number (.integer 1))]⟩

theorem portable_order : order.payload.Portable where
  legible := by
    have hone : Number.Legible (.integer 1) := by
      constructor <;> decide
    exact Json.legible_ofMembers (List.forall_mem_singleton.2 hone)
  shallow := by decide

/-- The database with one order. -/
def ordered : Database :=
  (Database.backend ⟨⟨1⟩, 0⟩ (.addItem order) .initial).2

theorem reachable_ordered : ordered.Reachable :=
  .step _ _ Database.reachable_initial

theorem ordered_items : ordered.items = { rows := [Row.ofItem (order.toItem ⟨⟨1⟩, 0⟩)] } := by
  rw [ordered, Database.backend_addItem_of_free rfl rfl]
  rfl

end Lineage
