/-
What is written to a row is read back from it.

A write turns an item into a row of texts, and a lookup turns the row into an item again.
`reads_back` says that this loses nothing, whatever texts the item has and whatever else the database
holds: for every payload that can be stored as a text, an addition or an update is refused for a reason
or a lookup by the id finds what was submitted.
-/

import Lineage.Proofs.Store.Atomicity

namespace Lineage

/-! ### What is submitted -/

/-- What an item says besides its id and its times. -/
def Item.toCandidate (item : Item) : Candidate where
  definitionId := item.definitionId
  tenantId := item.tenantId
  version := item.version
  name := item.name
  purpose := item.purpose
  payload := item.payload

/-- Whether an item says what a candidate says. A blank tenant counts as none. -/
structure Item.Carries (item : Item) (c : Candidate) : Prop where
  definitionId : item.definitionId = c.definitionId
  tenantId : item.tenantId = normalizeTenant c.tenantId
  version : item.version = c.version
  name : item.name = c.name
  purpose : item.purpose = c.purpose
  payload : item.payload = c.payload

/-- The key of the row that a candidate gets. -/
def Candidate.rowKey (c : Candidate) : String × String × String :=
  (c.definitionId, (normalizeTenant c.tenantId).getD "", c.version)

theorem Candidate.carries_toItem (c : Candidate) (stamp : Stamp) : (c.toItem stamp).Carries c :=
  ⟨rfl, rfl, rfl, rfl, rfl, rfl⟩

theorem Item.carries_replacing (item stored : Item) (now : Int64) :
    (item.replacing stored now).Carries item.toCandidate :=
  ⟨rfl, rfl, rfl, rfl, rfl, rfl⟩

/-! ### Tables -/

namespace Table

variable {t : Table} {stamp : Stamp} {now : Int64} {row stored : Row} {others : List Row}
  {c : Candidate} {item : Item}

/-- The row that takes the place of a stored row is the row of an item. -/
theorem replacing_eq_ofItem {created : Int64} (hid : stored.id = item.id.text)
    (hcreated : stored.createdAt = .millis created) :
    replacing item stored now =
      Row.ofItem (item.replacing { item with createdAt := created } now) := by
  simp only [replacing, Row.ofItem, Item.replacing, hid, hcreated]

/-- A table that takes writes takes each row whose id and key are free. -/
theorem obstacle?_eq_none (hwrites : t.refusesWrites = false)
    (hids : ∀ other ∈ others, other.id ≠ row.id) (hkeys : ∀ other ∈ others, other.key ≠ row.key) :
    t.obstacle? row others = none := by
  rw [obstacle?, hwrites, if_neg Bool.false_ne_true, if_neg (by simpa using hids),
    if_neg (by simpa using hkeys)]

/-- An addition is refused for its id or its key, or the new row reads as what was submitted. -/
theorem add_reads_back (hwrites : t.refusesWrites = false) (hc : c.payload.Storable) :
    ((t.has stamp.id = true ∨ ∃ row ∈ t.rows, row.key = c.rowKey) ∧
        ∃ cause, t.add stamp c = (.error cause, t)) ∨
      ∃ after, t.add stamp c = (.ok (c.toItem stamp), after) ∧
        after.get stamp.id = .ok (c.toItem stamp) := by
  cases hobstacle : t.obstacle? (Row.ofItem (c.toItem stamp)) t.rows with
  | some cause =>
    refine .inl ⟨?_, cause, add_of_taken hobstacle⟩
    by_contra hfree
    rw [not_or, Bool.not_eq_true] at hfree
    have hnone : t.obstacle? (Row.ofItem (c.toItem stamp)) t.rows = none :=
      obstacle?_eq_none hwrites (by simpa [has] using hfree.1)
        fun other hother hkey => hfree.2 ⟨other, hother, hkey⟩
    rw [hnone] at hobstacle
    cases hobstacle
  | none =>
    have hread : (Row.ofItem (c.toItem stamp)).decode = .ok (c.toItem stamp) := Row.decode_ofItem hc
    -- An addition answers with what a lookup by the id finds afterwards.
    have hadd := add_eq_of_free hobstacle
    have hget := congrArg Prod.fst ((add_of_free hobstacle).symm.trans hadd)
    rw [hread] at hadd hget
    exact .inr ⟨_, hadd, hget⟩

/-- An update is refused for want of its row or for its key, or the row reads as what was submitted. -/
theorem update_reads_back (hwrites : t.refusesWrites = false) (ht : t.Timed)
    (hitem : item.payload.Storable) :
    ((t.has item.id = false ∨
          ∃ row ∈ t.rows, row.id ≠ item.id.text ∧ row.key = item.toCandidate.rowKey) ∧
        ∃ cause, t.update now item = (.error cause, t)) ∨
      ∃ stored after, t.update now item = (.ok (item.replacing stored now), after) ∧
        after.get item.id = .ok (item.replacing stored now) := by
  cases hfind : t.rows.find? (·.id = item.id.text) with
  | none =>
    have hmissing : t.has item.id = false := by
      simpa [has, List.find?_eq_none] using hfind
    exact .inl ⟨.inl hmissing, _, update_of_missing hfind⟩
  | some stored =>
    have hid : stored.id = item.id.text := by simpa using List.find?_some hfind
    cases hobstacle : t.obstacle? (replacing item stored now)
        (t.rows.filter (·.id ≠ stored.id)) with
    | some cause =>
      refine .inl ⟨.inr ?_, cause, update_of_taken hfind hobstacle⟩
      by_contra hfree
      have hothers : ∀ other ∈ t.rows.filter (·.id ≠ stored.id),
          other ∈ t.rows ∧ other.id ≠ stored.id := by
        intro other hother
        simpa using List.mem_filter.1 hother
      have hnone : t.obstacle? (replacing item stored now)
          (t.rows.filter (·.id ≠ stored.id)) = none := by
        refine obstacle?_eq_none hwrites (fun other hother => (hothers other hother).2) ?_
        intro other hother hkey
        exact hfree ⟨other, (hothers other hother).1, hid ▸ (hothers other hother).2, hkey⟩
      rw [hnone] at hobstacle
      cases hobstacle
    | none =>
      obtain ⟨created, hcreated⟩ := ht stored (List.mem_of_find?_eq_some hfind)
      have hread : (replacing item stored now).decode =
          .ok (item.replacing { item with createdAt := created } now) := by
        rw [replacing_eq_ofItem hid hcreated]
        exact Row.decode_ofItem hitem
      have hupdate := update_eq_of_free hfind hobstacle
      have hget := congrArg Prod.fst ((update_of_free hfind hobstacle).symm.trans hupdate)
      rw [hread] at hupdate hget
      exact .inr ⟨_, _, hupdate, hget⟩

/-- No request makes a table refuse writes. -/
theorem refusesWrites_backend (stamp : Stamp) (r : Request) (t : Table) :
    (backend stamp r t).2.refusesWrites = t.refusesWrites := by
  cases r with
  | addItem c =>
    change (t.add stamp c).2.refusesWrites = _
    rcases add_cases t stamp c with ⟨cause, heq⟩ | heq <;> rw [heq]
  | updateItem item =>
    change (t.update stamp.now item).2.refusesWrites = _
    rcases update_cases t stamp.now item with ⟨cause, heq⟩ | ⟨stored, -, -, heq⟩ <;> rw [heq]
  | deleteItem id =>
    change (t.delete id).2.refusesWrites = _
    unfold delete
    split <;> rfl
  | hasItem | hasItems | getItem | getItems | deleteItems => rfl

end Table

/-! ### Databases -/

namespace Database

variable {db : Database}

/-- Requests can use the item table of a reachable database, and it takes writes. -/
theorem Reachable.ready (h : db.Reachable) :
    db.tableFault? = none ∧ db.items.refusesWrites = false := by
  induction h with
  | migrated h =>
    obtain ⟨hfault, hitems⟩ := ready_of_migrate h
    exact ⟨hfault, by rw [hitems]; rfl⟩
  | step stamp r before ih =>
    rcases backend_cases stamp r _ with ⟨cause, heq⟩ | heq
    · rw [heq]
      exact ih
    · rw [heq]
      exact ⟨ih.1, (Table.refusesWrites_backend stamp r _).trans ih.2⟩

/-- How a write ends that puts what a candidate says under an id. It is refused for a reason and leaves
the database as it was, or it answers with an item that says so, and lookups by the id find that item. -/
inductive Written (db : Database) (id : Uuid) (c : Candidate) (reason : Prop) :
    Except StoreError Item × Database → Prop where
  | refused (cause : StoreError) (because : reason) : Written db id c reason (.error cause, db)
  | stored (item : Item) (after : Database) (id_eq : item.id = id) (carries : item.Carries c)
      (found : ∀ stamp, backend stamp (.getItem id) after = (.ok item, after)) :
      Written db id c reason (.ok item, after)

/-- A write that there is no reason to refuse is done. -/
theorem Written.exists_of_not {id : Uuid} {c : Candidate} {reason : Prop}
    {outcome : Except StoreError Item × Database} (h : db.Written id c reason outcome)
    (hfree : ¬ reason) : ∃ item after, outcome = (.ok item, after) ∧ item.id = id ∧
      item.Carries c ∧ ∀ stamp, backend stamp (.getItem id) after = (.ok item, after) := by
  cases h with
  | refused cause because => exact absurd because hfree
  | stored item after id_eq carries found => exact ⟨item, after, rfl, id_eq, carries, found⟩

/-- A lookup by an id is answered by the table. -/
theorem backend_getItem {table : Table} {id : Uuid} {item : Item} (htable : db.tableFault? = none)
    (h : table.get id = .ok item) (stamp : Stamp) :
    backend stamp (.getItem id) { db with items := table } =
      (.ok item, { db with items := table }) := by
  have hready : tableFault? { db with items := table } = none := htable
  refine (backend_of_ready hready rfl).trans ?_
  rw [Table.backend, h]

end Database

/-- Take any database that requests have made out of an empty one, any payload that can be stored as a
text, and any texts besides it. An addition is refused, since its id or its key is taken, or it answers
with an item that says what was submitted; so does an update, which is refused where there is no row or
where another row has its key. A lookup by the id then finds the very item. -/
theorem reads_back {db : Database} (reachable : db.Reachable) (stamp : Stamp) :
    (∀ c : Candidate, c.payload.Storable →
      db.Written stamp.id c
        (db.items.has stamp.id = true ∨ ∃ row ∈ db.items.rows, row.key = c.rowKey)
        (Database.backend stamp (.addItem c) db)) ∧
    ∀ item : Item, item.payload.Storable →
      db.Written item.id item.toCandidate
        (db.items.has item.id = false ∨ ∃ row ∈ db.items.rows,
          row.id ≠ item.id.text ∧ row.key = item.toCandidate.rowKey)
        (Database.backend stamp (.updateItem item) db) := by
  obtain ⟨htable, hwrites⟩ := reachable.ready
  constructor
  · intro c hc
    rw [Database.backend_of_ready htable rfl, Table.backend]
    rcases Table.add_reads_back hwrites hc with ⟨htaken, cause, heq⟩ | ⟨after, heq, hget⟩
    · rw [heq]
      exact .refused cause htaken
    · rw [heq]
      exact .stored _ _ rfl (c.carries_toItem stamp) (Database.backend_getItem htable hget)
  · intro item hitem
    rw [Database.backend_of_ready htable rfl, Table.backend]
    rcases Table.update_reads_back hwrites reachable.timed hitem with
      ⟨htaken, cause, heq⟩ | ⟨stored, after, heq, hget⟩
    · rw [heq]
      exact .refused cause htaken
    · rw [heq]
      exact .stored _ _ rfl (item.carries_replacing stored stamp.now)
        (Database.backend_getItem htable hget)

/-- A payload with names and texts that have to be escaped, the integers at both ends of the range,
and containers without content. -/
def manifold : Json :=
  .ofMembers [("max", .number (.integer Json.maxSignificand)),
    ("\x00\"\\", .string "\u007f \n\t\x1f é 😀 \u2028"),
    ("min", .number (.integer (-Json.maxNegative))),
    ("", .array [.array [], .object [], .bool false, .null]),
    ("quarter", .number (.real ⟨true, ⟨1021 * Binary64.binade, by decide⟩⟩))]

theorem storable_manifold : manifold.Storable where
  legible := by
    have hmax : Number.Legible (.integer Json.maxSignificand) := by
      constructor <;> decide
    have hmin : Number.Legible (.integer (-Json.maxNegative)) := by
      constructor <;> decide
    have hquarter : Number.Legible (.real ⟨true, ⟨1021 * Binary64.binade, by decide⟩⟩) :=
      ⟨⟨true, ['0'], some ['2', '5'], none⟩, by decide +kernel, by decide +kernel⟩
    have hempty : Json.Legible (.array [.array [], .object [], .bool false, .null]) :=
      ⟨trivial, ⟨.nil, trivial⟩, trivial, trivial, trivial⟩
    refine Json.legible_ofMembers ?_
    simp only [List.forall_mem_cons]
    exact ⟨hmax, trivial, hmin, hempty, hquarter, List.forall_mem_nil _⟩
  shallow := by decide

/-- Beside the order, a second version with such a payload is added and read back; and the order is
moved to another tenant with such a payload, and read back. -/
theorem reads_back_manifold :
    let c : Candidate := ⟨"order", some "\u3000", "\x00", some "", none, manifold⟩
    let item : Item := ⟨⟨1⟩, "menu", some "acme ", "", none, some "é", manifold, 7, 8⟩
    (∃ added after, Database.backend ⟨⟨2⟩, 9⟩ (.addItem c) ordered = (.ok added, after) ∧
        added.id = ⟨2⟩ ∧ added.Carries c ∧
        ∀ stamp, Database.backend stamp (.getItem ⟨2⟩) after = (.ok added, after)) ∧
      ∃ updated after, Database.backend ⟨⟨2⟩, 9⟩ (.updateItem item) ordered = (.ok updated, after) ∧
        updated.id = ⟨1⟩ ∧ updated.Carries item.toCandidate ∧
        ∀ stamp, Database.backend stamp (.getItem ⟨1⟩) after = (.ok updated, after) := by
  intro c item
  obtain ⟨hadd, hupdate⟩ :=
    reads_back (.step ⟨⟨1⟩, 0⟩ (.addItem order) Database.reachable_initial) ⟨⟨2⟩, 9⟩
  constructor
  · refine (hadd c storable_manifold).exists_of_not ?_
    rw [← ordered, ordered_items]
    decide
  · refine (hupdate item storable_manifold).exists_of_not ?_
    rw [← ordered, ordered_items]
    decide

end Lineage
