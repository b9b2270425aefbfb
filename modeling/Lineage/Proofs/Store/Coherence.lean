/-
The requests that name items by a filter agree with each other.

`Coherent` says of a store what its listings hold and that the other requests with filters go by
them: whether a filter has items, how many a deletion takes away, and what every listing is after
it. A store in memory is coherent without exception; one in a database is for the requests whose
condition the database takes, and it refuses the others (`stores_coherent`).
-/

import Mathlib.Data.List.Forall2
import Lineage.Proofs.Store.Codec

namespace Lineage

/-! ### Listings -/

/-- The listing of a filter: each item that satisfies it, the highest version first, and equal
versions in the order of the items. -/
structure IsListing (items : List Item) (filter : Filter) (listed : List Item) : Prop where
  perm : listed.Perm (items.filter filter.holds)
  sorted : listed.Pairwise fun a b => compareVersions a.version b.version ≠ .lt
  ties : ∀ a b, [a, b].Sublist items → filter.holds a = true → filter.holds b = true →
    compareVersions a.version b.version = .eq → [a, b].Sublist listed

/-- The items that satisfy a filter, the highest version first. -/
def listing (items : List Item) (filter : Filter) : List Item :=
  sortItems (items.filter filter.holds)

variable {items : List Item} {filter : Filter}

theorem isListing_listing (items : List Item) (filter : Filter) :
    IsListing items filter (listing items filter) where
  perm := List.mergeSort_perm _ _
  sorted := (pairwise_sortItems _).imp fun hab => by simpa [notEarlier] using hab
  ties := by
    intro a b hab ha hb htie
    have hselected : [a, b].Sublist (items.filter filter.holds) := by
      have h := hab.filter filter.holds
      rwa [List.filter_cons_of_pos ha, List.filter_cons_of_pos hb, List.filter_nil] at h
    have hle : notEarlier a b = true := by simp [notEarlier, htie]
    exact List.pair_sublist_mergeSort notEarlier_trans notEarlier_total hle hselected

@[simp] theorem isEmpty_listing :
    (listing items filter).isEmpty = (items.filter filter.holds).isEmpty :=
  (isListing_listing items filter).perm.isEmpty_eq

@[simp] theorem length_listing :
    (listing items filter).length = (items.filter filter.holds).length :=
  (isListing_listing items filter).perm.length_eq

/-- A listing after a deletion is the one before it without what was deleted. -/
theorem listing_filter (items : List Item) (p : Item → Bool) (filter : Filter) :
    listing (items.filter p) filter = (listing items filter).filter p := by
  rw [listing, listing, filter_sortItems, List.filter_comm]

/-! ### Coherence -/

/-- The requests with filters agree with each other, as far as the store takes them. `items` are
the stored items in the order in which they were added, and `listed` gives the listing of each
filter. -/
structure Coherent {σ : Type} (backend : Backend σ) (takes : Request → Prop) (items : List Item)
    (listed : Filter → List Item) (s : σ) : Prop where
  ids : (items.map Item.id).Nodup
  isListing : ∀ filter, IsListing items filter (listed filter)
  list : ∀ stamp filter, takes (.getItems filter) →
    backend stamp (.getItems filter) s = (.ok (listed filter), s)
  has : ∀ stamp filter, takes (.hasItems filter) →
    backend stamp (.hasItems filter) s = (.ok (!(listed filter).isEmpty), s)
  delete : ∀ stamp filter, takes (.deleteItems filter) → ∃ after,
    backend stamp (.deleteItems filter) s = (.ok (listed filter).length, after) ∧
      ∀ stamp other, takes (.getItems other) →
        backend stamp (.getItems other) after =
          (.ok ((listed other).filter (!filter.holds ·)), after)
  refused : ∀ stamp r, ¬ takes r → ∃ fault, backend stamp r s = (.error (.database fault), s)

/-- The number of items that a deletion takes away. -/
theorem length_sub_length_filter (items : List Item) (p : Item → Bool) :
    items.length - (items.filter (!p ·)).length = (items.filter p).length := by
  have h : items.length = (items.filter p).length + (items.filter (!p ·)).length :=
    List.length_eq_length_filter_add p
  omega

namespace Memory

theorem hasAny_eq (m : Memory) (filter : Filter) :
    m.hasAny filter = !(m.items.filter filter.holds).isEmpty := by
  rw [hasAny, Bool.eq_iff_iff]
  simp

theorem deleteAll_eq (m : Memory) (filter : Filter) :
    m.deleteAll filter =
      ((m.items.filter filter.holds).length, ⟨m.items.filter (!filter.holds ·)⟩) := by
  rw [← length_sub_length_filter]
  rfl

/-- A sound store in memory is coherent. -/
theorem Sound.coherent {m : Memory} (h : m.Sound) :
    Coherent backend (fun _ => True) m.items (listing m.items) m where
  ids := h.ids
  isListing := isListing_listing m.items
  list _ _ _ := rfl
  has _ filter _ := by
    rw [isEmpty_listing, ← hasAny_eq]
    rfl
  delete stamp filter _ := by
    refine ⟨⟨m.items.filter (!filter.holds ·)⟩, ?_, fun stamp other _ => ?_⟩
    · rw [length_listing, backend, deleteAll_eq]
    · rw [← listing_filter]
      rfl
  refused _ _ hrefused := absurd trivial hrefused

end Memory

/-! ### Tables -/

/-- A row reads as an item and has its columns. -/
structure Row.Reads (row : Row) (item : Item) : Prop where
  decode : row.decode = .ok item
  column : row.column = (Row.ofItem item).column

/-- A condition selects the rows of the items that satisfy the filter. -/
theorem Row.Reads.selects {row : Row} {item : Item} (h : row.Reads item) (filter : Filter) :
    filter.condition.selects row.column = filter.holds item := by
  rw [h.column, filter.selects_condition]

namespace Row

variable {rows : List Row}

theorem mapM_decode_eq_ok_iff :
    rows.mapM Row.decode = .ok items ↔
      List.Forall₂ (fun row item => row.decode = .ok item) rows items := by
  induction rows generalizing items with
  | nil =>
    rw [List.forall₂_nil_left_iff]
    exact ⟨fun h => (Except.ok.inj h).symm, fun h => congrArg Except.ok h.symm⟩
  | cons row rows ih =>
    rw [List.mapM_cons, List.forall₂_cons_left_iff]
    constructor
    · intro h
      cases hrow : row.decode with
      | error cause => rw [hrow] at h; cases h
      | ok item =>
        cases hrows : rows.mapM Row.decode with
        | error cause => rw [hrow, hrows] at h; cases h
        | ok rest =>
          rw [hrow, hrows] at h
          cases h
          exact ⟨item, rest, rfl, ih.1 hrows, rfl⟩
    · rintro ⟨item, rest, hrow, hrest, rfl⟩
      rw [hrow, ih.2 hrest]
      rfl

end Row

namespace Table

/-- The rows of a table read as items, in order, and have their columns. -/
def Reads (t : Table) (items : List Item) : Prop :=
  List.Forall₂ Row.Reads t.rows items

namespace Reads

variable {t : Table}

theorem select (h : t.Reads items) (filter : Filter) :
    List.Forall₂ Row.Reads (t.select filter.condition) (items.filter filter.holds) :=
  List.rel_filter (fun _ _ hrow => by simp only [hrow.selects filter]) h

theorem list (h : t.Reads items) (filter : Filter) :
    t.list filter = .ok (listing items filter) := by
  have hdecode := Row.mapM_decode_eq_ok_iff.2 ((h.select filter).imp fun _ _ hrow => hrow.decode)
  rw [Table.list, hdecode]
  rfl

theorem hasAny (h : t.Reads items) (filter : Filter) :
    t.hasAny filter = !(listing items filter).isEmpty := by
  have hempty : (t.select filter.condition).isEmpty = (items.filter filter.holds).isEmpty := by
    rw [Bool.eq_iff_iff, List.isEmpty_iff_length_eq_zero, List.isEmpty_iff_length_eq_zero,
      (h.select filter).length_eq]
  rw [Table.hasAny, isEmpty_listing, hempty]

theorem deleteAll (h : t.Reads items) (filter : Filter) :
    (t.deleteAll filter).1 = (listing items filter).length ∧
      (t.deleteAll filter).2.Reads (items.filter (!filter.holds ·)) := by
  have hkept : List.Forall₂ Row.Reads
      (t.rows.filter fun row => !filter.condition.selects row.column)
      (items.filter (!filter.holds ·)) :=
    List.rel_filter (fun _ _ hrow => by simp only [hrow.selects filter]) h
  refine ⟨?_, hkept⟩
  rw [length_listing, ← length_sub_length_filter, ← hkept.length_eq, ← h.length_eq]
  rfl

/-- The rows have the texts of the items' ids. -/
theorem map_id (h : t.Reads items) : t.rows.map Row.id = (items.map Item.id).map Uuid.text := by
  rw [List.map_map, ← List.forall₂_eq_eq_eq, List.forall₂_map_left_iff, List.forall₂_map_right_iff]
  exact h.imp fun row item hrow => Option.some.inj (congrFun hrow.column .id)

end Reads

end Table

/-! ### Databases -/

namespace Database

variable {db : Database} {stamp : Stamp}

/-- The rows of a reachable database, if all of them can be read, have the columns of the items and
different ids. -/
theorem Reachable.reads (h : db.Reachable) (hread : db.items.rows.mapM Row.decode = .ok items) :
    db.items.Reads items ∧ (items.map Item.id).Nodup := by
  obtain ⟨m, hs, hitems⟩ := h.exists_memory
  have hcanonical : ∀ row ∈ db.items.rows, ∃ id : Uuid, row.id = id.text := by
    rw [hitems]
    intro row hrow
    obtain ⟨item, -, rfl⟩ := List.mem_map.1 hrow
    exact ⟨item.id, rfl⟩
  have hreads : db.items.Reads items := by
    have hboth := (List.forall₂_and_left _ _).2 ⟨hcanonical, Row.mapM_decode_eq_ok_iff.1 hread⟩
    exact hboth.imp fun row item ⟨⟨_, hid⟩, hdecode⟩ => ⟨hdecode, Row.column_of_decode hid hdecode⟩
  refine ⟨hreads, ?_⟩
  have hids : (m.items.map Item.id).map Uuid.text = (items.map Item.id).map Uuid.text := by
    rw [← hreads.map_id, hitems, Table.ofMemory, List.map_map, List.map_map]
    rfl
  rw [← List.map_injective_iff.2 (fun _ _ => Uuid.text_inj.1) hids]
  exact hs.ids

/-- A request that is too large is turned down. -/
theorem backend_of_fault (stamp : Stamp) (db : Database) {r : Request}
    (h : statementFault? r ≠ none) :
    ∃ fault, backend stamp r db = (.error (.database fault), db) := by
  obtain ⟨fault, hfault⟩ := Option.ne_none_iff_exists'.1 h
  refine ⟨.engine fault, ?_⟩
  rw [backend, hfault]
  rfl

/-- A reachable database whose rows can all be read is coherent for the requests that it takes. -/
theorem Reachable.coherent (h : db.Reachable) (hread : db.items.rows.mapM Row.decode = .ok items) :
    Coherent backend (fun r => statementFault? r = none) items (listing items) db := by
  obtain ⟨hreads, hids⟩ := h.reads hread
  have htable := h.ready.1
  exact {
    ids := hids
    isListing := isListing_listing items
    list := fun stamp filter hsize => by
      rw [backend_of_ready htable hsize, Table.backend, hreads.list]
    has := fun stamp filter hsize => by
      rw [backend_of_ready htable hsize, Table.backend, hreads.hasAny]
    delete := fun stamp filter hsize => by
      obtain ⟨hcount, hrest⟩ := hreads.deleteAll filter
      refine ⟨{ db with items := (db.items.deleteAll filter).2 }, ?_, fun stamp other hother => ?_⟩
      · rw [backend_of_ready htable hsize, ← hcount]
        rfl
      · have hafter : tableFault? { db with items := (db.items.deleteAll filter).2 } = none :=
          htable
        rw [backend_of_ready hafter hother, Table.backend, hrest.list, listing_filter]
    refused := fun stamp r hlarge => backend_of_fault stamp db hlarge }

theorem foldl_height_le {heights : List Nat} (h : ∀ height ∈ heights, height ≤ 5) (start : Nat) :
    heights.foldl (fun height h => max height h + 1) start ≤ max start 5 + heights.length := by
  induction heights generalizing start with
  | nil => exact Nat.le_max_left start 5
  | cons height heights ih =>
    rw [List.forall_mem_cons] at h
    have hrest := ih h.2 (max start height + 1)
    rw [List.foldl_cons, List.length_cons]
    omega

/-- Each clause adds a level, and the columns of one clause add at most four. -/
theorem height_condition_le (filter : Filter) :
    filter.condition.height ≤ filter.clauses.length + 4 := by
  have hgroup : ∀ clause : Clause, Condition.groupHeight clause.comparisons ≤ 5 := fun clause => by
    have hlength := length_comparisons_le clause
    rw [Condition.groupHeight]
    omega
  obtain ⟨clauses⟩ := filter
  cases clauses with
  | nil => exact Nat.le_add_left 2 2
  | cons clause clauses =>
    have hfirst := hgroup clause
    have hrest : ∀ height ∈ (clauses.map Clause.comparisons).map Condition.groupHeight,
        height ≤ 5 := by
      simpa using fun clause _ => hgroup clause
    have hfold := foldl_height_le hrest (Condition.groupHeight clause.comparisons)
    simp only [List.length_map] at hfold
    simp only [Filter.condition, Condition.height, List.map_cons, List.length_cons]
    omega

theorem foldl_height_replicate (n start : Nat) :
    (List.replicate n 2).foldl (fun height h => max height h + 1) (start + 2) =
      n + (start + 2) := by
  induction n generalizing start with
  | zero => exact (Nat.zero_add _).symm
  | succ n ih =>
    rw [List.replicate_succ, List.foldl_cons, max_eq_left (Nat.le_add_left 2 start)]
    exact (ih (start + 1)).trans (by omega)

/-- So many clauses without keys nest as deep as there are, and one level more. -/
theorem height_condition_replicate (n : Nat) :
    (Filter.condition ⟨List.replicate (n + 1) {}⟩).height = n + 2 := by
  rw [Filter.condition, Condition.height, List.map_map, List.map_replicate, List.replicate_succ]
  exact foldl_height_replicate n 0

/-- Whether a filter of 499 clauses or more has items cannot be asked. -/
theorem statementFault?_replicate {n : Nat} (h : 498 ≤ n) :
    statementFault? (.hasItems ⟨List.replicate (n + 1) {}⟩) ≠ none := by
  have hheight := height_condition_replicate n
  have hlarge : maxHeight < 2 * (Filter.condition ⟨List.replicate (n + 1) {}⟩).height + 1 := by
    rw [hheight, maxHeight]
    omega
  rw [statementFault?, if_pos hlarge]
  exact Option.some_ne_none _

/-- A request with a filter of at most 495 clauses is not too large. -/
theorem statementFault?_of_length_le {filter : Filter} (h : filter.clauses.length ≤ 495) :
    statementFault? (.getItems filter) = none ∧ statementFault? (.hasItems filter) = none ∧
      statementFault? (.deleteItems filter) = none := by
  have hheight := height_condition_le filter
  have hsmall : ¬ maxHeight < filter.condition.height := by
    rw [maxHeight]
    omega
  have htwice : ¬ maxHeight < 2 * filter.condition.height + 1 := by
    rw [maxHeight]
    omega
  exact ⟨if_neg hsmall, if_neg htwice, if_neg hsmall⟩

end Database

/-! ### Both stores -/

/-- The requests with filters agree with each other in every reachable store: in memory for all
filters, and in a database whose rows can all be read for the filters that it takes, as it does
those of at most 495 clauses. -/
theorem stores_coherent :
    (∀ m : Memory, m.Reachable → ∃ listed,
        Coherent Memory.backend (fun _ => True) m.items listed m) ∧
      (∀ (db : Database) (items : List Item), db.Reachable →
        db.items.rows.mapM Row.decode = .ok items → ∃ listed,
          Coherent Database.backend (fun r => Database.statementFault? r = none) items listed db) ∧
      ∀ filter : Filter, filter.clauses.length ≤ 495 →
        Database.statementFault? (.getItems filter) = none ∧
          Database.statementFault? (.hasItems filter) = none ∧
            Database.statementFault? (.deleteItems filter) = none :=
  ⟨fun _ h => ⟨_, h.sound.coherent⟩, fun _ _ h hread => ⟨_, h.coherent hread⟩,
    fun _ => Database.statementFault?_of_length_le⟩

theorem mapM_decode_ordered :
    ordered.items.rows.mapM Row.decode = .ok [order.toItem ⟨⟨1⟩, 0⟩] := by
  have hrows : ordered.items.rows = [order.toItem ⟨⟨1⟩, 0⟩].map Row.ofItem := by
    rw [ordered_items]
    rfl
  rw [hrows]
  exact Row.mapM_decode (List.forall_mem_singleton.2 portable_order.storable)

/-- An item of the global scope. -/
def variant (id : Uuid) (definitionId version : String) : Item :=
  ⟨id, definitionId, none, version, none, none, order.payload, 0, 0⟩

/-- Items of two lineages. The first and the third one have the same version. -/
def variants : List Item :=
  [variant ⟨1⟩ "order" "2", variant ⟨2⟩ "menu" "10", variant ⟨3⟩ "menu" "2.0",
    variant ⟨4⟩ "order" "1.9"]

/-- The database with their rows. -/
def assorted : Database :=
  { Database.initial with items := { rows := variants.map Row.ofItem } }

theorem reachable_assorted : assorted.Reachable := by
  have hone := Database.reachable_initial.append ⟨⟨1⟩, 0⟩
    ⟨"order", none, "2", none, none, order.payload⟩ rfl rfl
  have htwo := hone.append ⟨⟨2⟩, 0⟩ ⟨"menu", none, "10", none, none, order.payload⟩ rfl (by decide)
  have hthree := htwo.append ⟨⟨3⟩, 0⟩ ⟨"menu", none, "2.0", none, none, order.payload⟩ rfl
    (by decide)
  exact hthree.append ⟨⟨4⟩, 0⟩ ⟨"order", none, "1.9", none, none, order.payload⟩ rfl (by decide)

theorem mapM_decode_assorted : assorted.items.rows.mapM Row.decode = .ok variants := by
  apply Row.mapM_decode
  simp only [variants, List.forall_mem_cons]
  exact ⟨portable_order.storable, portable_order.storable, portable_order.storable,
    portable_order.storable, List.forall_mem_nil _⟩

theorem listing_variants :
    listing variants .all = [variant ⟨2⟩ "menu" "10", variant ⟨1⟩ "order" "2",
      variant ⟨3⟩ "menu" "2.0", variant ⟨4⟩ "order" "1.9"] := by
  have hall : variants.filter Filter.all.holds = variants := rfl
  have hnil : sortItems [] = [] := List.mergeSort_nil
  rw [listing, hall, variants, sortItems_cons, sortItems_cons, sortItems_cons, sortItems_cons, hnil]
  rfl

/-- Four items are listed by their versions, two of them in the order in which they were added, since
their versions are the same; and when one lineage is deleted, the other is left in its order. -/
theorem stores_coherent_assorted : ∃ listed,
    Coherent Database.backend (fun r => Database.statementFault? r = none) variants listed assorted ∧
    listed .all = [variant ⟨2⟩ "menu" "10", variant ⟨1⟩ "order" "2", variant ⟨3⟩ "menu" "2.0",
      variant ⟨4⟩ "order" "1.9"] ∧
    ∃ after, Database.backend ⟨⟨5⟩, 0⟩ (.deleteItems (.lineage "order" none)) assorted =
        (.ok 2, after) ∧
      Database.backend ⟨⟨6⟩, 0⟩ (.getItems .all) after =
        (.ok [variant ⟨2⟩ "menu" "10", variant ⟨3⟩ "menu" "2.0"], after) := by
  obtain ⟨listed, h⟩ := stores_coherent.2.1 assorted _ reachable_assorted mapM_decode_assorted
  have hall := (stores_coherent.2.2 .all (by decide)).1
  -- The coherent store says what it lists, and so does the table.
  have hlisted : listed .all = listing variants .all := by
    have htable := (reachable_assorted.coherent mapM_decode_assorted).list ⟨⟨6⟩, 0⟩ .all hall
    rw [h.list ⟨⟨6⟩, 0⟩ .all hall] at htable
    exact Except.ok.inj (congrArg Prod.fst htable)
  obtain ⟨after, hdelete, hlist⟩ := h.delete ⟨⟨5⟩, 0⟩ (.lineage "order" none)
    (stores_coherent.2.2 _ (by decide)).2.2
  have hcount : (listed (.lineage "order" none)).length = 2 := (h.isListing _).perm.length_eq
  have hrest := hlist ⟨⟨6⟩, 0⟩ .all hall
  rw [hcount] at hdelete
  rw [hlisted, listing_variants] at hrest
  exact ⟨listed, h, hlisted.trans listing_variants, after, hdelete, hrest⟩

/-- A database does not take every filter: whether one with 499 clauses has items, it does not
say. -/
theorem not_forall_coherent :
    ¬ ∀ (db : Database) (items : List Item), db.Reachable →
      db.items.rows.mapM Row.decode = .ok items → ∃ listed,
        Coherent Database.backend (fun _ => True) items listed db := by
  intro hall
  obtain ⟨listed, h⟩ := hall ordered _ reachable_ordered mapM_decode_ordered
  obtain ⟨fault, hfault⟩ := Database.backend_of_fault ⟨⟨2⟩, 0⟩ ordered
    (Database.statementFault?_replicate le_rfl)
  have hhas := h.has ⟨⟨2⟩, 0⟩ ⟨List.replicate (498 + 1) {}⟩ trivial
  rw [hfault] at hhas
  cases hhas

end Lineage
