/-
What a store prints can be persisted again, and nothing happens.

A printed item names its lineage and its version, and in the overwrite mode its id counts as well. No
other row of the store has that version of that lineage, so the row that the submission matches is the
one that was printed, and it has the same payload. `reimport_changes_nothing` says so for every item
of every store, in memory or in a database, and in every mode.
-/

import Lineage.Proofs.Definition.Export
import Lineage.Proofs.Service.Repetition
import Lineage.Proofs.Store.Codec

namespace Lineage

/-! ### The row that was printed -/

/-- In a sound store an item, submitted as it stands, matches itself. -/
theorem Memory.Sound.matched_toSubmission {m : Memory} {item : Item} (hs : m.Sound)
    (hitem : item ∈ m.items) (mode : Mode) :
    item.toSubmission.matched (item.toSubmission.scope mode item.definitionId m) = some item := by
  have hmine : item ∈ item.toSubmission.scope mode item.definitionId m := by
    refine List.mem_filter.2 ⟨Memory.mem_lineage.2 ⟨hitem, rfl, (hs.tenants item hitem).symm⟩, ?_⟩
    simp [Submission.mayMean, Item.toSubmission]
  have hversion : item.toSubmission.version = some item.version := rfl
  simp only [Submission.matched, hversion]
  cases hfind : (item.toSubmission.scope mode item.definitionId m).find?
      (·.version = item.version) with
  | none =>
    have hnot := List.find?_eq_none.1 hfind item hmine
    simp at hnot
  | some row =>
    have hsame : row.version = item.version := by simpa using List.find?_some hfind
    obtain ⟨hrow, hd, ht⟩ :=
      Memory.mem_lineage.1 (Memory.mem_lineage_of_scope (List.mem_of_find?_eq_some hfind))
    have htenant : row.tenantId = item.tenantId := ht.trans (hs.tenants item hitem)
    have hkey : row.key = item.key := by rw [Item.key, Item.key, hd, htenant, hsame]
    rw [hs.eq_of_key hrow hitem hkey]

/-- A candidate that leaves the matched row as it is ends the call. -/
theorem Service.settle_of_unchanged {service : Service} {mode : Mode} {c : WriteContext} {row : Item}
    (hrow : c.existing = some row) (hsame : service.comparator row c.candidate = true) :
    service.settle mode c = .inl (.ok row) := by
  rw [settle, hrow, Option.filter_some, if_pos hsame]

section Persist

variable {σ : Type} {backend : Backend σ} {stamp : Stamp} {st : σ} {m : Memory} {item : Item}

/-- A lookup in a state in which the store answers it as a store in memory does. -/
theorem effect_latestIn_of_list {α : Type} {clause : Clause}
    (hlist : backend stamp (.getItems (.single clause)) st = (.ok (m.list (.single clause)), st))
    (tenantId : Option String) (next : Option Item → Service.Call α) :
    (Service.latestIn clause tenantId next).effect backend stamp st =
      (next (latestOf ((m.items.filter (Filter.single clause).holds).filter
        (·.tenantId = tenantId)))).effect backend stamp st := by
  rw [Service.latestIn, Service.ask, Dialogue.effect_ask, hlist]
  dsimp only
  rw [Memory.list, find?_sortItems]

/-- An item that is submitted as it stands is left as it is. -/
theorem effect_persist_toSubmission (hs : m.Sound) (hitem : item ∈ m.items)
    (hlist : ∀ clause,
      backend stamp (.getItems (.single clause)) st = (.ok (m.list (.single clause)), st))
    (config : Config) (mode : Option Mode) :
    (({ config := config } : Service).persist mode item.toSubmission).effect backend stamp st =
      (.ok item, st) := by
  have hresolved : item.toSubmission.resolvedId = some item.definitionId := rfl
  have hversion : item.toSubmission.version = some item.version := rfl
  have hmatched := hs.matched_toSubmission hitem (mode.getD config.defaultMode)
  simp only [Service.persist, hresolved, Service.persistAs, Submission.toCandidate]
  rw [effect_latestIn_of_list (hlist _), filter_lookup, ← Submission.matched_eq, hmatched, hversion]
  -- A version is named, so the latest row is looked up as well before the payloads are compared.
  dsimp only
  rw [effect_latestIn_of_list (hlist _), effect_reconcile,
    Service.settle_of_unchanged rfl item.payload.equal_self]
  rfl

end Persist

/-! ### Payloads that come back -/

/-- Payloads with the same texts make the same rows. -/
theorem Memory.Sound.exists_portable {m : Memory} (hs : m.Sound)
    (hp : ∀ row ∈ (Table.ofMemory m).rows, ∃ x : Json, row.payload = x.text ∧ x.Portable) :
    ∃ m' : Memory, m'.Sound ∧ Table.ofMemory m' = Table.ofMemory m ∧
      ∀ item ∈ m'.items, item.payload.Portable := by
  have hread : ∀ item ∈ m.items, ∃ x : Json, item.payload.text = x.text ∧ x.Portable :=
    fun item hitem => hp (Row.ofItem item) (List.mem_map_of_mem hitem)
  choose! read htext hportable using hread
  refine ⟨⟨m.items.map fun item => { item with payload := read item }⟩, ⟨?_, ?_, ?_⟩, ?_, ?_⟩
  · rw [List.map_map]
    exact hs.ids
  · rw [List.map_map]
    exact hs.keys
  · exact List.forall_mem_map.2 hs.tenants
  · simp only [Table.ofMemory, List.map_map]
    congr 1
    refine List.map_congr_left fun item hitem => ?_
    simp only [Function.comp_apply, Row.ofItem, htext item hitem]
  · exact List.forall_mem_map.2 hportable

/-! ### Printing and persisting again -/

/-- What a store does with an item that it holds and that comes back to it. Each printed form of the
item reads as a submission. Whatever the mode, a persist call returns the very item, asks for no write
and leaves the store as it is. -/
def Item.Reimports {σ : Type} (item : Item) (backend : Backend σ) (st : σ) : Prop :=
  ∀ text, item.PrintedAs text → ∃ s, Json.decode Submission.decoder text = .ok s ∧
    ∀ (config : Config) (mode : Option Mode) (stamp : Stamp) (tally : Tally),
      (({ config := config } : Service).persist mode s).effect backend.tallied stamp (st, tally) =
        (.ok item, st, tally)

theorem Item.reimports_of_list {σ : Type} {backend : Backend σ} {st : σ} {m : Memory} {item : Item}
    (hs : m.Sound) (hitem : item ∈ m.items) (hp : item.payload.Portable)
    (hlist : ∀ stamp clause,
      backend stamp (.getItems (.single clause)) st = (.ok (m.list (.single clause)), st)) :
    item.Reimports backend st := by
  intro text htext
  refine ⟨item.toSubmission, decode_printed htext hp, fun config mode stamp tally => ?_⟩
  refine effect_persist_toSubmission hs hitem (fun clause => ?_) config mode
  rw [Backend.tallied, hlist]
  rfl

/-- Take any store that requests have led to, in memory or in a database, and a row of it. Its
printed form reads back as a submission, and persisting that submission changes nothing. A payload
nests one level less deep than what can be stored, since it stands in an object when it is printed. -/
theorem reimport_changes_nothing :
    (∀ m : Memory, m.Reachable → ∀ item ∈ m.items, item.payload.Portable →
      item.Reimports Memory.backend m) ∧
    ∀ db : Database, db.Reachable →
      (∀ row ∈ db.items.rows, ∃ x : Json, row.payload = x.text ∧ x.Portable) →
        ∀ row ∈ db.items.rows, ∃ item, row.decode = .ok item ∧
          item.Reimports Database.backend db := by
  constructor
  · intro m hm item hitem hp
    exact Item.reimports_of_list hm.sound hitem hp fun _ _ => rfl
  · intro db hdb hp row hrow
    obtain ⟨m, hs, hitems⟩ := hdb.exists_memory
    obtain ⟨m', hs', hsame, hp'⟩ := hs.exists_portable (by rwa [hitems] at hp)
    rw [hitems, ← hsame] at hrow
    obtain ⟨item, hitem, rfl⟩ := List.mem_map.1 hrow
    refine ⟨item, Row.decode_ofItem (hp' item hitem).storable, ?_⟩
    refine Item.reimports_of_list hs' hitem (hp' item hitem) fun stamp clause => ?_
    have hlist := Table.list_ofMemory (fun item hm => (hp' item hm).storable) (.single clause)
    rw [Database.backend_of_ready hdb.ready.1 (Database.statementFault?_single clause),
      Table.backend, hitems, ← hsame, hlist, hsame, ← hitems]

/-- The order, printed over many lines and overwritten with what was printed, stays as it is in the
database; and so does the first of two versions in memory, printed on one line. -/
theorem reimport_order :
    (∃ s, Json.decode Submission.decoder (order.toItem ⟨⟨1⟩, 0⟩).toJson.pretty = .ok s ∧
      (Service.persist {} (some .overwrite) s).effect Database.backend.tallied ⟨⟨2⟩, 9⟩
        (ordered, {}) = (.ok (order.toItem ⟨⟨1⟩, 0⟩), ordered, {})) ∧
    ∃ item ∈ Memory.twoVersions.items, ∃ s,
      Json.decode Submission.decoder (Json.object item.members).text = .ok s ∧
        (Service.persist {} none s).effect Memory.backend.tallied ⟨⟨2⟩, 9⟩
          (Memory.twoVersions, {}) = (.ok item, Memory.twoVersions, {}) := by
  obtain ⟨hmemory, hdatabase⟩ := reimport_changes_nothing
  constructor
  · have hrow : Row.ofItem (order.toItem ⟨⟨1⟩, 0⟩) ∈ ordered.items.rows := by
      rw [ordered_items]
      exact List.mem_singleton_self _
    have hp : ∀ row ∈ ordered.items.rows, ∃ x : Json, row.payload = x.text ∧ x.Portable := by
      rw [ordered_items]
      exact List.forall_mem_singleton.2 ⟨order.payload, rfl, portable_order⟩
    obtain ⟨item, hdecode, hitem⟩ := hdatabase ordered reachable_ordered hp _ hrow
    rw [Row.decode_ofItem portable_order.storable] at hdecode
    cases hdecode
    obtain ⟨s, hs, hpersist⟩ := hitem _ (.lines .names)
    exact ⟨s, hs, hpersist {} (some .overwrite) ⟨⟨2⟩, 9⟩ {}⟩
  · have hp : (Json.bool true).Portable := ⟨trivial, by decide⟩
    have hitem := hmemory Memory.twoVersions Memory.reachable_twoVersions _ List.mem_cons_self hp
    obtain ⟨s, hs, hpersist⟩ := hitem _ (.line .fields)
    exact ⟨_, List.mem_cons_self, s, hs, hpersist {} none ⟨⟨2⟩, 9⟩ {}⟩

end Lineage
