/-
What the rows of a store keep.

Both kinds of store can be seen as a list of rows. `Regular` says what such rows keep at all times, and
`Endures` compares them at two times by their marks: what is left of the earlier rows stands in its old
order under its ids and creation times, and what has come in between stands after it. A change of a
store in memory is compared here with one request; runs put changes together by `Endures.trans`.
-/

import Lineage.Proofs.Store.Atomicity

namespace Lineage

/-! ### Rows at one time -/

/-- What rows keep at all times. -/
structure Regular (rows : List Row) : Prop where
  ids : (rows.map Row.id).Nodup
  keys : (rows.map fun row => (row.definitionId, row.tenantId, row.version)).Nodup
  tenants : ∀ row ∈ rows, ∀ tenantId, row.tenantId = some tenantId →
    Text.isBlankText tenantId = false
  times : ∀ row ∈ rows, ∃ created updated, row.createdAt = .millis created ∧
    row.lastUpdatedAt = .millis updated ∧ created ≤ updated

/-- The rows of the items of a store in memory. -/
def Memory.rows (m : Memory) : List Row :=
  m.items.map Row.ofItem

/-- A sound store whose items were not changed before they were added has regular rows. -/
theorem Memory.Sound.regular {m : Memory} (hs : m.Sound)
    (htimes : ∀ item ∈ m.items, item.createdAt ≤ item.lastUpdatedAt) : Regular m.rows where
  ids := by
    have hids : m.rows.map Row.id = (m.items.map Item.id).map Uuid.text := by
      simp only [Memory.rows, List.map_map, Function.comp_def, Row.ofItem_id]
    rw [hids]
    exact hs.ids.map Uuid.text_injective
  keys := by
    have hkeys : (m.rows.map fun row => (row.definitionId, row.tenantId, row.version)) =
        m.items.map Item.key := by
      rw [Memory.rows, List.map_map]
      rfl
    rw [hkeys]
    exact hs.keys
  tenants := by
    intro row hrow tenantId htenant
    obtain ⟨item, hitem, rfl⟩ := List.mem_map.1 hrow
    have hnormal : normalizeTenant (some tenantId) = some tenantId := by
      rw [← htenant]
      exact hs.tenants item hitem
    simpa [normalizeTenant, Option.filter_eq_some_iff] using hnormal
  times := by
    intro row hrow
    obtain ⟨item, hitem, rfl⟩ := List.mem_map.1 hrow
    exact ⟨item.createdAt, item.lastUpdatedAt, rfl, rfl, htimes item hitem⟩

/-! ### Rows at two times -/

/-- What a row has for as long as it is there: its id and its creation time. -/
def Row.mark (row : Row) : String × TimeCell :=
  (row.id, row.createdAt)

/-- Rows as they go on: of the earlier ones some are left, in their order and under their marks, and
later ones have been put after them. Marks are only gained and lost as it is said. -/
inductive Endures (gained lost : String × TimeCell → Prop) (before after : List Row) : Prop where
  | intro (kept added : List (String × TimeCell)) (marks_eq : after.map Row.mark = kept ++ added)
      (in_order : kept.Sublist (before.map Row.mark)) (gains : ∀ mark ∈ added, gained mark)
      (losses : ∀ mark ∈ before.map Row.mark, mark ∉ kept → lost mark)

namespace Endures

variable {gained gained' lost lost' : String × TimeCell → Prop} {rows before middle after : List Row}

theorem of_marks_eq (h : after.map Row.mark = before.map Row.mark) :
    Endures gained lost before after :=
  .intro (before.map Row.mark) [] (by rw [h, List.append_nil]) (.refl _) (List.forall_mem_nil _)
    fun _ hmark hlost => absurd hmark hlost

theorem mono (h : Endures gained lost before after) (hgained : ∀ mark, gained mark → gained' mark)
    (hlost : ∀ mark, lost mark → lost' mark) : Endures gained' lost' before after := by
  obtain ⟨kept, added, marks_eq, in_order, gains, losses⟩ := h
  exact .intro kept added marks_eq in_order (fun mark hmark => hgained mark (gains mark hmark))
    fun mark hmark hkept => hlost mark (losses mark hmark hkept)

/-- What goes on from a first time to a second one and from there to a third one goes on from the
first one to the third one. -/
theorem trans (h : Endures gained lost before middle) (h' : Endures gained lost middle after)
    (hmiddle : (middle.map Row.mark).Nodup) : Endures gained lost before after := by
  obtain ⟨kept, added, marks_eq, in_order, gains, losses⟩ := h
  obtain ⟨kept', added', marks_eq', in_order', gains', losses'⟩ := h'
  rw [marks_eq] at in_order' losses' hmiddle
  obtain ⟨old, new, rfl, hold, hnew⟩ := List.sublist_append_iff.1 in_order'
  refine .intro old (new ++ added') (by rw [marks_eq', List.append_assoc]) (hold.trans in_order) ?_ ?_
  · exact List.forall_mem_append.2 ⟨fun mark hmark => gains mark (hnew.subset hmark), gains'⟩
  · intro mark hmark hout
    by_cases hkept : mark ∈ kept
    · -- A mark that was kept until the second time is none of those that came in until then.
      refine losses' mark (List.mem_append_left _ hkept) fun hin => ?_
      rcases List.mem_append.1 hin with hin | hin
      · exact hout hin
      · exact (List.nodup_append.1 hmiddle).2.2 mark hkept mark (hnew.subset hin) rfl
    · exact losses mark hmark hkept

end Endures

/-! ### One change -/

/-- Whether a request deletes a row. -/
def Request.erases : Request → Row → Bool
  | .deleteItem id, row => row.id = id.text
  | .deleteItems filter, row => filter.condition.selects row.column
  | _, _ => false

namespace Memory

variable {m m' : Memory} {stamp : Stamp} {r : Request} {item : Item}

theorem Sound.nodup_marks (hs : m.Sound) : (m.rows.map Row.mark).Nodup := by
  have hids : (m.rows.map Row.mark).map Prod.fst = (m.items.map Item.id).map Uuid.text := by
    simp only [rows, List.map_map]
    rfl
  refine List.Nodup.of_map Prod.fst ?_
  rw [hids]
  exact hs.ids.map Uuid.text_injective

/-- To put an item in the place of a row of its id and its creation time leaves all marks. -/
theorem Sound.marks_put {stored : Item} (hs : m.Sound) (hstored : stored ∈ m.items)
    (hid : item.id = stored.id) (htime : item.createdAt = stored.createdAt) :
    (m.put item).rows.map Row.mark = m.rows.map Row.mark := by
  simp only [rows, Memory.put, List.map_map]
  refine List.map_congr_left fun other hother => ?_
  simp only [Function.comp_apply]
  split
  · next h =>
    rw [hs.eq_of_id hother hstored (h.trans hid)]
    simp only [Row.mark, Row.ofItem, hid, htime]
  · rfl

/-- Rows that are left when some are taken out. -/
theorem endures_filter {gained lost : String × TimeCell → Prop} (keeps : Item → Bool)
    (hlost : ∀ item ∈ m.items, keeps item = false → lost (Row.ofItem item).mark) :
    Endures gained lost m.rows (rows ⟨m.items.filter keeps⟩) := by
  refine .intro _ [] (List.append_nil _).symm ((List.filter_sublist.map _).map _)
    (List.forall_mem_nil _) ?_
  intro mark hmark hkept
  simp only [rows, List.map_map, List.mem_map, Function.comp_apply] at hmark
  obtain ⟨item, hitem, rfl⟩ := hmark
  refine hlost item hitem ?_
  by_contra hkeeps
  rw [Bool.not_eq_false] at hkeeps
  exact hkept (List.mem_map_of_mem (List.mem_map_of_mem (List.mem_filter.2 ⟨hitem, hkeeps⟩)))

/-- Rows go on when a store changes: a row is added under the fresh id and the time, or rows are lost
that the request deletes. -/
theorem Change.endures (change : Change m stamp r m') (hs : m.Sound) :
    Endures (fun mark => (∃ c, r = .addItem c) ∧ mark = (stamp.id.text, .millis stamp.now))
      (fun mark => ∃ row ∈ m.rows, row.mark = mark ∧ r.erases row = true) m.rows m'.rows := by
  cases change with
  | none => exact .of_marks_eq rfl
  | add c free =>
    refine .intro (m.rows.map Row.mark) [(stamp.id.text, .millis stamp.now)] ?_ (.refl _) ?_ ?_
    · simp only [rows, List.map_append]
      rfl
    · exact List.forall_mem_singleton.2 ⟨⟨c, rfl⟩, rfl⟩
    · exact fun mark hmark hlost => absurd hmark hlost
  | put item stored found free =>
    have hid : stored.id = item.id := by simpa using List.find?_some found
    exact .of_marks_eq (hs.marks_put (List.mem_of_find?_eq_some found) hid.symm rfl)
  | erase id =>
    rw [eraseP_id hs.ids]
    refine endures_filter _ fun item hitem hkeeps => ?_
    refine ⟨Row.ofItem item, List.mem_map_of_mem hitem, rfl, ?_⟩
    simpa [Request.erases, Uuid.text_inj] using hkeeps
  | drop filter =>
    refine endures_filter _ fun item hitem hkeeps => ?_
    refine ⟨Row.ofItem item, List.mem_map_of_mem hitem, rfl, ?_⟩
    rw [Request.erases, Filter.selects_condition]
    simpa using hkeeps

/-- An item of a changed store was created now, or it was created when an item of the store was. -/
theorem Change.createdAt (change : Change m stamp r m') (hitem : item ∈ m'.items) :
    item.createdAt = stamp.now ∨ ∃ old ∈ m.items, item.createdAt = old.createdAt := by
  cases change with
  | none => exact .inr ⟨item, hitem, rfl⟩
  | add c free =>
    rcases List.mem_append.1 hitem with hold | hnew
    · exact .inr ⟨item, hold, rfl⟩
    · rw [List.mem_singleton.1 hnew]
      exact .inl rfl
  | put updated stored found free =>
    obtain ⟨other, hother, rfl⟩ := List.mem_map.1 hitem
    split
    · exact .inr ⟨stored, List.mem_of_find?_eq_some found, rfl⟩
    · exact .inr ⟨other, hother, rfl⟩
  | erase id => exact .inr ⟨item, List.mem_of_mem_eraseP hitem, rfl⟩
  | drop filter => exact .inr ⟨item, List.mem_of_mem_filter hitem, rfl⟩

/-- As long as the clock does not go back, no item was changed before it was added. -/
theorem Change.times (change : Change m stamp r m')
    (htimes : ∀ item ∈ m.items, item.createdAt ≤ item.lastUpdatedAt)
    (hpassed : ∀ item ∈ m.items, item.createdAt ≤ stamp.now) :
    ∀ item ∈ m'.items, item.createdAt ≤ item.lastUpdatedAt := by
  cases change with
  | none => exact htimes
  | add c free =>
    exact List.forall_mem_append.2
      ⟨htimes, List.forall_mem_singleton.2 (Int64.le_refl stamp.now)⟩
  | put updated stored found free =>
    intro item hitem
    obtain ⟨other, hother, rfl⟩ := List.mem_map.1 hitem
    split
    · exact hpassed stored (List.mem_of_find?_eq_some found)
    · exact htimes other hother
  | erase id => exact fun item hitem => htimes item (List.mem_of_mem_eraseP hitem)
  | drop filter => exact fun item hitem => htimes item (List.mem_of_mem_filter hitem)

end Memory

end Lineage
