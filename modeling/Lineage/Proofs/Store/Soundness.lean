/-
What every store in memory keeps.

Ids are pairwise different, and so are the triples of definition id, tenant and version; every
stored tenant is normalized. `Change` says what a call can do to a store: it changes nothing, adds
one item, puts one in the place of another, or removes some.
-/

import Mathlib.Data.List.Nodup
import Lineage.Store.Memory

namespace Lineage

/-- What no two items of a store share. -/
def Item.key (item : Item) : String × Option String × String :=
  (item.definitionId, item.tenantId, item.version)

theorem Item.occupies_iff {item : Item} {d v : String} {t : Option String} :
    item.occupies d t v = true ↔ item.key = (d, t, v) := by
  simp [Item.occupies, Item.key, and_assoc]

@[simp] theorem Candidate.toItem_id (c : Candidate) (stamp : Stamp) :
    (c.toItem stamp).id = stamp.id := rfl

@[simp] theorem Item.replacing_id (item stored : Item) (now : Int64) :
    (item.replacing stored now).id = item.id := rfl

namespace Memory

/-- The store with an item in the place of the one with its id. -/
def put (m : Memory) (item : Item) : Memory :=
  ⟨m.items.map fun other => if other.id = item.id then item else other⟩

/-- What every store in memory keeps. -/
structure Sound (m : Memory) : Prop where
  ids : (m.items.map Item.id).Nodup
  keys : (m.items.map Item.key).Nodup
  tenants : ∀ item ∈ m.items, normalizeTenant item.tenantId = item.tenantId

/-- The stores that calls lead to from the empty one, when each added item gets an id that no item
has. -/
inductive Reachable : Memory → Prop where
  | empty : Reachable .empty
  | step {m : Memory} (stamp : Stamp) (r : Request) (before : Reachable m)
      (fresh : ∀ c, r = .addItem c → m.has stamp.id = false) : Reachable (backend stamp r m).2

variable {m : Memory} {stamp : Stamp} {now : Int64} {c : Candidate} {item stored other : Item}

theorem has_eq_false_iff {id : Uuid} : m.has id = false ↔ ∀ item ∈ m.items, item.id ≠ id := by
  simp [has]

/-! ### Writes -/

theorem add_of_free (h : ∀ other ∈ m.items, other.key ≠ (c.toItem stamp).key) :
    m.add stamp c = (.ok (c.toItem stamp), ⟨m.items ++ [c.toItem stamp]⟩) := by
  have hfree : ¬ m.items.any (·.occupies c.definitionId (c.toItem stamp).tenantId c.version) = true := by
    simp only [List.any_eq_true, not_exists, not_and, Item.occupies_iff]
    exact h
  simp only [add]
  rw [if_neg hfree]

theorem add_of_taken (h : ∃ other ∈ m.items, other.key = (c.toItem stamp).key) :
    m.add stamp c =
      (.error (.versionTaken c.definitionId (normalizeTenant c.tenantId) c.version), m) := by
  have htaken : m.items.any (·.occupies c.definitionId (c.toItem stamp).tenantId c.version) = true := by
    simp only [List.any_eq_true, Item.occupies_iff]
    exact h
  simp only [add]
  rw [if_pos htaken]
  rfl

theorem update_of_missing (h : m.has item.id = false) :
    m.update now item = (.error (.notFound item.id), m) := by
  have hnone : m.items.find? (·.id = item.id) = none := by
    simpa [List.find?_eq_none] using has_eq_false_iff.1 h
  rw [update, hnone]

theorem update_of_free (hstored : m.items.find? (·.id = item.id) = some stored)
    (h : ∀ other ∈ m.items, other.id ≠ item.id → other.key ≠ (item.replacing stored now).key) :
    m.update now item = (.ok (item.replacing stored now), m.put (item.replacing stored now)) := by
  have hfree : ¬ m.items.any (fun other => other.id ≠ item.id && other.occupies item.definitionId
      (item.replacing stored now).tenantId item.version) = true := by
    simp only [List.any_eq_true, not_exists, not_and, Bool.and_eq_true, decide_eq_true_eq,
      Item.occupies_iff]
    exact h
  simp only [update, hstored]
  rw [if_neg hfree]
  rfl

theorem update_of_taken (hstored : m.items.find? (·.id = item.id) = some stored)
    (h : ∃ other ∈ m.items, other.id ≠ item.id ∧ other.key = (item.replacing stored now).key) :
    m.update now item =
      (.error (.versionTaken item.definitionId (normalizeTenant item.tenantId) item.version), m) := by
  have htaken : m.items.any (fun other => other.id ≠ item.id && other.occupies item.definitionId
      (item.replacing stored now).tenantId item.version) = true := by
    simp only [List.any_eq_true, Bool.and_eq_true, decide_eq_true_eq, Item.occupies_iff]
    exact h
  simp only [update, hstored]
  rw [if_pos htaken]
  rfl

/-- How an addition ends. -/
theorem add_cases (m : Memory) (stamp : Stamp) (c : Candidate) :
    ((∃ other ∈ m.items, other.key = (c.toItem stamp).key) ∧ m.add stamp c =
        (.error (.versionTaken c.definitionId (normalizeTenant c.tenantId) c.version), m)) ∨
      ((∀ other ∈ m.items, other.key ≠ (c.toItem stamp).key) ∧
        m.add stamp c = (.ok (c.toItem stamp), ⟨m.items ++ [c.toItem stamp]⟩)) := by
  by_cases h : ∃ other ∈ m.items, other.key = (c.toItem stamp).key
  · exact .inl ⟨h, add_of_taken h⟩
  · have hfree : ∀ other ∈ m.items, other.key ≠ (c.toItem stamp).key := fun other hm hkey =>
      h ⟨other, hm, hkey⟩
    exact .inr ⟨hfree, add_of_free hfree⟩

/-- How an update ends. -/
theorem update_cases (m : Memory) (now : Int64) (item : Item) :
    (m.has item.id = false ∧ m.update now item = (.error (.notFound item.id), m)) ∨
      ∃ stored, m.items.find? (·.id = item.id) = some stored ∧
        (((∃ other ∈ m.items, other.id ≠ item.id ∧ other.key = (item.replacing stored now).key) ∧
            m.update now item = (.error
              (.versionTaken item.definitionId (normalizeTenant item.tenantId) item.version), m)) ∨
          ((∀ other ∈ m.items, other.id ≠ item.id →
              other.key ≠ (item.replacing stored now).key) ∧
            m.update now item =
              (.ok (item.replacing stored now), m.put (item.replacing stored now)))) := by
  cases hfind : m.items.find? (·.id = item.id) with
  | none =>
    have hmissing : m.has item.id = false := by
      simpa [has_eq_false_iff, List.find?_eq_none] using hfind
    exact .inl ⟨hmissing, update_of_missing hmissing⟩
  | some stored =>
    refine .inr ⟨stored, rfl, ?_⟩
    by_cases h : ∃ other ∈ m.items, other.id ≠ item.id ∧ other.key = (item.replacing stored now).key
    · exact .inl ⟨h, update_of_taken hfind h⟩
    · have hfree : ∀ other ∈ m.items, other.id ≠ item.id →
          other.key ≠ (item.replacing stored now).key := fun other hm hid hkey =>
        h ⟨other, hm, hid, hkey⟩
      exact .inr ⟨hfree, update_of_free hfind hfree⟩

/-! ### Sound stores -/

/-- In a sound store an item is the one with its id. -/
theorem Sound.eq_of_id (hs : m.Sound) (hi : item ∈ m.items) (ho : other ∈ m.items)
    (h : item.id = other.id) : item = other :=
  List.inj_on_of_nodup_map hs.ids hi ho h

/-- In a sound store an item is the one with its key. -/
theorem Sound.eq_of_key (hs : m.Sound) (hi : item ∈ m.items) (ho : other ∈ m.items)
    (h : item.key = other.key) : item = other :=
  List.inj_on_of_nodup_map hs.keys hi ho h

theorem Sound.find?_id (hs : m.Sound) (hm : stored ∈ m.items) :
    m.items.find? (·.id = stored.id) = some stored := by
  cases h : m.items.find? (·.id = stored.id) with
  | none =>
    have hne := List.find?_eq_none.1 h stored hm
    simp at hne
  | some found =>
    have hid : found.id = stored.id := by simpa using List.find?_some h
    rw [hs.eq_of_id (List.mem_of_find?_eq_some h) hm hid]

theorem mem_put (h : m.has item.id = true) :
    other ∈ (m.put item).items ↔ other = item ∨ (other ∈ m.items ∧ other.id ≠ item.id) := by
  simp only [has, List.any_eq_true, decide_eq_true_eq] at h
  obtain ⟨stored, hstored, hid⟩ := h
  simp only [put, List.mem_map]
  constructor
  · rintro ⟨old, hold, rfl⟩
    split
    · exact .inl rfl
    · next hne => exact .inr ⟨hold, hne⟩
  · rintro (rfl | ⟨hm, hne⟩)
    · exact ⟨stored, hstored, if_pos hid⟩
    · exact ⟨other, hm, if_neg hne⟩

theorem map_id_put (m : Memory) (item : Item) :
    (m.put item).items.map Item.id = m.items.map Item.id := by
  rw [put, List.map_map]
  refine List.map_congr_left fun other _ => ?_
  simp only [Function.comp_apply]
  split
  · next h => exact h.symm
  · rfl

theorem Sound.empty : Sound .empty :=
  ⟨List.nodup_nil, List.nodup_nil, fun _ h => absurd h List.not_mem_nil⟩

theorem Sound.sublist (hs : m.Sound) {kept : List Item} (h : kept.Sublist m.items) :
    Sound ⟨kept⟩ where
  ids := hs.ids.sublist (h.map _)
  keys := hs.keys.sublist (h.map _)
  tenants := fun item hm => hs.tenants item (h.subset hm)

theorem Sound.append (hs : m.Sound) (hid : m.has item.id = false)
    (hkey : ∀ other ∈ m.items, other.key ≠ item.key)
    (htenant : normalizeTenant item.tenantId = item.tenantId) : Sound ⟨m.items ++ [item]⟩ where
  ids := by
    rw [List.map_append, List.nodup_append]
    refine ⟨hs.ids, by simp, ?_⟩
    simpa using has_eq_false_iff.1 hid
  keys := by
    rw [List.map_append, List.nodup_append]
    refine ⟨hs.keys, by simp, ?_⟩
    simpa using hkey
  tenants := by
    intro other hm
    rcases List.mem_append.1 hm with hm | hm
    · exact hs.tenants other hm
    · rw [List.mem_singleton.1 hm, htenant]

/-- Keys stay apart when one item of a list changes and its new key is not taken by another. -/
theorem nodup_keys_put {items : List Item} (hids : (items.map Item.id).Nodup)
    (hkeys : (items.map Item.key).Nodup)
    (hfree : ∀ other ∈ items, other.id ≠ item.id → other.key ≠ item.key) :
    ((items.map fun other => if other.id = item.id then item else other).map Item.key).Nodup := by
  induction items with
  | nil => exact List.nodup_nil
  | cons x xs ih =>
    rw [List.map_cons, List.nodup_cons] at hids hkeys
    rw [List.forall_mem_cons] at hfree
    rw [List.map_cons, List.map_cons, List.nodup_cons]
    refine ⟨?_, ih hids.2 hkeys.2 hfree.2⟩
    simp only [List.map_map, List.mem_map, Function.comp_apply, not_exists, not_and]
    intro y hy
    -- At most one of `x` and `y` has the id of the new item.
    have hxy : x.id ≠ y.id := fun e => hids.1 (e ▸ List.mem_map_of_mem hy)
    by_cases hx : x.id = item.id
    · have hyid : y.id ≠ item.id := fun e => hxy (hx.trans e.symm)
      rw [if_pos hx, if_neg hyid]
      exact hfree.2 y hy hyid
    · rw [if_neg hx]
      by_cases hyid : y.id = item.id
      · rw [if_pos hyid]
        exact (hfree.1 hx).symm
      · rw [if_neg hyid]
        exact fun e => hkeys.1 (e ▸ List.mem_map_of_mem hy)

theorem Sound.put (hs : m.Sound)
    (hfree : ∀ other ∈ m.items, other.id ≠ item.id → other.key ≠ item.key)
    (htenant : normalizeTenant item.tenantId = item.tenantId) : (m.put item).Sound where
  ids := by
    rw [map_id_put]
    exact hs.ids
  keys := nodup_keys_put hs.ids hs.keys hfree
  tenants := by
    intro other hm
    obtain ⟨old, hold, rfl⟩ := List.mem_map.1 hm
    split
    · exact htenant
    · exact hs.tenants old hold

/-! ### Calls -/

/-- What a call may do to a store: nothing, one addition, one replacement, or removals. -/
inductive Change (m : Memory) (stamp : Stamp) : Request → Memory → Prop where
  | none (r : Request) : Change m stamp r m
  | add (c : Candidate) (free : ∀ other ∈ m.items, other.key ≠ (c.toItem stamp).key) :
      Change m stamp (.addItem c) ⟨m.items ++ [c.toItem stamp]⟩
  | put (item stored : Item) (found : m.items.find? (·.id = item.id) = some stored)
      (free : ∀ other ∈ m.items, other.id ≠ item.id →
        other.key ≠ (item.replacing stored stamp.now).key) :
      Change m stamp (.updateItem item) (m.put (item.replacing stored stamp.now))
  | erase (id : Uuid) : Change m stamp (.deleteItem id) ⟨m.items.eraseP (·.id = id)⟩
  | drop (filter : Filter) :
      Change m stamp (.deleteItems filter) ⟨m.items.filter (!filter.holds ·)⟩

theorem change_backend (m : Memory) (stamp : Stamp) (r : Request) :
    Change m stamp r (backend stamp r m).2 := by
  cases r with
  | hasItem id => exact .none _
  | hasItems filter => exact .none _
  | getItem id => exact .none _
  | getItems filter => exact .none _
  | addItem c =>
    change Change m stamp _ (m.add stamp c).2
    rcases add_cases m stamp c with ⟨-, heq⟩ | ⟨hfree, heq⟩
    · rw [heq]
      exact .none _
    · rw [heq]
      exact .add c hfree
  | updateItem item =>
    change Change m stamp _ (m.update stamp.now item).2
    rcases update_cases m stamp.now item with
      ⟨-, heq⟩ | ⟨stored, hstored, ⟨-, heq⟩ | ⟨hfree, heq⟩⟩
    · rw [heq]
      exact .none _
    · rw [heq]
      exact .none _
    · rw [heq]
      exact .put item stored hstored hfree
  | deleteItem id =>
    change Change m stamp _ (m.delete id).2
    rw [delete]
    split
    · exact .erase id
    · exact .none _
  | deleteItems filter => exact .drop filter

/-- A change keeps a store sound when an added item gets a new id. -/
theorem Sound.of_change {m' : Memory} {r : Request} (hs : m.Sound) (change : Change m stamp r m')
    (fresh : ∀ c, r = .addItem c → m.has stamp.id = false) : m'.Sound := by
  cases change with
  | none => exact hs
  | add c free => exact hs.append (fresh c rfl) free (normalizeTenant_idem c.tenantId)
  | put item stored found free => exact hs.put free (normalizeTenant_idem item.tenantId)
  | erase id => exact hs.sublist List.eraseP_sublist
  | drop filter => exact hs.sublist List.filter_sublist

/-- A call keeps a store sound when an added item gets a new id. -/
theorem Sound.step (hs : m.Sound) (stamp : Stamp) (r : Request)
    (fresh : ∀ c, r = .addItem c → m.has stamp.id = false) : (backend stamp r m).2.Sound :=
  hs.of_change (change_backend m stamp r) fresh

theorem Reachable.sound (h : m.Reachable) : m.Sound := by
  induction h with
  | empty => exact .empty
  | step stamp r _ fresh ih => exact ih.step stamp r fresh

end Memory

end Lineage
