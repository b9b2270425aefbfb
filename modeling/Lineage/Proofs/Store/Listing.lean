/-
The first entry of a listing.

Of the items that satisfy a condition, a listing puts that one first that was added first among
those which no other exceeds. `latestOf` says so without sorting.
-/

import Mathlib.Data.List.Basic
import Lineage.Proofs.Version.Order
import Lineage.Store.Request

namespace Lineage

/-- The earliest of the items whose version no other exceeds. -/
def latestOf (items : List Item) : Option Item :=
  items.find? fun item => items.all fun other => compareVersions item.version other.version != .lt

/-! ### The latest item by its place -/

/-- An item that exceeds all before it and is not exceeded by those after it. -/
def IsLatest (items : List Item) (item : Item) : Prop :=
  ∃ before after, items = before ++ item :: after ∧
    (∀ other ∈ before, compareVersions other.version item.version = .lt) ∧
    ∀ other ∈ after, compareVersions item.version other.version ≠ .lt

variable {items : List Item} {item other : Item}

theorem IsLatest.mem (h : IsLatest items item) : item ∈ items := by
  obtain ⟨before, after, rfl, -, -⟩ := h
  simp

theorem IsLatest.isLE (h : IsLatest items item) (hm : other ∈ items) :
    (compareVersions other.version item.version).isLE := by
  obtain ⟨before, after, rfl, hbefore, hafter⟩ := h
  rw [List.mem_append, List.mem_cons] at hm
  rcases hm with hm | rfl | hm
  · rw [hbefore other hm]
    rfl
  · rw [compareVersions_self]
    rfl
  · have hge := hafter other hm
    have hswap : compareVersions item.version other.version =
        (compareVersions other.version item.version).swap := Std.OrientedCmp.eq_swap
    rw [hswap] at hge
    cases hc : compareVersions other.version item.version <;> simp_all

theorem IsLatest.latestOf_eq (h : IsLatest items item) : latestOf items = some item := by
  obtain ⟨before, after, hsplit, hbefore, -⟩ := id h
  have htop : items.all (fun other => compareVersions item.version other.version != .lt) = true := by
    rw [List.all_eq_true]
    intro other hm
    have hle := Std.OrientedCmp.not_lt_of_isLE (h.isLE hm)
    simpa using hle
  rw [latestOf, hsplit, List.find?_append, List.find?_eq_none.2, Option.none_or, List.find?_cons,
    ← hsplit, htop]
  -- What stands before the item is exceeded by it.
  intro other hm hall
  rw [List.all_eq_true] at hall
  have hle := hall item (by simp)
  simp [hbefore other hm] at hle

theorem isLatest_cons_of_lt (h : IsLatest items item)
    (hlt : compareVersions other.version item.version = .lt) : IsLatest (other :: items) item := by
  obtain ⟨before, after, rfl, hbefore, hafter⟩ := h
  exact ⟨other :: before, after, rfl, List.forall_mem_cons.2 ⟨hlt, hbefore⟩, hafter⟩

theorem isLatest_cons_self (h : IsLatest items item)
    (hge : compareVersions other.version item.version ≠ .lt) : IsLatest (other :: items) other := by
  refine ⟨[], items, rfl, by simp, fun y hy hlt => hge ?_⟩
  exact Std.TransCmp.lt_of_lt_of_isLE hlt (h.isLE hy)

/-- Every nonempty list has a latest item. -/
theorem exists_isLatest (hne : items ≠ []) : ∃ item, IsLatest items item := by
  induction items with
  | nil => exact absurd rfl hne
  | cons x xs ih =>
    cases xs with
    | nil => exact ⟨x, [], [], rfl, by simp, by simp⟩
    | cons y ys =>
      obtain ⟨item, h⟩ := ih (List.cons_ne_nil y ys)
      by_cases hlt : compareVersions x.version item.version = .lt
      · exact ⟨item, isLatest_cons_of_lt h hlt⟩
      · exact ⟨x, isLatest_cons_self h hlt⟩

theorem isLatest_of_latestOf (h : latestOf items = some item) : IsLatest items item := by
  have hne : items ≠ [] := by
    rintro rfl
    cases h
  obtain ⟨top, htop⟩ := exists_isLatest hne
  rw [htop.latestOf_eq] at h
  cases h
  exact htop

theorem latestOf_eq_none_iff : latestOf items = none ↔ items = [] := by
  constructor
  · intro h
    cases items with
    | nil => rfl
    | cons x xs =>
      obtain ⟨item, hitem⟩ := exists_isLatest (List.cons_ne_nil x xs)
      rw [hitem.latestOf_eq] at h
      cases h
  · rintro rfl
    rfl

/-- The only item of a list is its latest one, however often it stands there. -/
theorem latestOf_of_forall_eq (hne : items ≠ []) (h : ∀ other ∈ items, other = item) :
    latestOf items = some item := by
  obtain ⟨top, htop⟩ := exists_isLatest hne
  rw [htop.latestOf_eq, h top htop.mem]

/-- An item that exceeds all others is the latest one when it is added to them. -/
theorem latestOf_concat (h : ∀ other ∈ items, compareVersions other.version item.version = .lt) :
    latestOf (items ++ [item]) = some item :=
  IsLatest.latestOf_eq ⟨items, [], rfl, h, by simp⟩

theorem IsLatest.map {f : Item → Item} (h : IsLatest items item)
    (hf : ∀ other ∈ items, (f other).version = other.version) :
    IsLatest (items.map f) (f item) := by
  obtain ⟨before, after, rfl, hbefore, hafter⟩ := h
  have hitem : (f item).version = item.version := hf item (by simp)
  refine ⟨before.map f, after.map f, by simp, ?_, ?_⟩
  · intro y hy
    obtain ⟨x, hx, rfl⟩ := List.mem_map.1 hy
    rw [hf x (by simp [hx]), hitem]
    exact hbefore x hx
  · intro y hy
    obtain ⟨x, hx, rfl⟩ := List.mem_map.1 hy
    rw [hf x (by simp [hx]), hitem]
    exact hafter x hx

/-- A change that leaves the versions as they are leaves the latest item where it is. -/
theorem latestOf_map {f : Item → Item} (hf : ∀ other ∈ items, (f other).version = other.version) :
    latestOf (items.map f) = (latestOf items).map f := by
  cases h : latestOf items with
  | none => rw [latestOf_eq_none_iff.1 h, List.map_nil, latestOf_eq_none_iff.2 rfl, Option.map_none]
  | some item => exact ((isLatest_of_latestOf h).map hf).latestOf_eq

/-! ### Sorting -/

/-- The order in which listings are sorted. -/
def notEarlier (a b : Item) : Bool :=
  compareVersions a.version b.version != .lt

theorem notEarlier_trans (a b c : Item) (hab : notEarlier a b = true) (hbc : notEarlier b c = true) :
    notEarlier a c = true := by
  simp only [notEarlier, bne_iff_ne, ne_eq] at hab hbc ⊢
  intro hac
  by_cases hle : (compareVersions b.version a.version).isLE
  · exact hbc (Std.TransCmp.lt_of_isLE_of_lt hle hac)
  · exact hab (Std.OrientedCmp.lt_of_not_isLE hle)

theorem notEarlier_total (a b : Item) : (notEarlier a b || notEarlier b a) = true := by
  simp only [notEarlier, Bool.or_eq_true, bne_iff_ne, ne_eq]
  by_cases hab : compareVersions a.version b.version = .lt
  · exact .inr (Std.OrientedCmp.not_lt_of_lt hab)
  · exact .inl hab

theorem sortItems_eq (items : List Item) : sortItems items = items.mergeSort notEarlier := rfl

theorem pairwise_sortItems (items : List Item) :
    (sortItems items).Pairwise fun a b => notEarlier a b = true :=
  List.pairwise_mergeSort notEarlier_trans notEarlier_total items

@[simp] theorem mem_sortItems : item ∈ sortItems items ↔ item ∈ items :=
  List.mem_mergeSort

/-- An item is sorted in behind those that exceed it. -/
theorem sortItems_cons (item : Item) (items : List Item) :
    sortItems (item :: items) = (sortItems items).filter (!notEarlier item ·) ++
      item :: (sortItems items).filter (notEarlier item ·) := by
  obtain ⟨above, rest, hcons, hsorted, habove⟩ :=
    List.mergeSort_cons notEarlier_trans notEarlier_total item items
  have hpairwise := pairwise_sortItems (item :: items)
  rw [sortItems_eq, hcons, List.pairwise_append, List.pairwise_cons] at hpairwise
  have hrest : ∀ other ∈ rest, notEarlier item other = true := hpairwise.2.1.1
  have habove' : ∀ other ∈ above, notEarlier item other = false := fun other hm => by
    simpa using habove other hm
  rw [sortItems_eq, hcons, sortItems_eq, hsorted, List.filter_append, List.filter_append,
    List.filter_eq_self.2 habove, List.filter_eq_nil_iff.2 (by simpa using hrest),
    List.filter_eq_nil_iff.2 (by simpa using habove'), List.filter_eq_self.2 hrest,
    List.append_nil, List.nil_append]

/-- It is the same to sort first or to select first. -/
theorem filter_sortItems (p : Item → Bool) (items : List Item) :
    (sortItems items).filter p = sortItems (items.filter p) := by
  induction items with
  | nil => simp [sortItems_eq]
  | cons item items ih =>
    by_cases hp : p item = true
    · rw [List.filter_cons_of_pos hp, sortItems_cons, sortItems_cons, List.filter_append,
        List.filter_cons_of_pos hp, List.filter_comm p, List.filter_comm p, ih]
    · obtain ⟨above, rest, hcons, hsorted, -⟩ :=
        List.mergeSort_cons notEarlier_trans notEarlier_total item items
      rw [List.filter_cons_of_neg hp, ← ih, sortItems_eq, sortItems_eq, hcons, hsorted,
        List.filter_append, List.filter_append, List.filter_cons_of_neg hp]

/-- The first entry of a listing that satisfies a condition is the latest item that does. -/
theorem find?_sortItems (p : Item → Bool) (items : List Item) :
    (sortItems items).find? p = latestOf (items.filter p) := by
  -- The sort puts each item right before those that were added later and do not exceed it.
  induction items with
  | nil => simp [sortItems_eq, latestOf]
  | cons x xs ih =>
    obtain ⟨l₁, l₂, hx, hxs, hless⟩ := List.mergeSort_cons notEarlier_trans notEarlier_total x xs
    rw [sortItems_eq, hxs] at ih
    rw [sortItems_eq, hx, List.find?_append, List.find?_cons]
    rw [List.find?_append] at ih
    cases hp : p x with
    | false => simp [hp, ih]
    | true =>
      rw [List.filter_cons_of_pos hp]
      cases hfirst : l₁.find? p with
      | some y =>
        have hlt := hless y (List.mem_of_find?_eq_some hfirst)
        rw [hfirst, Option.some_or] at ih
        have htop := isLatest_of_latestOf ih.symm
        simp only [notEarlier, Bool.not_eq_true', bne_eq_false_iff_eq] at hlt
        rw [(isLatest_cons_of_lt htop hlt).latestOf_eq, Option.some_or]
      | none =>
        rw [hfirst, Option.none_or] at ih
        rw [Option.none_or]
        cases hrest : l₂.find? p with
        | none =>
          rw [hrest] at ih
          rw [latestOf_eq_none_iff.1 ih.symm]
          exact (IsLatest.latestOf_eq ⟨[], [], rfl, by simp, by simp⟩).symm
        | some y =>
          rw [hrest] at ih
          have hsorted := pairwise_sortItems (x :: xs)
          rw [sortItems_eq, hx, List.pairwise_append, List.pairwise_cons] at hsorted
          have hge := hsorted.2.1.1 y (List.mem_of_find?_eq_some hrest)
          simp only [notEarlier, bne_iff_ne, ne_eq] at hge
          exact (isLatest_cons_self (isLatest_of_latestOf ih.symm) hge).latestOf_eq.symm

end Lineage
