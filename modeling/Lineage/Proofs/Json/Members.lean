/-
An object does not depend on the order of its members.

`ofMembers` puts members in the order of their names. As long as no name comes twice, it neither drops a
member nor changes one (`exists_perm_ofMembers`), so it makes one object of the same members in any
order (`ofMembers_perm`).
-/

import Mathlib.Data.List.Perm.Basic
import Lineage.Proofs.Json.Reading

namespace Lineage.Json

variable {name : String} {x : Json} {ms ms' before : List (String × Json)}

/-- No two members have the same name. -/
def Distinct (ms : List (String × Json)) : Prop :=
  (ms.map Prod.fst).Nodup

/-- The members are in the order of their names, each name once. -/
def InOrder (ms : List (String × Json)) : Prop :=
  (ms.map Prod.fst).Pairwise (Text.compareText · · = .lt)

theorem Distinct.perm (h : Distinct ms) (hperm : ms.Perm ms') : Distinct ms' :=
  (hperm.map Prod.fst).nodup_iff.1 h

theorem perm_insertMember (x : Json) (h : name ∉ ms.map Prod.fst) :
    (insertMember name x ms).Perm ((name, x) :: ms) := by
  induction ms with
  | nil => exact .refl _
  | cons m ms ih =>
    rw [List.map_cons, List.mem_cons, not_or] at h
    rw [insertMember]
    split
    · exact .refl _
    · next heq => exact absurd (Text.compareText_eq_iff.1 heq) h.1
    · exact ((ih h.2).cons m).trans (.swap _ _ ms)

theorem perm_insertMembers (hnames : Distinct (before ++ ms)) :
    (ms.foldl (fun sorted m => insertMember m.1 m.2 sorted) before).Perm (before ++ ms) := by
  induction ms generalizing before with
  | nil => rw [List.append_nil]; exact .refl _
  | cons m ms ih =>
    have hnew : m.1 ∉ before.map Prod.fst := by
      intro hmem
      rw [Distinct, List.map_append, List.nodup_append] at hnames
      exact hnames.2.2 _ hmem _ List.mem_cons_self rfl
    have hinsert := perm_insertMember m.2 hnew
    have hall : (insertMember m.1 m.2 before ++ ms).Perm (before ++ m :: ms) :=
      (hinsert.append_right ms).trans List.perm_middle.symm
    exact (ih (hnames.perm hall.symm)).trans hall

theorem inOrder_insertMembers (h : InOrder before) (ms : List (String × Json)) :
    InOrder (ms.foldl (fun sorted m => insertMember m.1 m.2 sorted) before) := by
  induction ms generalizing before with
  | nil => exact h
  | cons m ms ih => exact ih (sorted_insertMember m.1 m.2 h)

/-- Members without a common name are put in order, and that is all. -/
theorem exists_perm_ofMembers (h : Distinct ms) :
    ∃ sorted, ofMembers ms = .object sorted ∧ sorted.Perm ms ∧ InOrder sorted := by
  have hnames : Distinct ([] ++ ms) := h
  have hnil : InOrder [] := List.Pairwise.nil
  exact ⟨_, rfl, perm_insertMembers hnames, inOrder_insertMembers hnil ms⟩

theorem InOrder.distinct (h : InOrder ms) : Distinct ms := by
  apply List.Pairwise.imp _ h
  rintro name _ hlt rfl
  rw [Text.compareText_eq_iff.2 rfl] at hlt
  cases hlt

/-- There is one way to put names in order. -/
theorem InOrder.names_eq (h : InOrder ms) (h' : InOrder ms')
    (hperm : (ms.map Prod.fst).Perm (ms'.map Prod.fst)) : ms.map Prod.fst = ms'.map Prod.fst := by
  apply hperm.eq_of_pairwise _ h h'
  intro name name' _ _ hlt hgt
  rw [Text.compareText_swap, hgt] at hlt
  cases hlt

/-- There is one way to put members in the order of their names. -/
theorem InOrder.eq_of_perm (h : InOrder ms) (h' : InOrder ms') (hperm : ms.Perm ms') : ms = ms' := by
  apply hperm.eq_of_pairwise _ (List.pairwise_map.1 h) (List.pairwise_map.1 h')
  intro m m' _ _ hlt hgt
  rw [Text.compareText_swap, hgt] at hlt
  cases hlt

/-- The same members make the same object in any order. -/
theorem ofMembers_perm (h : Distinct ms) (hperm : ms.Perm ms') : ofMembers ms = ofMembers ms' := by
  obtain ⟨sorted, hms, hsorted, horder⟩ := exists_perm_ofMembers h
  obtain ⟨sorted', hms', hsorted', horder'⟩ := exists_perm_ofMembers (h.perm hperm)
  rw [hms, hms', horder.eq_of_perm horder' (hsorted.trans (hperm.trans hsorted'.symm))]

end Lineage.Json
