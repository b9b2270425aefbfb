/-
Joining pieces and cutting them apart again.

A text that is joined from pieces without the separator splits into those pieces, and `cut` finds
the first separator.
-/

import Lineage.Text.Split

namespace Lineage.Text

variable {sep : Char}

theorem split_eq_singleton {cs : List Char} (h : sep ∉ cs) : split sep cs = [cs] := by
  induction cs with
  | nil => rfl
  | cons c cs ih =>
    rw [List.mem_cons, not_or] at h
    rw [split, if_neg (Ne.symm h.1), ih h.2]

theorem split_append_cons {cs rest : List Char} (h : sep ∉ cs) :
    split sep (cs ++ sep :: rest) = cs :: split sep rest := by
  induction cs with
  | nil => simp [split]
  | cons c cs ih =>
    rw [List.mem_cons, not_or] at h
    rw [List.cons_append, split, if_neg (Ne.symm h.1), ih h.2]

theorem split_append (before after : List Char) :
    split sep (before ++ sep :: after) = split sep before ++ split sep after := by
  induction before with
  | nil => simp [split]
  | cons c before ih =>
    rw [List.cons_append, split, split, ih]
    split
    · rfl
    · cases hs : split sep before with
      | nil => exact absurd hs (split_ne_nil sep before)
      | cons piece pieces => rfl

/-- Splitting undoes joining when no piece holds the separator. -/
theorem split_join {pieces : List (List Char)} (hne : pieces ≠ [])
    (h : ∀ piece ∈ pieces, sep ∉ piece) : split sep (join sep pieces) = pieces := by
  induction pieces with
  | nil => exact absurd rfl hne
  | cons p ps ih =>
    rw [List.forall_mem_cons] at h
    cases ps with
    | nil => exact split_eq_singleton h.1
    | cons q qs => rw [join_cons_cons, split_append_cons h.1, ih (List.cons_ne_nil q qs) h.2]

theorem mem_join {pieces : List (List Char)} {c : Char} (h : c ∈ join sep pieces) :
    c = sep ∨ ∃ piece ∈ pieces, c ∈ piece := by
  induction pieces with
  | nil => cases h
  | cons p ps ih =>
    cases ps with
    | nil => exact .inr ⟨p, List.mem_cons_self, h⟩
    | cons q qs =>
      rw [join_cons_cons, List.mem_append, List.mem_cons] at h
      rcases h with hp | rfl | hrest
      · exact .inr ⟨p, List.mem_cons_self, hp⟩
      · exact .inl rfl
      · rcases ih hrest with rfl | ⟨piece, hm, hc⟩
        · exact .inl rfl
        · exact .inr ⟨piece, List.mem_cons_of_mem p hm, hc⟩

theorem cut_eq_self {cs : List Char} (h : sep ∉ cs) : cut sep cs = (cs, none) := by
  induction cs with
  | nil => rfl
  | cons c cs ih =>
    rw [List.mem_cons, not_or] at h
    rw [cut, if_neg (Ne.symm h.1), ih h.2]

theorem cut_append_cons {cs rest : List Char} (h : sep ∉ cs) :
    cut sep (cs ++ sep :: rest) = (cs, some rest) := by
  induction cs with
  | nil => simp [cut]
  | cons c cs ih =>
    rw [List.mem_cons, not_or] at h
    rw [List.cons_append, cut, if_neg (Ne.symm h.1), ih h.2]

/-- What `cut` gives is the text: what stands before the first separator, and the separator with what
stands after it. -/
theorem append_cut (sep : Char) (cs : List Char) :
    (cut sep cs).1 ++ (match (cut sep cs).2 with
      | none => []
      | some after => sep :: after) = cs := by
  induction cs with
  | nil => rfl
  | cons c cs ih =>
    by_cases h : c = sep
    · simp [cut, h]
    · simp only [cut, if_neg h, List.cons_append, ih]

end Lineage.Text
