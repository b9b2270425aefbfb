/-
What trimming leaves of a text.

`Trimmed` says it without the function: the text is what is left with blank characters around it, and
what is left has no blank character at either end. There is one such part of every text.
-/

import Mathlib.Data.List.TakeWhile
import Lineage.Text.Blank

namespace Lineage.Text

variable {cs before middle after : List Char}

/-- The characters are `middle` with blank ones around it, and `middle` neither starts nor ends with a
blank character. -/
structure Trimmed (cs middle : List Char) : Prop where
  padding : ∃ before after, cs = before ++ (middle ++ after) ∧
    (∀ c ∈ before, isBlank c = true) ∧ ∀ c ∈ after, isBlank c = true
  head : ∀ c ∈ middle.head?, isBlank c = false
  last : ∀ c ∈ middle.getLast?, isBlank c = false

theorem trimStart_eq_self (h : ∀ c ∈ cs.head?, isBlank c = false) : trimStart cs = cs := by
  cases cs with
  | nil => rfl
  | cons c cs => simp [trimStart, h c rfl]

theorem trimStart_append (h : ∀ c ∈ before, isBlank c = true) (cs : List Char) :
    trimStart (before ++ cs) = trimStart cs := by
  induction before with
  | nil => rfl
  | cons c before ih =>
    rw [List.forall_mem_cons] at h
    rw [List.cons_append, trimStart, List.dropWhile_cons_of_pos h.1]
    exact ih h.2

theorem head?_trimStart (cs : List Char) : ∀ c ∈ (trimStart cs).head?, isBlank c = false := by
  intro c hc
  have hnot := List.head?_dropWhile_not isBlank cs
  rw [← trimStart, hc] at hnot
  simpa using hnot

theorem trimEnd_eq_reverse (cs : List Char) : trimEnd cs = (trimStart cs.reverse).reverse :=
  rfl

theorem exists_append_trimEnd (cs : List Char) :
    ∃ after, cs = trimEnd cs ++ after ∧ ∀ c ∈ after, isBlank c = true := by
  refine ⟨(cs.reverse.takeWhile isBlank).reverse, ?_, ?_⟩
  · rw [trimEnd, ← List.reverse_append, List.takeWhile_append_dropWhile, List.reverse_reverse]
  · intro c hc
    exact List.mem_takeWhile_imp (List.mem_reverse.1 hc)

/-- Blank characters are all that trimming takes off. -/
theorem exists_append_trimChars (cs : List Char) :
    ∃ before after, cs = before ++ (trimChars cs ++ after) ∧
      (∀ c ∈ before, isBlank c = true) ∧ ∀ c ∈ after, isBlank c = true := by
  obtain ⟨after, hafter, hblank⟩ := exists_append_trimEnd (trimStart cs)
  refine ⟨cs.takeWhile isBlank, after, ?_, fun c hc => List.mem_takeWhile_imp hc, hblank⟩
  rw [trimChars, ← hafter, trimStart, List.takeWhile_append_dropWhile]

theorem trimmed_trimChars (cs : List Char) : Trimmed cs (trimChars cs) := by
  refine ⟨exists_append_trimChars cs, ?_, ?_⟩
  · intro c hc
    obtain ⟨after, hafter, -⟩ := exists_append_trimEnd (trimStart cs)
    apply head?_trimStart cs
    rw [trimChars] at hc
    rw [hafter, List.head?_append, Option.mem_def.1 hc]
    rfl
  · intro c hc
    rw [trimChars, trimEnd_eq_reverse, List.getLast?_reverse] at hc
    exact head?_trimStart _ c hc

/-- Trimming leaves the one part of a text that is trimmed. -/
theorem trimChars_eq_iff : trimChars cs = middle ↔ Trimmed cs middle := by
  constructor
  · rintro rfl
    exact trimmed_trimChars cs
  · rintro ⟨⟨before, after, rfl, hbefore, hafter⟩, hhead, hlast⟩
    have hend : ∀ c ∈ after.reverse, isBlank c = true :=
      fun c hc => hafter c (List.mem_reverse.1 hc)
    have hback : trimStart (middle ++ after).reverse = middle.reverse := by
      rw [List.reverse_append, trimStart_append hend]
      apply trimStart_eq_self
      rwa [List.head?_reverse]
    rw [trimChars, trimStart_append hbefore]
    cases middle with
    | nil =>
      rw [List.nil_append, trimStart_eq_nil_iff.2 (List.all_eq_true.2 hafter)]
      rfl
    | cons c rest =>
      rw [trimStart_eq_self (by simpa using hhead), trimEnd_eq_reverse, hback,
        List.reverse_reverse]

end Lineage.Text
