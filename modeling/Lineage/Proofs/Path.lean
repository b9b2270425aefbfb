/-
When two texts are the same path.

A path can be respelled without being changed: a slash can be doubled, a single dot can stand between
two slashes, and a slash can follow what is not empty. `Alike` is the equivalence that these respellings
generate. Two absolute paths have the same steps exactly if they are alike in this sense
(`same_iff_alike`).
-/

import Mathlib.Logic.Relation
import Lineage.Disk
import Lineage.Proofs.Text.Pieces

namespace Lineage.Path

open Text

variable {p q : List Char} {a b : String}

/-- The second spelling is the first one without a slash or a dot that changes nothing. -/
inductive Respells : List Char → List Char → Prop where
  | slash (before after : List Char) :
      Respells (before ++ '/' :: '/' :: after) (before ++ '/' :: after)
  | dot (before after : List Char) :
      Respells (before ++ '/' :: '.' :: '/' :: after) (before ++ '/' :: after)
  | last {before : List Char} (nonempty : before ≠ []) : Respells (before ++ ['/']) before

/-- Two spellings of one path. -/
def Alike : List Char → List Char → Prop :=
  Relation.EqvGen Respells

theorem Alike.trans {r : List Char} (hpq : Alike p q) (hqr : Alike q r) : Alike p r :=
  Relation.EqvGen.trans _ _ _ hpq hqr

theorem Alike.symm (h : Alike p q) : Alike q p :=
  Relation.EqvGen.symm _ _ h

theorem Respells.alike (h : Respells p q) : Alike p q :=
  Relation.EqvGen.rel _ _ h

/-! ### Alike paths have the same steps -/

/-- A piece that leads on: neither nothing nor a single dot. -/
def isStep (piece : List Char) : Bool :=
  piece ≠ [] && piece ≠ ['.']

/-- The steps of a path, each as its characters. -/
def stepChars (p : List Char) : List (List Char) :=
  (split '/' p).filter isStep

theorem steps_eq (a : String) : steps a = (stepChars a.toList).map String.ofList := by
  have hempty : ∀ piece, String.ofList piece = "" ↔ piece = [] := by
    intro piece
    rw [← String.toList_inj, String.toList_ofList, String.toList_empty]
  have hdot : ∀ piece, String.ofList piece = "." ↔ piece = ['.'] := by
    intro piece
    rw [← String.toList_inj, String.toList_ofList]
    rfl
  rw [steps, pieces, stepChars, List.filter_filter, List.filter_map]
  congr 1
  apply List.filter_congr
  intro piece _
  simp [isStep, hempty, hdot, Bool.and_comm]

theorem steps_eq_iff : steps a = steps b ↔ stepChars a.toList = stepChars b.toList := by
  rw [steps_eq, steps_eq]
  exact List.map_inj_right fun _ _ => String.ofList_inj.1

theorem stepChars_append (before after : List Char) :
    stepChars (before ++ '/' :: after) = stepChars before ++ stepChars after := by
  rw [stepChars, split_append, List.filter_append]
  rfl

theorem stepChars_slash (after : List Char) : stepChars ('/' :: after) = stepChars after :=
  stepChars_append [] after

theorem Respells.stepChars_eq (h : Respells p q) : stepChars p = stepChars q := by
  cases h with
  | slash before after => rw [stepChars_append, stepChars_slash, stepChars_append]
  | dot before after =>
    have hdot : stepChars ('.' :: '/' :: after) = stepChars after := stepChars_append ['.'] after
    rw [stepChars_append, hdot, stepChars_append]
  | last _ =>
    rw [stepChars_append]
    exact List.append_nil _

theorem Alike.stepChars_eq (h : Alike p q) : stepChars p = stepChars q := by
  induction h with
  | rel _ _ h => exact h.stepChars_eq
  | refl _ => rfl
  | symm _ _ _ ih => exact ih.symm
  | trans _ _ _ _ _ ih₁ ih₂ => exact ih₁.trans ih₂

/-! ### Paths with the same steps are alike -/

/-- A piece comes before the others with a slash between them, also when there are no others. -/
theorem alike_join_cons (before piece : List Char) (rest : List (List Char)) :
    Alike (before ++ '/' :: join '/' (piece :: rest))
      ((before ++ '/' :: piece) ++ '/' :: join '/' rest) := by
  cases rest with
  | nil =>
    have hnonempty : before ++ '/' :: piece ≠ [] := List.append_ne_nil_of_right_ne_nil _ (by simp)
    exact (Respells.last hnonempty).alike.symm
  | cons next rest =>
    rw [join_cons_cons, List.append_assoc]
    exact Relation.EqvGen.refl _

/-- Behind a slash, pieces that are no steps can be left out. -/
theorem alike_join (before : List Char) (pieces : List (List Char)) :
    Alike (before ++ '/' :: join '/' pieces)
      (before ++ '/' :: join '/' (pieces.filter isStep)) := by
  induction pieces generalizing before with
  | nil => exact Relation.EqvGen.refl _
  | cons piece rest ih =>
    apply (alike_join_cons before piece rest).trans
    by_cases hstep : isStep piece = true
    · rw [List.filter_cons_of_pos hstep]
      exact (ih (before ++ '/' :: piece)).trans (alike_join_cons before piece _).symm
    · rw [List.filter_cons_of_neg hstep]
      apply Alike.trans _ (ih before)
      rw [List.append_assoc]
      by_cases hempty : piece = []
      · subst hempty
        exact (Respells.slash before _).alike
      · obtain rfl : piece = ['.'] := by simpa [isStep, hempty] using hstep
        exact (Respells.dot before _).alike

/-- An absolute path is alike to its steps with a slash before each. -/
theorem alike_stepChars (cs : List Char) : Alike ('/' :: cs) ('/' :: join '/' (stepChars cs)) := by
  have h := alike_join [] (split '/' cs)
  rwa [join_split] at h

/-- Two absolute paths have the same steps exactly if they are alike. -/
theorem same_iff_alike (ha : isAbsolute a = true) (hb : isAbsolute b = true) :
    same a b = true ↔ Alike a.toList b.toList := by
  have hroot : ∀ {path : String}, isAbsolute path = true → ∃ cs, path.toList = '/' :: cs := by
    intro path h
    exact List.head?_eq_some_iff.1 (of_decide_eq_true h)
  obtain ⟨as, has⟩ := hroot ha
  obtain ⟨bs, hbs⟩ := hroot hb
  have hsame : same a b = true ↔ stepChars as = stepChars bs := by
    rw [same, ha, hb, decide_eq_true rfl, Bool.true_and, decide_eq_true_iff, steps_eq_iff, has, hbs,
      stepChars_slash, stepChars_slash]
  rw [hsame, has, hbs]
  constructor
  · intro hsteps
    have hback := (alike_stepChars bs).symm
    rw [← hsteps] at hback
    exact (alike_stepChars as).trans hback
  · intro halike
    simpa only [stepChars_slash] using halike.stepChars_eq

end Lineage.Path
