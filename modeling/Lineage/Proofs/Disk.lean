/-
What changes of a disk leave where it was.

A change at one place leaves every other place alone. Making the directories of a path only fills places
that were free (`Disk.Grows`), also when it fails on the way.
-/

import Lineage.Disk

namespace Lineage.Disk

variable {α : Type}

/-! ### One place -/

section Places

variable {disk : Disk α} {place other : Place}

theorem lookup_filter_ne (h : other ≠ place) (entries : List (Place × Node α)) :
    (entries.filter fun entry => entry.1 ≠ place).lookup other = entries.lookup other := by
  induction entries with
  | nil => rfl
  | cons entry entries ih =>
    obtain ⟨key, node⟩ := entry
    by_cases hkey : key = place
    · have hne : (other == key) = false := beq_eq_false_iff_ne.2 (hkey ▸ h)
      rw [List.filter_cons_of_neg (by simp [hkey]), List.lookup_cons, hne]
      exact ih
    · rw [List.filter_cons_of_pos (by simp [hkey]), List.lookup_cons, List.lookup_cons, ih]

theorem lookup_filter_self (place : Place) (entries : List (Place × Node α)) :
    (entries.filter fun entry => entry.1 ≠ place).lookup place = none := by
  rw [List.lookup_eq_none_iff]
  intro entry hentry
  have hne : entry.1 ≠ place := of_decide_eq_true (List.mem_filter.1 hentry).2
  exact bne_iff_ne.2 hne.symm

theorem node?_put_self (hplace : place ≠ []) (disk : Disk α) (node : Node α) :
    (disk.put place node).node? place = some node := by
  have hempty : place.isEmpty = false := List.isEmpty_eq_false_iff.2 hplace
  simp only [node?, hempty, put, List.lookup_append, lookup_filter_self, Bool.false_eq_true, if_false,
    Option.none_or, List.lookup_cons, BEq.rfl]

theorem node?_put_of_ne (h : other ≠ place) (disk : Disk α) (node : Node α) :
    (disk.put place node).node? other = disk.node? other := by
  have hlookup : [(place, node)].lookup other = none := by
    rw [List.lookup_cons, beq_eq_false_iff_ne.2 h]
    rfl
  simp only [node?, put, List.lookup_append, lookup_filter_ne h, hlookup, Option.or_none]

theorem node?_remove_of_ne (h : other ≠ place) (disk : Disk α) :
    (disk.remove place).node? other = disk.node? other := by
  unfold remove
  split
  · simp only [node?, lookup_filter_ne h]
  · rfl

/-- Only the root has no name, and it is a directory. -/
theorem ne_nil_of_node? {node : Option (Node α)} (h : disk.node? place = node)
    (hnode : node ≠ some .directory) : place ≠ [] := by
  rintro rfl
  exact hnode h.symm

/-- Taking a file away puts nothing anywhere. -/
theorem node?_of_remove {node : Node α} (h : (disk.remove place).node? other = some node) :
    disk.node? other = some node := by
  by_cases hother : other = place
  · subst hother
    unfold remove at h
    split at h
    · next content hfile =>
      have hempty : other.isEmpty = false := by
        cases other with
        | nil => cases hfile
        | cons name rest => rfl
      simp only [node?, hempty, lookup_filter_self, Bool.false_eq_true, if_false, reduceCtorEq] at h
    · exact h
  · rwa [node?_remove_of_ne hother] at h

end Places

/-! ### Directories that are made -/

/-- Whatever stood on a disk stands on another one, on which there may be further directories. -/
def Grows (before after : Disk α) : Prop :=
  ∀ place, after.node? place = before.node? place ∨
    before.node? place = none ∧ after.node? place = some .directory

namespace Grows

variable {first second third : Disk α}

theorem refl (disk : Disk α) : disk.Grows disk :=
  fun _ => .inl rfl

theorem trans (h : first.Grows second) (h' : second.Grows third) : first.Grows third := by
  intro place
  rcases h' place with hsame | ⟨hnone, hmade⟩
  · rw [hsame]
    exact h place
  · rcases h place with hbefore | ⟨-, hbefore⟩
    · exact .inr ⟨hbefore.symm.trans hnone, hmade⟩
    · rw [hnone] at hbefore
      cases hbefore

end Grows

section Directories

variable {disk : Disk α} {cwd : Place} {path : String}

theorem grows_makeDirectory {made : Disk α} (h : disk.makeDirectory cwd path = .ok made) :
    disk.Grows made := by
  unfold makeDirectory at h
  cases hcheck : Path.check path with
  | error cause => simp [hcheck, bind, Except.bind] at h
  | ok =>
  cases hwalk : disk.walk (start cwd path) (Path.pieces path) with
  | error cause => simp [hcheck, hwalk, bind, Except.bind] at h
  | ok place =>
  simp only [hcheck, hwalk, bind, Except.bind] at h
  split at h
  · cases h
  · next hnone =>
    cases h
    intro other
    by_cases hother : other = place
    · subst hother
      have hne : other ≠ [] := ne_nil_of_node? hnone nofun
      exact .inr ⟨hnone, node?_put_self hne disk .directory⟩
    · exact .inl (node?_put_of_ne hother disk .directory)

theorem grows_ensureDirectory (disk : Disk α) (cwd : Place) (path : String) :
    disk.Grows (disk.ensureDirectory cwd path).2 := by
  unfold ensureDirectory
  split
  · next made hmade => exact grows_makeDirectory hmade
  · exact .refl disk

theorem grows_ensureDirectories (disk : Disk α) (cwd : Place) (paths : List String) :
    disk.Grows (disk.ensureDirectories cwd paths).2 := by
  induction paths with
  | nil => exact .refl disk
  | cons path above ih =>
    rw [ensureDirectories]
    split
    · split
      · next made habove =>
        rw [habove] at ih
        exact ih.trans (grows_ensureDirectory made cwd path)
      · exact ih
    · exact grows_ensureDirectory disk cwd path

/-- Making directories only fills places that were free. -/
theorem grows_makeDirectories (disk : Disk α) (cwd : Place) (path : String) :
    disk.Grows (disk.makeDirectories cwd path).2 :=
  grows_ensureDirectories disk cwd (Path.ancestors path)

end Directories

end Lineage.Disk
