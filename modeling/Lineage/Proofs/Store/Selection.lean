/-
The condition of a filter selects the rows of the items that satisfy the filter.

A condition is true of a row when one of its groups is, and a group when all its comparisons are;
an unknown comparison counts like a false one. A column of a row has a value that a key of a clause
asks for exactly when the item has it.
-/

import Lineage.Proofs.Uuid
import Lineage.Store.Table

namespace Lineage

/-! ### Truth -/

namespace Truth

@[simp] theorem and_eq_true {a b : Truth} :
    a.and b = some true ↔ a = some true ∧ b = some true := by
  rcases a with _ | _ | _ <;> rcases b with _ | _ | _ <;> simp [Truth.and]

@[simp] theorem or_eq_true {a b : Truth} :
    a.or b = some true ↔ a = some true ∨ b = some true := by
  rcases a with _ | _ | _ <;> rcases b with _ | _ | _ <;> simp [Truth.or]

@[simp] theorem and_true (a : Truth) : a.and (some true) = a := by
  rcases a with _ | _ | _ <;> rfl

@[simp] theorem or_false (a : Truth) : a.or (some false) = a := by
  rcases a with _ | _ | _ <;> rfl

theorem and_assoc (a b c : Truth) : (a.and b).and c = a.and (b.and c) := by
  rcases a with _ | _ | _ <;> rcases b with _ | _ | _ <;> rcases c with _ | _ | _ <;> rfl

theorem or_assoc (a b c : Truth) : (a.or b).or c = a.or (b.or c) := by
  rcases a with _ | _ | _ <;> rcases b with _ | _ | _ <;> rcases c with _ | _ | _ <;> rfl

end Truth

variable {column : Column → Option String}

@[simp] theorem Comparison.eval_eq_true {c : Comparison} :
    c.eval column = some true ↔ column c.column = some c.value := by
  cases h : column c.column <;> simp [Comparison.eval, h]

namespace Condition

theorem evalGroup_eq_true {group : List Comparison} :
    evalGroup column group = some true ↔ ∀ c ∈ group, column c.column = some c.value := by
  induction group with
  | nil => simp [evalGroup]
  | cons c group ih =>
    rw [evalGroup, List.foldr_cons, Truth.and_eq_true, Comparison.eval_eq_true,
      List.forall_mem_cons]
    exact and_congr_right fun _ => ih

/-- A condition without groups selects every row; otherwise one group must be true of it. -/
theorem selects_iff {c : Condition} :
    c.selects column = true ↔
      c.groups = [] ∨ ∃ group ∈ c.groups, ∀ d ∈ group, column d.column = some d.value := by
  have hany : ∀ groups : List (List Comparison),
      groups.foldr (fun group truth => Truth.or (evalGroup column group) truth) (some false) =
          some true ↔
        ∃ group ∈ groups, ∀ d ∈ group, column d.column = some d.value := by
    intro groups
    induction groups with
    | nil => simp
    | cons group groups ih =>
      simp only [List.foldr_cons, Truth.or_eq_true, evalGroup_eq_true, ih, List.mem_cons,
        exists_eq_or_imp]
  rw [selects, decide_eq_true_eq, eval]
  by_cases h : c.groups = []
  · simp [h]
  · rw [if_neg (by simpa using h), hany, or_iff_right h]

end Condition

/-! ### Clauses and filters -/

namespace Clause

theorem keyMatches_iff {α : Type} [DecidableEq α] {key : Option α} {value : α} :
    keyMatches key value = true ↔ ∀ k ∈ key, value = k := by
  cases key <;> simp [keyMatches, eq_comm]

theorem keyMatches_some_iff {key value : Option String} :
    keyMatches (key.map some) value = true ↔ ∀ k ∈ key, value = some k := by
  cases key <;> simp [keyMatches, eq_comm]

theorem forall_mem_toList_map {α β : Type} {key : Option α} {make : α → β} {p : β → Prop} :
    (∀ d ∈ (key.map make).toList, p d) ↔ ∀ k ∈ key, p (make k) := by
  cases key <;> simp

/-- The comparisons of a clause are true of the row of an item that satisfies the clause. -/
theorem comparisons_true_iff {c : Clause} {item : Item} :
    (∀ d ∈ c.comparisons, (Row.ofItem item).column d.column = some d.value) ↔
      c.holds item = true := by
  rw [comparisons, List.forall_mem_append, List.forall_mem_append, List.forall_mem_append,
    forall_mem_toList_map, forall_mem_toList_map, forall_mem_toList_map, forall_mem_toList_map,
    holds, Bool.and_eq_true, Bool.and_eq_true, Bool.and_eq_true, keyMatches_iff, keyMatches_iff,
    keyMatches_some_iff, keyMatches_iff]
  simp only [Row.column, Row.ofItem, Option.some.injEq, Uuid.text_inj]

end Clause

/-- A row whose id is the text of an identifier has the columns of the item that it decodes to. -/
theorem Row.column_of_decode {row : Row} {id : Uuid} {item : Item} (hid : row.id = id.text)
    (h : row.decode = .ok item) : row.column = (Row.ofItem item).column := by
  rw [decode, hid, Uuid.parse?_text] at h
  simp only at h
  split at h
  · cases h
  · simp only [bind, Except.bind, pure, Except.pure] at h
    split at h
    · cases h
    · split at h
      · cases h
      · cases h
        funext c
        cases c with
        | id => exact congrArg some hid
        | _ => rfl

/-- The condition of a filter selects the row of an item if the filter holds of the item. -/
theorem Filter.selects_condition (filter : Filter) (item : Item) :
    filter.condition.selects (Row.ofItem item).column = filter.holds item := by
  rw [Bool.eq_iff_iff, Condition.selects_iff, Filter.holds, Bool.or_eq_true, List.isEmpty_iff,
    List.any_eq_true]
  refine or_congr List.map_eq_nil_iff ?_
  constructor
  · rintro ⟨group, hgroup, htrue⟩
    obtain ⟨c, hc, rfl⟩ := List.mem_map.1 hgroup
    exact ⟨c, hc, Clause.comparisons_true_iff.1 htrue⟩
  · rintro ⟨c, hc, hholds⟩
    exact ⟨c.comparisons, List.mem_map_of_mem hc, Clause.comparisons_true_iff.2 hholds⟩

end Lineage
