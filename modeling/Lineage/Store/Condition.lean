/-
Filters as conditions on the columns of a table.

A condition compares columns with texts and combines the comparisons with `AND` and `OR`. A column
may be without a value, and a comparison with such a column is neither true nor false; `Truth` has
this third value, and a row is selected only if the condition is true of it. `Condition.text` writes
a condition with placeholders for the texts, which `Condition.binds` lists in the order of the
placeholders.
-/

import Lineage.Filter

namespace Lineage

/-- The columns that a condition may name. -/
inductive Column where
  | id
  | definitionId
  | tenantId
  | version
deriving DecidableEq, Repr

/-- The name of a column. -/
def Column.name : Column → String
  | .id => "id"
  | .definitionId => "definition_id"
  | .tenantId => "tenant_id"
  | .version => "version"

/-- True, false, or unknown. -/
abbrev Truth := Option Bool

namespace Truth

/-- True if both are true, false if one is false, and unknown otherwise. -/
def and : Truth → Truth → Truth
  | some true, b => b
  | some false, _ => some false
  | none, some false => some false
  | none, _ => none

/-- True if one is true, false if both are false, and unknown otherwise. -/
def or : Truth → Truth → Truth
  | some false, b => b
  | some true, _ => some true
  | none, some true => some true
  | none, _ => none

end Truth

/-- A comparison of a column with a text. -/
structure Comparison where
  column : Column
  value : String
deriving DecidableEq, Repr

/-- A condition on the columns of a row: groups of comparisons. One group must be true, and in it
every comparison; a condition without groups and a group without comparisons are true. -/
structure Condition where
  groups : List (List Comparison)
deriving DecidableEq, Repr

/-! ### Truth -/

/-- Whether a comparison is true of a row, given the values of its columns. -/
def Comparison.eval (column : Column → Option String) (c : Comparison) : Truth :=
  (column c.column).map fun v => decide (v = c.value)

namespace Condition

/-- Whether every comparison of a group is true of a row. -/
def evalGroup (column : Column → Option String) (group : List Comparison) : Truth :=
  group.foldr (fun c truth => Truth.and (c.eval column) truth) (some true)

/-- Whether a condition is true of a row, given the values of its columns. -/
def eval (column : Column → Option String) (c : Condition) : Truth :=
  if c.groups.isEmpty then some true
  else c.groups.foldr (fun group truth => Truth.or (evalGroup column group) truth) (some false)

/-- Whether a condition selects a row. -/
def selects (c : Condition) (column : Column → Option String) : Bool :=
  c.eval column = some true

/-! ### Text -/

/-- The text of a group: its comparisons in parentheses. -/
def groupText (group : List Comparison) : String :=
  if group.isEmpty then "1 = 1"
  else "(" ++ " AND ".intercalate (group.map fun c => c.column.name ++ " = ?") ++ ")"

/-- The text of a condition, with a placeholder for each value. -/
def text (c : Condition) : String :=
  if c.groups.isEmpty then "1 = 1" else " OR ".intercalate (c.groups.map groupText)

/-- How deep a group nests. A comparison has two levels, and each further one in its group adds a
level. -/
def groupHeight (group : List Comparison) : Nat :=
  max 2 (group.length + 1)

/-- How deep a condition nests. Each group adds a level to what stands before it. -/
def height (c : Condition) : Nat :=
  match c.groups.map groupHeight with
  | [] => 2
  | h :: hs => hs.foldl (fun height h => max height h + 1) h

/-- The values of the placeholders, from left to right. -/
def binds (c : Condition) : List String :=
  c.groups.flatMap fun group => group.map Comparison.value

end Condition

/-! ### Filters -/

/-- The comparisons of a clause, one for each key that is set. -/
def Clause.comparisons (c : Clause) : List Comparison :=
  (c.id.map fun id => Comparison.mk .id id.text).toList ++
    (c.definitionId.map (Comparison.mk .definitionId)).toList ++
    (c.tenantId.map (Comparison.mk .tenantId)).toList ++
    (c.version.map (Comparison.mk .version)).toList

/-- The condition of a filter: a group for each clause. -/
def Filter.condition (f : Filter) : Condition :=
  ⟨f.clauses.map Clause.comparisons⟩

end Lineage
