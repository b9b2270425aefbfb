/-
Filters over items.

A clause holds of an item when every key that is set in it has the item's value; a filter holds when
one of its clauses does, and a filter without clauses holds of every item.
-/

import Lineage.Definition

namespace Lineage

/-- A condition on an item; a key that is not set does not constrain it. -/
structure Clause where
  id : Option Uuid := none
  definitionId : Option String := none
  tenantId : Option String := none
  version : Option String := none
deriving DecidableEq, Repr

/-- A list of alternative clauses. -/
structure Filter where
  clauses : List Clause
deriving DecidableEq, Repr

/-- Whether a value satisfies a key that may be set. -/
def Clause.keyMatches {α : Type} [DecidableEq α] (key : Option α) (value : α) : Bool :=
  key.all (· = value)

/-- Whether an item satisfies every key of a clause. -/
def Clause.holds (c : Clause) (item : Item) : Bool :=
  keyMatches c.id item.id && keyMatches c.definitionId item.definitionId &&
    keyMatches (c.tenantId.map some) item.tenantId && keyMatches c.version item.version

namespace Filter

/-- The filter of every item. -/
def all : Filter := ⟨[]⟩

/-- The filter with one clause. -/
def single (c : Clause) : Filter := ⟨[c]⟩

/-- The filter of a definition id within a tenant, or across all tenants if none is given. -/
def lineage (definitionId : String) (tenantId : Option String) : Filter :=
  single { definitionId := some definitionId, tenantId := tenantId }

/-- Whether an item satisfies some clause, or there is none. -/
def holds (f : Filter) (item : Item) : Bool :=
  f.clauses.isEmpty || f.clauses.any (·.holds item)

end Filter

end Lineage
