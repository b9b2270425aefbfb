/-
What can be asked of a store, and what a store is.

A request has a type of answers of its own, so a backend is one function from requests to answers
that also gives the next state of the store. What a store takes from outside when it writes, a fresh
id and the time, comes to it as a stamp.
-/

import Lineage.Filter
import Lineage.Store.Error
import Lineage.Version.Order

namespace Lineage

/-- A call to a store. -/
inductive Request where
  | hasItem (id : Uuid)
  | hasItems (filter : Filter)
  | getItem (id : Uuid)
  /-- The matching items, the highest version first. -/
  | getItems (filter : Filter)
  /-- Adds an item with a new id. -/
  | addItem (candidate : Candidate)
  /-- Replaces what an item says, but not its id and its creation time. -/
  | updateItem (item : Item)
  | deleteItem (id : Uuid)
  /-- Deletes the matching items and counts them. -/
  | deleteItems (filter : Filter)
deriving Repr

namespace Request

/-- What a successful call gives. -/
abbrev Value : Request → Type
  | .hasItem _ => Bool
  | .hasItems _ => Bool
  | .getItem _ => Item
  | .getItems _ => List Item
  | .addItem _ => Item
  | .updateItem _ => Item
  | .deleteItem _ => Unit
  | .deleteItems _ => Nat

/-- The answer to a call. -/
abbrev Answer (r : Request) : Type :=
  Except StoreError r.Value

/-- Whether a call adds or changes an item. -/
def isWrite : Request → Bool
  | .addItem _ | .updateItem _ => true
  | _ => false

/-- Whether a call needs a store that can be changed. -/
def needsWrite : Request → Bool
  | .addItem _ | .updateItem _ | .deleteItem _ | .deleteItems _ => true
  | _ => false

/-- Whether an answered call has changed a store. -/
def changes : (r : Request) → r.Answer → Bool
  | .addItem _, .ok _ | .updateItem _, .ok _ | .deleteItem _, .ok _ => true
  | .deleteItems _, .ok count => count ≠ 0
  | _, _ => false

end Request

/-- A fresh id and the time. -/
structure Stamp where
  id : Uuid
  now : Int64

/-- A store with states of type `σ`: the answer to a call, and the state after it. -/
abbrev Backend (σ : Type) := Stamp → (r : Request) → σ → r.Answer × σ

/-- Sorts items by version, the highest first; ties keep their order. -/
def sortItems (items : List Item) : List Item :=
  sortLatestFirst Item.version items

end Lineage
