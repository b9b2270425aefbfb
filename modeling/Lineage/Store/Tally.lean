/-
Backends around other backends.

`Backend.tallied` counts the writes that are asked of a store, whether they succeed or not.
`Backend.contested` lets a competitor in: just before the first item is added, the competitor adds
the same candidate with a payload of its own.
-/

import Lineage.Store.Request

namespace Lineage

/-- How many inserts and updates were asked of a store. -/
structure Tally where
  inserts : Nat := 0
  updates : Nat := 0
deriving DecidableEq, Repr

/-- Counts a call. -/
def Tally.count (tally : Tally) : Request → Tally
  | .addItem _ => { tally with inserts := tally.inserts + 1 }
  | .updateItem _ => { tally with updates := tally.updates + 1 }
  | _ => tally

namespace Backend

variable {σ : Type}

/-- The backend that also counts the writes it is asked for. -/
def tallied (backend : Backend σ) : Backend (σ × Tally) := fun stamp r (s, tally) =>
  let (answer, s) := backend stamp r s
  (answer, s, tally.count r)

/-- A competitor that waits for the first item to be added: the id that its own item will get, and
its payload. -/
structure Competitor where
  id : Uuid
  payload : Json

/-- The backend with a competitor that acts once. If the competitor fails, its failure is the
answer. -/
def contested (backend : Backend σ) : Backend (σ × Option Competitor) :=
  fun stamp r (s, waiting) =>
    match r, waiting with
    | .addItem c, some competitor =>
      let theirs : Request := .addItem { c with payload := competitor.payload }
      match backend { stamp with id := competitor.id } theirs s with
      | (.error cause, s) => (.error cause, s, none)
      | (.ok _, s) =>
        let (answer, s) := backend stamp (.addItem c) s
        (answer, s, none)
    | r, waiting =>
      let (answer, s) := backend stamp r s
      (answer, s, waiting)

end Backend

end Lineage
