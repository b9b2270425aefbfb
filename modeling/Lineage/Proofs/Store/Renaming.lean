/-
Stores under other ids and other clocks.

Which ids a store gives out and what its clock shows is up to its surroundings. A `Renaming` puts
other ids in the place of ids, different ones in the place of different ones, and any times in the
place of times. A store in memory does to renamed requests what it does to the requests themselves,
renamed: it compares ids, and it only copies times.
-/

import Mathlib.Logic.Function.Basic
import Lineage.Proofs.Store.Listing
import Lineage.Proofs.Store.Soundness

namespace Lineage

/-! ### Replies -/

/-- What a request is answered with when it succeeds. -/
inductive Reply where
  | flag (b : Bool)
  | item (item : Item)
  | items (items : List Item)
  | done
  | count (n : Nat)

/-- The value of a request as a reply. -/
def Request.reply : (r : Request) → r.Value → Reply
  | .hasItem _, b | .hasItems _, b => .flag b
  | .getItem _, item | .addItem _, item | .updateItem _, item => .item item
  | .getItems _, items => .items items
  | .deleteItem _, _ => .done
  | .deleteItems _, n => .count n

/-- How a request ends, whatever its type of answers. -/
abbrev Ending := Except StoreError Reply

/-- The answer to a request as an ending. -/
def Request.ending (r : Request) (answer : r.Answer) : Ending :=
  answer.map r.reply

namespace Backend

variable {σ : Type}

/-- How requests end that are made one after the other. -/
def endings (backend : Backend σ) : σ → List (Stamp × Request) → List Ending
  | _, [] => []
  | s, (stamp, r) :: calls =>
    r.ending (backend stamp r s).1 :: endings backend (backend stamp r s).2 calls

end Backend

/-! ### Renaming -/

/-- Other ids and other times. Different ids stay different. -/
structure Renaming where
  id : Uuid → Uuid
  time : Int64 → Int64
  injective : Function.Injective id

namespace Renaming

theorem id_inj (ρ : Renaming) {a b : Uuid} : ρ.id a = ρ.id b ↔ a = b :=
  ρ.injective.eq_iff

end Renaming

section Rename

variable (ρ : Renaming)

/-- The item with another id and other times. -/
def Item.rename (item : Item) : Item :=
  { item with
    id := ρ.id item.id
    createdAt := ρ.time item.createdAt
    lastUpdatedAt := ρ.time item.lastUpdatedAt }

/-- The clause with another id, if it asks for one. -/
def Clause.rename (c : Clause) : Clause :=
  { c with id := c.id.map ρ.id }

/-- The filter with other ids. -/
def Filter.rename (filter : Filter) : Filter :=
  ⟨filter.clauses.map (Clause.rename ρ)⟩

/-- The stamp with another id and another time. -/
def Stamp.rename (stamp : Stamp) : Stamp :=
  ⟨ρ.id stamp.id, ρ.time stamp.now⟩

/-- The request with other ids and times. -/
def Request.rename : Request → Request
  | .hasItem id => .hasItem (ρ.id id)
  | .hasItems filter => .hasItems (filter.rename ρ)
  | .getItem id => .getItem (ρ.id id)
  | .getItems filter => .getItems (filter.rename ρ)
  | .addItem c => .addItem c
  | .updateItem item => .updateItem (item.rename ρ)
  | .deleteItem id => .deleteItem (ρ.id id)
  | .deleteItems filter => .deleteItems (filter.rename ρ)

/-- A call with other ids and times. -/
def renameCall (call : Stamp × Request) : Stamp × Request :=
  (call.1.rename ρ, call.2.rename ρ)

/-- The reply with other ids and times. -/
def Reply.rename : Reply → Reply
  | .item x => .item (x.rename ρ)
  | .items xs => .items (xs.map (Item.rename ρ))
  | reply => reply

/-- The cause of a failure with other ids. -/
def StoreError.rename : StoreError → StoreError
  | .notFound id => .notFound (ρ.id id)
  | .invalidPayload id cause => .invalidPayload (ρ.id id) cause
  | cause => cause

/-- The ending with other ids and times. -/
def Ending.rename : Ending → Ending
  | .ok reply => .ok (reply.rename ρ)
  | .error cause => .error (cause.rename ρ)

/-- The store with other ids and times. -/
def Memory.rename (m : Memory) : Memory :=
  ⟨m.items.map (Item.rename ρ)⟩

end Rename

variable {ρ : Renaming}

@[simp] theorem Item.rename_id (item : Item) : (item.rename ρ).id = ρ.id item.id := rfl

theorem Candidate.rename_toItem (c : Candidate) (stamp : Stamp) :
    (c.toItem stamp).rename ρ = c.toItem (stamp.rename ρ) := rfl

theorem Item.rename_replacing (item stored : Item) (now : Int64) :
    (item.replacing stored now).rename ρ =
      (item.rename ρ).replacing (stored.rename ρ) (ρ.time now) := rfl

/-- Sorting looks at versions only. -/
theorem sortItems_rename (items : List Item) :
    sortItems (items.map (Item.rename ρ)) = (sortItems items).map (Item.rename ρ) := by
  rw [sortItems_eq, sortItems_eq]
  exact (List.map_mergeSort (f := Item.rename ρ) fun _ _ _ _ => rfl).symm

namespace Memory

theorem rename_append (m : Memory) (item : Item) :
    rename ρ ⟨m.items ++ [item]⟩ = ⟨(m.rename ρ).items ++ [item.rename ρ]⟩ := by
  simp only [rename, List.map_append, List.map_cons, List.map_nil]

theorem add_rename (m : Memory) (stamp : Stamp) (c : Candidate) :
    (Request.addItem c).ending ((m.rename ρ).add (stamp.rename ρ) c).1 =
        ((Request.addItem c).ending (m.add stamp c).1).rename ρ ∧
      ((m.rename ρ).add (stamp.rename ρ) c).2 = (m.add stamp c).2.rename ρ := by
  rcases add_cases m stamp c with ⟨⟨other, hm, hkey⟩, heq⟩ | ⟨hfree, heq⟩
  · have htaken : ∃ other ∈ (m.rename ρ).items, other.key = (c.toItem (stamp.rename ρ)).key :=
      ⟨other.rename ρ, List.mem_map_of_mem hm, hkey⟩
    rw [heq, add_of_taken htaken]
    exact ⟨rfl, rfl⟩
  · have hfree' : ∀ other ∈ (m.rename ρ).items, other.key ≠ (c.toItem (stamp.rename ρ)).key := by
      intro other hm
      obtain ⟨old, hold, rfl⟩ := List.mem_map.1 hm
      exact hfree old hold
    rw [heq, add_of_free hfree', rename_append, Candidate.rename_toItem]
    exact ⟨rfl, rfl⟩

end Memory

theorem Filter.holds_rename (filter : Filter) (item : Item) :
    (filter.rename ρ).holds (item.rename ρ) = filter.holds item := by
  have hid : ∀ key : Option Uuid,
      Clause.keyMatches (key.map ρ.id) (ρ.id item.id) = Clause.keyMatches key item.id := by
    intro key
    cases key <;> simp [Clause.keyMatches, ρ.id_inj]
  have hclause : ∀ c : Clause, (c.rename ρ).holds (item.rename ρ) = c.holds item := by
    intro c
    simp only [Clause.holds, Clause.rename, Item.rename, hid]
  simp only [Filter.holds, Filter.rename, List.isEmpty_map, List.any_map, Function.comp_def,
    hclause]

namespace Memory

theorem has_rename (m : Memory) (id : Uuid) : (m.rename ρ).has (ρ.id id) = m.has id := by
  simp only [has, rename, List.any_map, Function.comp_def, Item.rename_id, ρ.id_inj]

theorem find?_rename (m : Memory) (id : Uuid) :
    (m.rename ρ).items.find? (·.id = ρ.id id) =
      (m.items.find? (·.id = id)).map (Item.rename ρ) := by
  simp only [rename, List.find?_map, Function.comp_def, Item.rename_id, ρ.id_inj]

theorem filter_rename (m : Memory) (filter : Filter) :
    (m.rename ρ).items.filter (filter.rename ρ).holds =
      (m.items.filter filter.holds).map (Item.rename ρ) := by
  simp only [rename, List.filter_map, Function.comp_def, filter.holds_rename]

theorem hasAny_rename (m : Memory) (filter : Filter) :
    (m.rename ρ).hasAny (filter.rename ρ) = m.hasAny filter := by
  simp only [hasAny, rename, List.any_map, Function.comp_def, filter.holds_rename]

theorem list_rename (m : Memory) (filter : Filter) :
    (m.rename ρ).list (filter.rename ρ) = (m.list filter).map (Item.rename ρ) := by
  rw [list, filter_rename, sortItems_rename, list]

theorem rename_put (m : Memory) (item : Item) :
    (m.put item).rename ρ = (m.rename ρ).put (item.rename ρ) := by
  simp only [put, rename, List.map_map]
  congr 1
  refine List.map_congr_left fun other _ => ?_
  simp only [Function.comp_apply, Item.rename_id, ρ.id_inj]
  split <;> rfl

theorem update_rename (m : Memory) (now : Int64) (item : Item) :
    (Request.updateItem (item.rename ρ)).ending
          ((m.rename ρ).update (ρ.time now) (item.rename ρ)).1 =
        ((Request.updateItem item).ending (m.update now item).1).rename ρ ∧
      ((m.rename ρ).update (ρ.time now) (item.rename ρ)).2 = (m.update now item).2.rename ρ := by
  rcases update_cases m now item with
    ⟨hmissing, heq⟩ | ⟨stored, hstored, ⟨⟨other, hm, hne, hkey⟩, heq⟩ | ⟨hfree, heq⟩⟩
  · have hmissing' : (m.rename ρ).has (item.rename ρ).id = false := by
      rw [Item.rename_id, has_rename, hmissing]
    rw [heq, update_of_missing hmissing']
    exact ⟨rfl, rfl⟩
  · have hstored' :
        (m.rename ρ).items.find? (·.id = (item.rename ρ).id) = some (stored.rename ρ) := by
      rw [Item.rename_id, find?_rename, hstored]
      rfl
    have htaken : ∃ other ∈ (m.rename ρ).items, other.id ≠ (item.rename ρ).id ∧
        other.key = ((item.rename ρ).replacing (stored.rename ρ) (ρ.time now)).key :=
      ⟨other.rename ρ, List.mem_map_of_mem hm, fun h => hne (ρ.injective h), hkey⟩
    rw [heq, update_of_taken hstored' htaken]
    exact ⟨rfl, rfl⟩
  · have hstored' :
        (m.rename ρ).items.find? (·.id = (item.rename ρ).id) = some (stored.rename ρ) := by
      rw [Item.rename_id, find?_rename, hstored]
      rfl
    have hfree' : ∀ other ∈ (m.rename ρ).items, other.id ≠ (item.rename ρ).id →
        other.key ≠ ((item.rename ρ).replacing (stored.rename ρ) (ρ.time now)).key := by
      intro other hm hne
      obtain ⟨old, hold, rfl⟩ := List.mem_map.1 hm
      exact hfree old hold fun h => hne (congrArg ρ.id h)
    rw [heq, update_of_free hstored' hfree', ← Item.rename_replacing item stored now,
      ← rename_put]
    exact ⟨rfl, rfl⟩

theorem delete_rename (m : Memory) (id : Uuid) :
    (Request.deleteItem (ρ.id id)).ending ((m.rename ρ).delete (ρ.id id)).1 =
        ((Request.deleteItem id).ending (m.delete id).1).rename ρ ∧
      ((m.rename ρ).delete (ρ.id id)).2 = (m.delete id).2.rename ρ := by
  rw [delete, delete, has_rename]
  split
  · refine ⟨rfl, ?_⟩
    simp only [rename, List.eraseP_map, Function.comp_def, Item.rename_id, ρ.id_inj]
  · exact ⟨rfl, rfl⟩

theorem deleteAll_rename (m : Memory) (filter : Filter) :
    (m.rename ρ).deleteAll (filter.rename ρ) =
      ((m.deleteAll filter).1, (m.deleteAll filter).2.rename ρ) := by
  simp only [deleteAll, rename, List.filter_map, Function.comp_def, filter.holds_rename,
    List.length_map]

/-- A store in memory does the same under other ids and another clock. -/
theorem backend_rename (stamp : Stamp) (r : Request) (m : Memory) :
    (r.rename ρ).ending (backend (stamp.rename ρ) (r.rename ρ) (m.rename ρ)).1 =
        (r.ending (backend stamp r m).1).rename ρ ∧
      (backend (stamp.rename ρ) (r.rename ρ) (m.rename ρ)).2 = (backend stamp r m).2.rename ρ := by
  cases r with
  | hasItem id => exact ⟨congrArg (fun b => Except.ok (Reply.flag b)) (has_rename m id), rfl⟩
  | hasItems filter =>
    exact ⟨congrArg (fun b => Except.ok (Reply.flag b)) (hasAny_rename m filter), rfl⟩
  | getItem id =>
    refine ⟨?_, rfl⟩
    change (Request.getItem (ρ.id id)).ending ((m.rename ρ).get (ρ.id id)) =
      ((Request.getItem id).ending (m.get id)).rename ρ
    rw [get, get, find?_rename]
    cases m.items.find? (·.id = id) <;> rfl
  | getItems filter =>
    exact ⟨congrArg (fun items => Except.ok (Reply.items items)) (list_rename m filter), rfl⟩
  | addItem c => exact add_rename m stamp c
  | updateItem item => exact update_rename m stamp.now item
  | deleteItem id => exact delete_rename m id
  | deleteItems filter =>
    have hdelete : (m.rename ρ).deleteAll (filter.rename ρ) = _ := deleteAll_rename m filter
    exact ⟨congrArg (fun out : Nat × Memory => Except.ok (Reply.count out.1)) hdelete,
      congrArg Prod.snd hdelete⟩

/-- So does a whole run. -/
theorem endings_rename (calls : List (Stamp × Request)) (m : Memory) :
    backend.endings (m.rename ρ) (calls.map (renameCall ρ)) =
      (backend.endings m calls).map (Ending.rename ρ) := by
  induction calls generalizing m with
  | nil => rfl
  | cons call calls ih =>
    obtain ⟨hending, hnext⟩ := backend_rename call.1 call.2 m
    rw [List.map_cons, Backend.endings, Backend.endings, List.map_cons]
    exact congrArg₂ List.cons hending ((congrArg (backend.endings · _) hnext).trans (ih _))

end Memory

end Lineage
