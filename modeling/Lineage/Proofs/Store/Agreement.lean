/-
The store in a database and the store in memory agree.

From the empty store on, every sequence of calls ends the same way in both, call by call, apart from
the ids that the stores give out and the times that they write down. `endings_agree` says so for
the table, which knows no limits, and for a database that has just been migrated, as long as no
statement is too large for it.
-/

import Lineage.Database
import Lineage.Proofs.Store.Image
import Lineage.Proofs.Store.Renaming

namespace Lineage

/-! ### Fresh ids -/

/-- The id that a call gives out, if it adds an item. -/
def givenId? (call : Stamp × Request) : Option Uuid :=
  match call.2 with
  | .addItem _ => some call.1.id
  | _ => none

/-- The ids that calls give out, in order. -/
def givenIds (calls : List (Stamp × Request)) : List Uuid :=
  calls.filterMap givenId?

theorem givenIds_cons (call : Stamp × Request) (calls : List (Stamp × Request)) :
    givenIds (call :: calls) = (givenId? call).toList ++ givenIds calls := by
  rw [givenIds, List.filterMap_cons]
  cases givenId? call <;> rfl

theorem givenId?_renameCall (ρ : Renaming) (call : Stamp × Request) :
    givenId? (renameCall ρ call) = (givenId? call).map ρ.id := by
  obtain ⟨stamp, r⟩ := call
  cases r <;> rfl

theorem givenIds_map_renameCall (ρ : Renaming) (calls : List (Stamp × Request)) :
    givenIds (calls.map (renameCall ρ)) = (givenIds calls).map ρ.id := by
  simp only [givenIds, List.filterMap_map, Function.comp_def, givenId?_renameCall,
    List.map_filterMap]

namespace Memory

theorem has_iff {m : Memory} {id : Uuid} : m.has id = true ↔ id ∈ m.items.map Item.id := by
  simp [has]

/-- Only an addition brings a new id into a store, and only the one that it gives out. -/
theorem Change.has {m m' : Memory} {stamp : Stamp} {r : Request} {id : Uuid}
    (change : Change m stamp r m') (h : m'.has id = true) :
    m.has id = true ∨ givenId? (stamp, r) = some id := by
  rw [has_iff] at h ⊢
  cases change with
  | none => exact .inl h
  | add c _ =>
    rw [List.map_append, List.mem_append] at h
    exact h.imp_right fun hm => congrArg some (List.mem_singleton.1 hm).symm
  | put item stored _ _ =>
    rw [map_id_put] at h
    exact .inl h
  | erase id => exact .inl ((List.eraseP_sublist.map _).subset h)
  | drop filter => exact .inl ((List.filter_sublist.map _).subset h)

end Memory

theorem storable_renameCall (ρ : Renaming) (call : Stamp × Request) :
    (renameCall ρ call).2.Storable ↔ call.2.Storable := by
  obtain ⟨stamp, r⟩ := call
  cases r <;> rfl

/-! ### Runs -/

namespace Table

/-- A run on a table ends as it does on the store whose items the table holds. -/
theorem endings_ofMemory {m : Memory} (hs : m.Sound)
    (hp : m.Storable) {calls : List (Stamp × Request)}
    (hcalls : ∀ call ∈ calls, call.2.Storable) (hids : (givenIds calls).Nodup)
    (hnew : ∀ id ∈ givenIds calls, m.has id = false) :
    backend.endings (ofMemory m) calls = Memory.backend.endings m calls := by
  induction calls generalizing m with
  | nil => rfl
  | cons call calls ih =>
    obtain ⟨stamp, r⟩ := call
    rw [List.forall_mem_cons] at hcalls
    have fresh : ∀ c, r = .addItem c → m.has stamp.id = false := by
      rintro c rfl
      exact hnew stamp.id (by simp [givenIds_cons, givenId?])
    have hstep := backend_ofMemory hs hp r hcalls.1 fresh
    rw [Backend.endings, Backend.endings, hstep]
    rw [givenIds_cons, List.nodup_append] at hids
    rw [givenIds_cons, List.forall_mem_append] at hnew
    refine congrArg _
      (ih (hs.step stamp r fresh) (hp.backend hcalls.1) hcalls.2 hids.2.1 fun id hm => ?_)
    -- An id that is still to be given out is neither old nor the one that was given out now.
    rw [← Bool.not_eq_true]
    intro hhas
    rcases (Memory.change_backend m stamp r).has hhas with hold | hgiven
    · rw [hnew.2 id hm] at hold
      cases hold
    · exact hids.2.2 id (Option.mem_toList.2 hgiven) id hm rfl

end Table

namespace Database

/-- A database whose table can be used answers a request that is not too large as its table does. -/
theorem backend_of_ready {db : Database} {stamp : Stamp} {r : Request}
    (htable : db.tableFault? = none) (hsize : statementFault? r = none) :
    backend stamp r db =
      ((Table.backend stamp r db.items).1,
        { db with items := (Table.backend stamp r db.items).2 }) := by
  rw [backend, hsize, htable]
  rfl

/-- A clause compares four columns at most. -/
theorem length_comparisons_le (clause : Clause) : clause.comparisons.length ≤ 4 := by
  obtain ⟨id, definitionId, tenantId, version⟩ := clause
  cases id <;> cases definitionId <;> cases tenantId <;> cases version <;>
    simp [Clause.comparisons]

/-- A lookup by one clause is never too large. -/
theorem statementFault?_single (clause : Clause) :
    statementFault? (.getItems (.single clause)) = none := by
  have hheight : (Filter.single clause).condition.height ≤ 5 := by
    have hlength := length_comparisons_le clause
    change max 2 (clause.comparisons.length + 1) ≤ 5
    omega
  exact if_neg (Nat.not_lt.2 (hheight.trans (by decide)))

theorem endings_of_ready {db : Database} {calls : List (Stamp × Request)}
    (htable : db.tableFault? = none) (hsize : ∀ call ∈ calls, statementFault? call.2 = none) :
    backend.endings db calls = Table.backend.endings db.items calls := by
  induction calls generalizing db with
  | nil => rfl
  | cons call calls ih =>
    rw [List.forall_mem_cons] at hsize
    rw [Backend.endings, Backend.endings, backend_of_ready htable hsize.1]
    exact congrArg _ (ih htable hsize.2)

/-- The migration of an empty database makes an empty table that can be used. -/
theorem ready_of_migrate {db : Database} (h : Database.empty.migrate.1 = .ok db) :
    db.tableFault? = none ∧ db.items = Table.empty := by
  have hdb : Database.empty.migrate.1 = .ok
      ⟨1, [⟨.table, itemTable, itemColumns⟩,
        ⟨.index, "ux_definition_items_lineage_version", ["definition_id", "tenant_id", "version"]⟩,
        ⟨.index, "ix_definition_items_lineage", ["definition_id", "tenant_id"]⟩], Table.empty⟩ := by
    rfl
  rw [hdb] at h
  cases h
  exact ⟨by decide, rfl⟩

end Database

/-! ### Agreement -/

section Agreement

variable {ρ ρ' : Renaming} {calls calls' : List (Stamp × Request)}
  (hsame : calls'.map (renameCall ρ') = calls.map (renameCall ρ)) (hids : (givenIds calls).Nodup)
  (hpayloads : ∀ call ∈ calls, call.2.Storable)

include hsame hids hpayloads

theorem Table.endings_of_same_calls :
    (Table.backend.endings .empty calls').map (Ending.rename ρ') =
      (Memory.backend.endings .empty calls).map (Ending.rename ρ) := by
  have hids' : (givenIds calls').Nodup := by
    have hgiven : (givenIds calls').map ρ'.id = (givenIds calls).map ρ.id := by
      rw [← givenIds_map_renameCall, ← givenIds_map_renameCall, hsame]
    exact List.Nodup.of_map ρ'.id (hgiven ▸ hids.map ρ.injective)
  have hpayloads' : ∀ call ∈ calls', call.2.Storable := by
    intro call hm
    have hrenamed : renameCall ρ' call ∈ calls.map (renameCall ρ) :=
      hsame ▸ List.mem_map_of_mem hm
    obtain ⟨other, hother, heq⟩ := List.mem_map.1 hrenamed
    rw [← storable_renameCall ρ', ← heq, storable_renameCall]
    exact hpayloads other hother
  have himage : Table.backend.endings .empty calls' = Memory.backend.endings .empty calls' :=
    Table.endings_ofMemory .empty (fun _ h => absurd h List.not_mem_nil) hpayloads' hids'
      fun _ _ => rfl
  calc (Table.backend.endings .empty calls').map (Ending.rename ρ')
      = (Memory.backend.endings .empty calls').map (Ending.rename ρ') := by rw [himage]
    _ = Memory.backend.endings .empty (calls'.map (renameCall ρ')) :=
        (Memory.endings_rename calls' .empty).symm
    _ = Memory.backend.endings .empty (calls.map (renameCall ρ)) := by rw [hsame]
    _ = (Memory.backend.endings .empty calls).map (Ending.rename ρ) :=
        Memory.endings_rename calls .empty

/-- From the empty store on, a table and a store in memory end each call in the same way when the
calls are the same up to ids and times; and the replies are the same up to the same ids and times.
So does the table of a database that has just been migrated, as long as the database takes every
statement. -/
theorem endings_agree :
    (Table.backend.endings .empty calls').map (Ending.rename ρ') =
        (Memory.backend.endings .empty calls).map (Ending.rename ρ) ∧
      ∀ db, Database.empty.migrate.1 = .ok db →
        (∀ call ∈ calls', Database.statementFault? call.2 = none) →
          (Database.backend.endings db calls').map (Ending.rename ρ') =
            (Memory.backend.endings .empty calls).map (Ending.rename ρ) := by
  have htable := Table.endings_of_same_calls hsame hids hpayloads
  refine ⟨htable, fun db hdb hsize => ?_⟩
  obtain ⟨hready, hitems⟩ := Database.ready_of_migrate hdb
  rw [Database.endings_of_ready hready hsize, hitems]
  exact htable

end Agreement

/-- A payload with a number of either kind. -/
def halfAndOne : Json :=
  .ofMembers [("one", .number (.integer 1)),
    ("half", .number (.real ⟨false, ⟨1022 * Binary64.binade, by decide⟩⟩))]

theorem storable_halfAndOne : halfAndOne.Storable where
  legible := by
    have hone : Number.Legible (.integer 1) := by
      constructor <;> decide
    have hhalf : Number.Legible (.real ⟨false, ⟨1022 * Binary64.binade, by decide⟩⟩) :=
      ⟨⟨false, ['0'], some ['5'], none⟩, by decide +kernel, by decide +kernel⟩
    exact Json.legible_ofMembers (List.forall_mem_cons.2 ⟨hone, List.forall_mem_singleton.2 hhalf⟩)
  shallow := by decide

/-- Two additions of one version, a listing, and a deletion. -/
def rivals (first second : Uuid) (now : Int64) : List (Stamp × Request) :=
  let c : Candidate := ⟨"order", some " ", "1", none, none, halfAndOne⟩
  [(⟨first, now⟩, .addItem c), (⟨second, now + 1⟩, .addItem c),
    (⟨second, now + 2⟩, .getItems (.lineage "order" none)), (⟨second, now + 3⟩, .deleteItem first)]

/-- The renaming that counts ids one up and forgets the times. -/
def countUp : Renaming where
  id := fun id => ⟨id.bits + 1⟩
  time := fun _ => 0
  injective := by
    rintro ⟨a⟩ ⟨b⟩ h
    simpa using h

/-- The renaming that forgets the times. -/
def timeless : Renaming :=
  ⟨id, fun _ => 0, Function.injective_id⟩

/-- The second addition is refused by the database as it is in memory, and the rest agrees too. -/
theorem endings_agree_rivals :
    ∃ db, Database.empty.migrate.1 = .ok db ∧
      (Database.backend.endings db (rivals ⟨2⟩ ⟨3⟩ 50))[1]? =
        some (.error (.versionTaken "order" none "1")) ∧
      (Database.backend.endings db (rivals ⟨2⟩ ⟨3⟩ 50)).map (Ending.rename timeless) =
        (Memory.backend.endings .empty (rivals ⟨1⟩ ⟨2⟩ 10)).map (Ending.rename countUp) := by
  have hsame : (rivals ⟨2⟩ ⟨3⟩ 50).map (renameCall timeless) =
      (rivals ⟨1⟩ ⟨2⟩ 10).map (renameCall countUp) := rfl
  have hids : (givenIds (rivals ⟨1⟩ ⟨2⟩ 10)).Nodup := by decide
  have hpayloads : ∀ call ∈ rivals ⟨1⟩ ⟨2⟩ 10, call.2.Storable := by
    simp [rivals, Request.Storable, storable_halfAndOne]
  have hsize : ∀ call ∈ rivals ⟨2⟩ ⟨3⟩ 50, Database.statementFault? call.2 = none := by decide
  exact ⟨_, rfl, rfl, (endings_agree hsame hids hpayloads).2 _ rfl hsize⟩

end Lineage
