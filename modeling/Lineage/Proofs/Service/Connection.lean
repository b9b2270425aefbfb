/-
A call on a connection to a database goes as on the database itself.

A connection remembers whether the database has changed, since only then its file is written. A call
whose payloads can be read back leaves the database as it was wherever the connection says that it has
not changed (`effect_connection`); and nothing is written through a path that says so (`through`).
-/

import Lineage.Proofs.Database.Connection
import Lineage.Proofs.Service.Atomicity

namespace Lineage

namespace Database

variable {α : Type} {db : Database}

theorem through_none : through none = backend := rfl

theorem through_cases (refusal : Option EngineFault) (stamp : Stamp) (r : Request) (db : Database) :
    (∃ cause, through refusal stamp r db = (.error cause, db)) ∨
      through refusal stamp r db = backend stamp r db := by
  unfold through
  split
  · exact .inl ⟨_, rfl⟩
  · exact .inr rfl

theorem Reachable.through (h : db.Reachable) (refusal : Option EngineFault) (stamp : Stamp)
    (r : Request) : (Database.through refusal stamp r db).2.Reachable := by
  rcases through_cases refusal stamp r db with ⟨cause, heq⟩ | heq
  · rw [heq]
    exact h
  · rw [heq]
    exact .step stamp r h

theorem Reachable.effect (h : db.Reachable) (refusal : Option EngineFault) (stamp : Stamp)
    (d : Dialogue α) : (d.effect (Database.through refusal) stamp db).2.Reachable := by
  induction d generalizing db with
  | done _ => exact h
  | note event next ih => exact ih h
  | ask request next ih => exact ih _ (h.through refusal stamp request)

theorem changes_error (r : Request) (cause : StoreError) : r.changes (.error cause) = false := by
  cases r <;> rfl

theorem backend_connection (place : Option Place) (refusal : Option EngineFault) (db : Database)
    (changed : Bool) (stamp : Stamp) (r : Request) :
    Connection.backend stamp r ⟨place, refusal, db, changed⟩ =
      ((through refusal stamp r db).1,
        ⟨place, refusal, (through refusal stamp r db).2,
          changed || r.changes (through refusal stamp r db).1⟩) := by
  cases refusal with
  | none => rfl
  | some fault =>
    cases hwrite : r.needsWrite with
    | false => simp only [Connection.backend, through, hwrite]
    | true => simp only [Connection.backend, through, hwrite, changes_error, Bool.or_false]

theorem Reachable.through_of_unchanging (hdb : db.Reachable) {refusal : Option EngineFault}
    {stamp : Stamp} {r : Request} (hr : r.Readable)
    (h : r.changes (Database.through refusal stamp r db).1 = false) :
    (Database.through refusal stamp r db).2 = db := by
  rcases through_cases refusal stamp r db with ⟨cause, heq⟩ | heq
  · rw [heq]
  · rw [heq] at h ⊢
    exact hdb.backend_of_unchanging hr h

/-- On a connection to a database, a dialogue goes as it goes on the database itself, and the connection
knows whether the database has changed. -/
theorem Reachable.effect_connection (hdb : db.Reachable) (refusal : Option EngineFault) (stamp : Stamp)
    {d : Dialogue α} (hd : d.Asks Request.Readable) (place : Option Place) (changed : Bool) :
    ∃ changed', d.effect Connection.backend stamp ⟨place, refusal, db, changed⟩ =
        ((d.effect (Database.through refusal) stamp db).1,
          ⟨place, refusal, (d.effect (Database.through refusal) stamp db).2, changed'⟩) ∧
      (changed' = false →
        changed = false ∧ (d.effect (Database.through refusal) stamp db).2 = db) := by
  induction d generalizing db changed with
  | done result => exact ⟨changed, rfl, fun h => ⟨h, rfl⟩⟩
  | note event next ih => exact ih hdb hd changed
  | ask request next ih =>
    obtain ⟨hrequest, hnext⟩ := hd
    rw [Dialogue.effect_ask, Dialogue.effect_ask, backend_connection]
    obtain ⟨changed', heffect, hsame⟩ := ih _ (hdb.through refusal stamp request) (hnext _) _
    refine ⟨changed', heffect, fun hunchanged => ?_⟩
    obtain ⟨hbefore, hafter⟩ := hsame hunchanged
    obtain ⟨hchanged, hrequest'⟩ := Bool.or_eq_false_iff.1 hbefore
    exact ⟨hchanged, hafter.trans (hdb.through_of_unchanging hrequest hrequest')⟩

end Database

end Lineage
