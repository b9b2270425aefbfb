/-
What the rows of a store keep over requests and service calls.

A call of the service changes a store by one request at most, and a persist call never by a deletion
(`Operation.exists_request`). `Mirrors` says of a backend that its requests do to its rows what they do
to a store in memory, or nothing; the store in memory and the store in a database are such backends. So
one induction over the calls shows for both what `rows_endure` says.
-/

import Lineage.Proofs.Service.Atomicity
import Lineage.Proofs.Store.Permanence

namespace Lineage

/-! ### Operations -/

/-- A request to a store, or a call of a service over it. -/
inductive Operation where
  | request (r : Request)
  | has (id : Uuid)
  | hasAny (filter : Filter)
  | get (id : Uuid)
  | list (filter : Filter)
  | delete (id : Uuid)
  | deleteAll (filter : Filter)
  | persist (service : Service) (mode : Option Mode) (s : Submission)
  | persistByName (service : Service) (name : Option String) (s : Submission)

namespace Operation

/-- The state of a backend after an operation. -/
def next {σ : Type} (backend : Backend σ) (stamp : Stamp) (s : σ) : Operation → σ
  | .request r => (backend stamp r s).2
  | .has id => ((Service.has id).effect backend stamp s).2
  | .hasAny filter => ((Service.hasAny filter).effect backend stamp s).2
  | .get id => ((Service.get id).effect backend stamp s).2
  | .list filter => ((Service.list filter).effect backend stamp s).2
  | .delete id => ((Service.delete id).effect backend stamp s).2
  | .deleteAll filter => ((Service.deleteAll filter).effect backend stamp s).2
  | .persist service mode sub => ((service.persist mode sub).effect backend stamp s).2
  | .persistByName service name sub => ((service.persistByName name sub).effect backend stamp s).2

/-- The one request that an operation makes, unless it is a persist call. -/
def request? : Operation → Option Request
  | .request r => some r
  | .has id => some (.hasItem id)
  | .hasAny filter => some (.hasItems filter)
  | .get id => some (.getItem id)
  | .list filter => some (.getItems filter)
  | .delete id => some (.deleteItem id)
  | .deleteAll filter => some (.deleteItems filter)
  | .persist .. | .persistByName .. => none

/-- Whether an operation may add an item, and so give out the fresh id. -/
def mayAdd (op : Operation) : Bool :=
  match op.request? with
  | some (.addItem _) | none => true
  | some _ => false

/-- Whether an operation deletes a row. -/
def erases (op : Operation) (row : Row) : Bool :=
  op.request?.any (·.erases row)

/-- Whether an operation may change a store by a request: its one request, or in a persist call one
that does not delete. -/
def Makes (op : Operation) (r : Request) : Prop :=
  match op.request? with
  | some r' => r = r'
  | none => ∀ row, r.erases row = false

variable {σ : Type} {backend : Backend σ} {stamp : Stamp} {s : σ} {op : Operation} {r : Request}

theorem Makes.mayAdd {c : Candidate} (h : op.Makes r) (hadd : r = .addItem c) :
    op.mayAdd = true := by
  unfold Makes at h
  unfold Operation.mayAdd
  cases hop : op.request? with
  | none => rfl
  | some r' =>
    rw [hop] at h
    rw [← h, hadd]

theorem Makes.erases {row : Row} (h : op.Makes r) (herases : r.erases row = true) :
    op.erases row = true := by
  unfold Makes at h
  unfold Operation.erases
  cases hop : op.request? with
  | none =>
    rw [hop] at h
    rw [h row] at herases
    cases herases
  | some r' =>
    rw [hop] at h
    rw [← h]
    exact herases

end Operation

/-! ### Calls as requests -/

section Requests

variable {σ : Type} {backend : Backend σ} {stamp : Stamp} {s : σ}

/-- A call that asks for one thing changes a store by that request. -/
theorem state_ask {α : Type} {request : Request} {next : request.Value → Service.Call α}
    (hnext : ∀ value, (next value).verdict.isSome) :
    ((Service.ask request next).effect backend stamp s).2 = (backend stamp request s).2 := by
  rw [Service.ask, Dialogue.effect_ask]
  cases (backend stamp request s).1 with
  | error cause => rfl
  | ok value =>
    obtain ⟨result, hresult⟩ := Option.isSome_iff_exists.1 (hnext value)
    exact congrArg Prod.snd (Dialogue.effect_of_verdict hresult)

theorem Operation.next_of_request? {op : Operation} {r : Request} (h : op.request? = some r) :
    op.next backend stamp s = (backend stamp r s).2 := by
  cases op with
  | request r =>
    cases h
    rfl
  | has | hasAny | get | list | delete | deleteAll =>
    cases h
    exact state_ask fun _ => rfl
  | persist | persistByName => cases h

/-- A dialogue that writes last changes a store by one request, which is not a deletion. -/
theorem Dialogue.WritesLast.exists_request {payload : Json}
    (hread : ∀ filter, (backend stamp (.getItems filter) s).2 = s) {d : Service.Call Item}
    (hd : d.WritesLast payload) :
    ∃ r : Request, (∀ row, r.erases row = false) ∧
      (d.effect backend stamp s).2 = (backend stamp r s).2 := by
  induction d with
  | done result => exact ⟨.getItems .all, fun _ => rfl, (hread .all).symm⟩
  | note event next ih => exact ih hd
  | ask request next ih =>
    rw [effect_ask]
    cases request with
    | getItems filter =>
      rw [hread filter]
      exact ih _ (hd _)
    | addItem c =>
      rw [effect_of_verdict (hd.2 _)]
      exact ⟨.addItem c, fun _ => rfl, rfl⟩
    | updateItem item =>
      rw [effect_of_verdict (hd.2 _)]
      exact ⟨.updateItem item, fun _ => rfl, rfl⟩
    | _ => cases hd

theorem writesLast_persistByName (service : Service) (name : Option String) (sub : Submission) :
    (service.persistByName name sub).WritesLast sub.payload := by
  unfold Service.persistByName
  split
  · exact writesLast_persist service none sub
  · split
    · trivial
    · exact writesLast_persist service _ sub

/-- Where lookups leave a store as it is, an operation changes it by one request. -/
theorem Operation.exists_request (hread : ∀ filter, (backend stamp (.getItems filter) s).2 = s)
    (op : Operation) : ∃ r, op.Makes r ∧ op.next backend stamp s = (backend stamp r s).2 := by
  cases h : op.request? with
  | some r => exact ⟨r, by rw [Makes, h], next_of_request? h⟩
  | none =>
    have hmakes : ∀ r, op.Makes r ↔ ∀ row, r.erases row = false := by
      intro r
      rw [Makes, h]
    simp only [hmakes]
    cases op with
    | persist service mode sub => exact (writesLast_persist service mode sub).exists_request hread
    | persistByName service name sub =>
      exact (writesLast_persistByName service name sub).exists_request hread
    | request | has | hasAny | get | list | delete | deleteAll => cases h

end Requests

/-! ### Runs -/

/-- The state of a backend after calls that are made one after the other. -/
def Backend.after {σ : Type} (backend : Backend σ) (s : σ) (calls : List (Stamp × Operation)) : σ :=
  calls.foldl (fun s call => call.2.next backend call.1 s) s

/-- The ids that calls may give out, in order. -/
def freshIds (calls : List (Stamp × Operation)) : List Uuid :=
  (calls.filter (·.2.mayAdd)).map (·.1.id)

/-- A mark that comes from one of the calls: its id and the time of the call. -/
def Added (calls : List (Stamp × Operation)) (mark : String × TimeCell) : Prop :=
  ∃ call ∈ calls, call.2.mayAdd = true ∧ mark = (call.1.id.text, .millis call.1.now)

/-- A mark whose row is deleted by one of the calls: when the call is made the row is there. -/
inductive Erased {σ : Type} (backend : Backend σ) (rows : σ → List Row) :
    σ → List (Stamp × Operation) → String × TimeCell → Prop where
  | now {s : σ} {call : Stamp × Operation} {rest : List (Stamp × Operation)} {row : Row}
      (there : row ∈ rows s) (erases : call.2.erases row = true) :
      Erased backend rows s (call :: rest) row.mark
  | later {s : σ} {call : Stamp × Operation} {rest : List (Stamp × Operation)}
      {mark : String × TimeCell}
      (h : Erased backend rows (call.2.next backend call.1 s) rest mark) :
      Erased backend rows s (call :: rest) mark

/-- A backend whose requests do to its rows what they do to those of a store in memory, or nothing. -/
structure Mirrors {σ : Type} (backend : Backend σ) (rows : σ → List Row) (R : σ → Memory → Prop) :
    Prop where
  rows_eq : ∀ {s m}, R s m → rows s = m.rows
  reads : ∀ {s m}, R s m → ∀ stamp filter, (backend stamp (.getItems filter) s).2 = s
  changes : ∀ {s m}, R s m → m.Sound → ∀ stamp r,
    (∀ c, r = .addItem c → m.has stamp.id = false) →
      ∃ m', m.Change stamp r m' ∧ R (backend stamp r s).2 m'

/-- What a backend keeps over calls. After all of them its rows are regular, and from the time after
the earlier ones on they have gone on: no row has lost its id, its creation time or its place among the
others unless one of the later calls has deleted it. -/
structure Keeps {σ : Type} (backend : Backend σ) (rows : σ → List Row) (s : σ)
    (earlier later : List (Stamp × Operation)) : Prop where
  regular : Regular (rows (backend.after (backend.after s earlier) later))
  endures : Endures (Added later) (Erased backend rows (backend.after s earlier) later)
    (rows (backend.after s earlier)) (rows (backend.after (backend.after s earlier) later))

/-- A store in memory before calls whose ids are new and which come one after the other in time. -/
structure Memory.Expects (m : Memory) (calls : List (Stamp × Operation)) : Prop where
  sound : m.Sound
  times : ∀ item ∈ m.items, item.createdAt ≤ item.lastUpdatedAt
  ids : (freshIds calls).Nodup
  fresh : ∀ id ∈ freshIds calls, m.has id = false
  clock : calls.Pairwise fun a b => a.1.now ≤ b.1.now
  passed : ∀ item ∈ m.items, ∀ call ∈ calls, item.createdAt ≤ call.1.now

section Runs

variable {σ : Type} {backend : Backend σ} {rows : σ → List Row} {R : σ → Memory → Prop} {s : σ}
  {m m' : Memory} {stamp : Stamp} {op : Operation} {r : Request} {call : Stamp × Operation}
  {calls rest : List (Stamp × Operation)}

theorem freshIds_cons (call : Stamp × Operation) (rest : List (Stamp × Operation)) :
    freshIds (call :: rest) =
      (if call.2.mayAdd = true then [call.1.id] else []) ++ freshIds rest := by
  unfold freshIds
  rw [List.filter_cons]
  split <;> rfl

theorem Memory.Expects.fresh_head (h : m.Expects (call :: rest)) (hadd : call.2.mayAdd = true) :
    m.has call.1.id = false := by
  refine h.fresh call.1.id ?_
  rw [freshIds_cons, if_pos hadd]
  exact List.mem_cons_self

/-- What a store expects it still expects after the first of the calls. -/
theorem Memory.Expects.tail (h : m.Expects (call :: rest)) (hmakes : call.2.Makes r)
    (change : m.Change call.1 r m') : m'.Expects rest := by
  have hids := h.ids
  have hfresh := h.fresh
  rw [freshIds_cons] at hids hfresh
  rw [List.nodup_append] at hids
  rw [List.forall_mem_append] at hfresh
  obtain ⟨hbefore, hclock⟩ := List.pairwise_cons.1 h.clock
  refine ⟨?_, ?_, hids.2.1, ?_, hclock, ?_⟩
  · exact h.sound.of_change change fun c hadd => h.fresh_head (hmakes.mayAdd hadd)
  · exact change.times h.times fun item hitem => h.passed item hitem call List.mem_cons_self
  · intro id hid
    rw [← Bool.not_eq_true]
    intro hhas
    rcases change.has hhas with hold | hgiven
    · rw [hfresh.2 id hid] at hold
      cases hold
    · -- The id that was given out now is none of those that are still to be given out.
      obtain ⟨c, rfl, rfl⟩ : ∃ c, r = .addItem c ∧ call.1.id = id := by
        cases r <;> cases hgiven
        exact ⟨_, rfl, rfl⟩
      refine hids.2.2 call.1.id ?_ call.1.id hid rfl
      rw [if_pos (hmakes.mayAdd rfl)]
      exact List.mem_cons_self
  · intro item hitem later hlater
    rcases change.createdAt hitem with hnow | ⟨old, hold, htime⟩
    · rw [hnow]
      exact hbefore later hlater
    · rw [htime]
      exact h.passed old hold later (List.mem_cons_of_mem _ hlater)

/-- A call is mirrored by a change of the store in memory. -/
theorem Mirrors.exists_change (mirrors : Mirrors backend rows R) (hR : R s m)
    (h : m.Expects (call :: rest)) :
    ∃ r m', call.2.Makes r ∧ m.Change call.1 r m' ∧ R (call.2.next backend call.1 s) m' := by
  obtain ⟨r, hmakes, hnext⟩ := call.2.exists_request (mirrors.reads hR call.1)
  obtain ⟨m', hchange, hR'⟩ := mirrors.changes hR h.sound call.1 r
    fun c hadd => h.fresh_head (hmakes.mayAdd hadd)
  rw [← hnext] at hR'
  exact ⟨r, m', hmakes, hchange, hR'⟩

/-- After the first calls the store in memory expects the others. -/
theorem Mirrors.expects (mirrors : Mirrors backend rows R) {earlier later : List (Stamp × Operation)}
    (hR : R s m) (h : m.Expects (earlier ++ later)) :
    ∃ m', R (backend.after s earlier) m' ∧ m'.Expects later := by
  induction earlier generalizing s m with
  | nil => exact ⟨m, hR, h⟩
  | cons call rest ih =>
    obtain ⟨r, m', hmakes, hchange, hR'⟩ := mirrors.exists_change hR h
    exact ih hR' (h.tail hmakes hchange)

/-- The rows of a backend go on over calls. -/
theorem Mirrors.endures (mirrors : Mirrors backend rows R) (hR : R s m) (h : m.Expects calls) :
    Endures (Added calls) (Erased backend rows s calls) (rows s) (rows (backend.after s calls)) := by
  induction calls generalizing s m with
  | nil => exact .of_marks_eq rfl
  | cons call rest ih =>
    obtain ⟨r, m', hmakes, hchange, hR'⟩ := mirrors.exists_change hR h
    have hnext := h.tail hmakes hchange
    have hfirst : Endures (Added (call :: rest)) (Erased backend rows s (call :: rest)) (rows s)
        (rows (call.2.next backend call.1 s)) := by
      rw [mirrors.rows_eq hR, mirrors.rows_eq hR']
      refine (hchange.endures h.sound).mono ?_ ?_
      · rintro mark ⟨⟨c, hadd⟩, rfl⟩
        exact ⟨call, List.mem_cons_self, hmakes.mayAdd hadd, rfl⟩
      · rintro mark ⟨row, hrow, rfl, herases⟩
        rw [← mirrors.rows_eq hR] at hrow
        exact .now hrow (hmakes.erases herases)
    refine hfirst.trans ((ih hR' hnext).mono ?_ fun mark => .later) ?_
    · rintro mark ⟨other, hother, hadd, rfl⟩
      exact ⟨other, List.mem_cons_of_mem _ hother, hadd, rfl⟩
    · rw [mirrors.rows_eq hR']
      exact hnext.sound.nodup_marks

/-- Before calls whose ids are different and that come one after the other in time, an empty store
expects them. -/
theorem Memory.expects_empty (hids : (freshIds calls).Nodup)
    (hclock : calls.Pairwise fun a b => a.1.now ≤ b.1.now) : Memory.empty.Expects calls where
  sound := .empty
  times := List.forall_mem_nil _
  ids := hids
  fresh := fun _ _ => rfl
  clock := hclock
  passed := List.forall_mem_nil _

/-- A backend that starts empty keeps its rows over calls. -/
theorem Mirrors.keeps (mirrors : Mirrors backend rows R) (hR : R s .empty)
    {earlier later : List (Stamp × Operation)} (hids : (freshIds (earlier ++ later)).Nodup)
    (hclock : (earlier ++ later).Pairwise fun a b => a.1.now ≤ b.1.now) :
    Keeps backend rows s earlier later := by
  obtain ⟨m, hR', hlater⟩ := mirrors.expects hR (Memory.expects_empty hids hclock)
  have hnone : m.Expects (later ++ []) := by rwa [List.append_nil]
  obtain ⟨last, hlast, hexpects⟩ := mirrors.expects hR' hnone
  refine ⟨?_, mirrors.endures hR' hlater⟩
  rw [mirrors.rows_eq hlast]
  exact hexpects.sound.regular hexpects.times

end Runs

/-! ### The two backends -/

theorem Memory.mirrors : Mirrors Memory.backend Memory.rows fun s m => s = m where
  rows_eq := congrArg Memory.rows
  reads := fun _ _ _ => rfl
  changes := by
    rintro s _ rfl - stamp r -
    exact ⟨_, s.change_backend stamp r, rfl⟩

/-- The rows that a database holds. -/
def Database.rows (db : Database) : List Row :=
  db.items.rows

theorem Database.mirrors :
    Mirrors Database.backend Database.rows fun db m => db.items = Table.ofMemory m where
  rows_eq := congrArg Table.rows
  reads := fun _ stamp filter => Database.backend_getItems stamp filter _
  changes := by
    intro db m hitems hs stamp r fresh
    rcases Database.backend_cases stamp r db with ⟨cause, heq⟩ | heq
    · refine ⟨m, .none r, ?_⟩
      rw [heq]
      exact hitems
    · refine ⟨_, m.change_backend stamp r, ?_⟩
      rw [heq, hitems]
      exact Table.state_ofMemory hs r fresh

/-- Take any requests and service calls, made one after the other on an empty store, whatever their
arguments say, as long as the ids that they give out are different and the clock does not go back. At
the end no two rows have an id in common, or a definition id, a tenant and a version; no tenant is
blank; and no row was changed before it was created. Since any of the earlier calls the rows have kept
their ids, their creation times and their order, until they were deleted. This holds of the store in
memory, and of the store in a database that has just been migrated. -/
theorem rows_endure {earlier later : List (Stamp × Operation)}
    (hids : (freshIds (earlier ++ later)).Nodup)
    (hclock : (earlier ++ later).Pairwise fun a b => a.1.now ≤ b.1.now) :
    Keeps Memory.backend Memory.rows .empty earlier later ∧
      ∀ db, Database.empty.migrate.1 = .ok db →
        Keeps Database.backend Database.rows db earlier later := by
  refine ⟨Memory.mirrors.keeps rfl hids hclock, fun db hdb => ?_⟩
  exact Database.mirrors.keeps (Database.ready_of_migrate hdb).2 hids hclock

/-- Two orders are added, one for a blank tenant; then the second one is moved to a blank tenant of
another definition, with times of its own, the first one is deleted, and two submissions follow. -/
theorem rows_endure_moved :
    let earlier : List (Stamp × Operation) :=
      [(⟨⟨1⟩, 10⟩, .request (.addItem ⟨"order", some " ", "1", none, none, .null⟩)),
        (⟨⟨2⟩, 20⟩, .persist {} (some .manual) ⟨none, some "order", none, some "2", none, none, .null⟩)]
    let later : List (Stamp × Operation) :=
      [(⟨⟨2⟩, 20⟩, .request (.updateItem ⟨⟨2⟩, "menu", some "", "1", none, none, .null, 99, 0⟩)),
        (⟨⟨1⟩, 30⟩, .delete ⟨1⟩),
        (⟨⟨3⟩, 40⟩, .persistByName {} (some "Overwrite")
          ⟨some ⟨2⟩, some "menu", none, none, none, none, .bool true⟩),
        (⟨⟨4⟩, 40⟩, .persist {} none ⟨none, some "menu", none, none, none, none, .bool false⟩)]
    Keeps Memory.backend Memory.rows .empty earlier later ∧
      Keeps Database.backend Database.rows .initial earlier later := by
  intro earlier later
  have hids : (freshIds (earlier ++ later)).Nodup := by decide
  have hclock : (earlier ++ later).Pairwise fun a b => a.1.now ≤ b.1.now := by
    simp only [earlier, later, List.cons_append, List.nil_append, List.pairwise_cons]
    decide
  obtain ⟨hmemory, hdatabase⟩ := rows_endure hids hclock
  exact ⟨hmemory, hdatabase .initial rfl⟩

end Lineage
