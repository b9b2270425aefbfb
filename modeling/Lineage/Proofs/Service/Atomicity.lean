/-
A failed call leaves a database as it was.

A persist call reads, and at most once it writes the submitted payload and ends in the answer to
that (`Dialogue.WritesLast`), so it fails without a write or because of a failed write. With what
the database does on failed requests this is `unchanged_of_failure`, for payloads that can be read
back. One that nests too deep cannot, and a call that fails for this reason has already written it:
whatever is brought, a failed call leaves the database as it was or with a row that cannot be read.
-/

import Lineage.Proofs.Service.Sanction
import Lineage.Proofs.Store.Atomicity

namespace Lineage

namespace Dialogue

variable {σ α β : Type} {backend : Backend σ} {stamp : Stamp} {s : σ} {allowed : Request → Prop}

theorem effect_of_verdict {d : Dialogue α} {result : α} (h : d.verdict = some result) :
    d.effect backend stamp s = (result, s) := by
  induction d with
  | done result' =>
    cases h
    rfl
  | note event next ih => exact ih h
  | ask request next _ => cases h

/-- Whether everything that a dialogue may ask for is allowed. -/
def Asks (allowed : Request → Prop) : Dialogue α → Prop
  | .done _ => True
  | .ask request next => allowed request ∧ ∀ answer, (next answer).Asks allowed
  | .note _ next => next.Asks allowed

theorem Asks.bind {d : Dialogue α} {f : α → Dialogue β} (hd : d.Asks allowed)
    (hf : ∀ result, (f result).Asks allowed) : (d.bind f).Asks allowed := by
  induction d with
  | done result => exact hf result
  | ask request next ih => exact ⟨hd.1, fun answer => ih answer (hd.2 answer)⟩
  | note event next ih => exact ih hd

theorem asks_of_verdict {d : Dialogue α} {result : α} (h : d.verdict = some result) :
    d.Asks allowed := by
  induction d with
  | done _ => trivial
  | ask request next _ => cases h
  | note event next ih => exact ih h

end Dialogue

/-- A request that writes a payload. -/
def Request.Writes (payload : Json) : Request → Prop
  | .addItem c => c.payload = payload
  | .updateItem item => item.payload = payload
  | _ => False

theorem Request.Writes.readable {payload : Json} {r : Request} (h : r.Writes payload)
    (hpayload : payload.Readable) : r.Readable := by
  cases r with
  | addItem c =>
    obtain rfl : c.payload = payload := h
    exact hpayload
  | updateItem item =>
    obtain rfl : item.payload = payload := h
    exact hpayload
  | _ => trivial

namespace Dialogue

variable {σ : Type} {backend : Backend σ} {stamp : Stamp} {s : σ}

/-- A dialogue that looks for items, and at most once writes a payload and ends in the answer. -/
def WritesLast (payload : Json) : Service.Call Item → Prop
  | .done _ => True
  | .note _ next => next.WritesLast payload
  | .ask (.getItems _) next => ∀ answer, (next answer).WritesLast payload
  | .ask (.addItem c) next => c.payload = payload ∧
      ∀ answer, (next answer).verdict = some (answer.mapError .store)
  | .ask (.updateItem item) next => item.payload = payload ∧
      ∀ answer, (next answer).verdict = some (answer.mapError .store)
  | .ask _ _ => False

/-- A dialogue that writes a payload last writes nothing else. -/
theorem WritesLast.asks {payload : Json} (hpayload : payload.Readable) {d : Service.Call Item}
    (hd : d.WritesLast payload) : d.Asks Request.Readable := by
  induction d with
  | done _ => trivial
  | note event next ih => exact ih hd
  | ask request next ih =>
    cases request with
    | getItems filter => exact ⟨trivial, fun answer => ih answer (hd answer)⟩
    | addItem c =>
      obtain ⟨hc, hend⟩ := hd
      subst hc
      exact ⟨hpayload, fun answer => asks_of_verdict (hend answer)⟩
    | updateItem item =>
      obtain ⟨hitem, hend⟩ := hd
      subst hitem
      exact ⟨hpayload, fun answer => asks_of_verdict (hend answer)⟩
    | _ => cases hd

theorem exists_error_of_mapError {answer : Except StoreError Item} {cause : ServiceError}
    (h : answer.mapError .store = .error cause) : ∃ fault, answer = .error fault := by
  cases answer with
  | ok item => cases h
  | error fault => exact ⟨fault, rfl⟩

/-- Where a dialogue that writes last fails, it has left the store as it was, or its write has failed. -/
theorem WritesLast.effect_of_error {payload : Json} (hread : ∀ filter, (backend stamp (.getItems filter) s).2 = s)
    {d : Service.Call Item} (hd : d.WritesLast payload) {cause : ServiceError}
    (h : (d.effect backend stamp s).1 = .error cause) :
    (d.effect backend stamp s).2 = s ∨ ∃ r fault, r.Writes payload ∧
      (backend stamp r s).1 = .error fault ∧ (d.effect backend stamp s).2 = (backend stamp r s).2 := by
  induction d with
  | done result => exact .inl rfl
  | note event next ih => exact ih hd h
  | ask request next ih =>
    rw [effect_ask] at h ⊢
    cases request with
    | getItems filter =>
      rw [hread filter] at h ⊢
      exact ih _ (hd _) h
    | addItem c =>
      obtain ⟨hc, hend⟩ := hd
      rw [effect_of_verdict (hend _)] at h ⊢
      obtain ⟨fault, hfault⟩ := exists_error_of_mapError h
      exact .inr ⟨.addItem c, fault, hc, hfault, rfl⟩
    | updateItem item =>
      obtain ⟨hitem, hend⟩ := hd
      rw [effect_of_verdict (hend _)] at h ⊢
      obtain ⟨fault, hfault⟩ := exists_error_of_mapError h
      exact .inr ⟨.updateItem item, fault, hitem, hfault, rfl⟩
    | _ => cases hd

end Dialogue

/-! ### Persist calls write last -/

/-- The payload that a write stores. -/
def Write.payload : Write → Json
  | .insert c => c.payload
  | .update item => item.payload

section Persist

variable {service : Service} {mode : Mode} {c : WriteContext}

theorem WriteContext.payload_autoIncrement {increment : Incrementer} {field : ReleaseField}
    {planned : Write} (h : c.autoIncrement increment field = .ok planned) :
    planned.payload = c.candidate.payload := by
  unfold autoIncrement at h
  split at h
  · split at h
    · cases h
      rfl
    · cases h
  · cases h
    rfl

/-- Whatever is planned stores the payload of the candidate. -/
theorem WriteContext.payload_plan {increment : Incrementer} {planned : Write}
    (h : c.plan increment mode = .ok planned) : planned.payload = c.candidate.payload := by
  cases mode with
  | overwrite =>
    cases Except.ok.inj h
    unfold overwrite
    split <;> rfl
  | overwriteLatest =>
    cases Except.ok.inj h
    unfold overwriteLatest
    split <;> rfl
  | manual =>
    change c.manual = .ok planned at h
    unfold manual at h
    split at h
    · cases h
    · cases h
      rfl
  | autoIncrementMajor => exact payload_autoIncrement h
  | autoIncrementMinor => exact payload_autoIncrement h

theorem writesLast_write (definitionId : String) (planned : Write) :
    (Service.write mode definitionId planned).WritesLast planned.payload := by
  cases planned with
  | insert candidate => exact ⟨rfl, verdict_written _ definitionId⟩
  | update item => exact ⟨rfl, verdict_written _ definitionId⟩

theorem writesLast_reconcile {payload : Json} (h : c.candidate.payload = payload) :
    (service.reconcile mode c).WritesLast payload := by
  unfold Service.reconcile
  split
  · trivial
  · split
    · next planned hplan =>
      rw [← h, ← WriteContext.payload_plan hplan]
      exact writesLast_write c.candidate.definitionId planned
    · trivial

theorem writesLast_latestIn {payload : Json} {clause : Clause} {tenantId : Option String}
    {next : Option Item → Service.Call Item} (h : ∀ found, (next found).WritesLast payload) :
    (Service.latestIn clause tenantId next).WritesLast payload := by
  intro answer
  cases answer with
  | ok items => exact h _
  | error cause => trivial

/-- Every persist call writes last. -/
theorem writesLast_persist (service : Service) (chosen : Option Mode) (s : Submission) :
    (service.persist chosen s).WritesLast s.payload := by
  unfold Service.persist
  split
  · trivial
  · unfold Service.persistAs
    refine writesLast_latestIn fun existing => ?_
    split
    · refine writesLast_latestIn fun latest => ?_
      exact writesLast_reconcile rfl
    · exact writesLast_reconcile rfl

end Persist

/-! ### Failures -/

/-- A request to a database that fails, and a persist call over it that fails, leave it as it was,
if the payload that they bring can be read back. Whatever they bring, they leave it as it was or with a
row that cannot be read. -/
theorem unchanged_of_failure {db : Database} (hdb : db.Reachable) (stamp : Stamp) :
    (∀ (r : Request) (cause : StoreError), (Database.backend stamp r db).1 = .error cause →
      (r.Readable → (Database.backend stamp r db).2 = db) ∧
        ((Database.backend stamp r db).2 = db ∨
          ∃ row ∈ (Database.backend stamp r db).2.items.rows, ∃ fault, row.decode = .error fault)) ∧
    ∀ (service : Service) (chosen : Option Mode) (s : Submission) (cause : ServiceError),
      ((service.persist chosen s).effect Database.backend stamp db).1 = .error cause →
        (s.payload.Readable →
          ((service.persist chosen s).effect Database.backend stamp db).2 = db) ∧
        (((service.persist chosen s).effect Database.backend stamp db).2 = db ∨
          ∃ row ∈ ((service.persist chosen s).effect Database.backend stamp db).2.items.rows,
            ∃ fault, row.decode = .error fault) := by
  have hrequests (r : Request) (cause : StoreError)
      (h : (Database.backend stamp r db).1 = .error cause) :
      (r.Readable → (Database.backend stamp r db).2 = db) ∧
        ((Database.backend stamp r db).2 = db ∨
          ∃ row ∈ (Database.backend stamp r db).2.items.rows, ∃ fault, row.decode = .error fault) :=
    ⟨fun hr => hdb.backend_of_error hr h, Database.eq_or_exists_unreadable r h⟩
  refine ⟨hrequests, fun service chosen s cause h => ?_⟩
  have hlast := writesLast_persist service chosen s
  rcases hlast.effect_of_error (fun filter => Database.backend_getItems stamp filter db) h with
    hsame | ⟨r, fault, hr, hfail, hstate⟩
  · exact ⟨fun _ => hsame, .inl hsame⟩
  · rw [hstate]
    obtain ⟨hreadable, hleft⟩ := hrequests r fault hfail
    exact ⟨fun hs => hreadable (hr.readable hs), hleft⟩

/-! ### A payload that cannot be read back -/

/-- Arrays one inside the other. -/
def nested : Nat → Json
  | 0 => .null
  | n + 1 => .array [nested n]

theorem depth_nested (n : Nat) : (nested n).depth = n := by
  induction n with
  | zero => rfl
  | succ n ih =>
    rw [nested, Json.depth, Json.depthElements, Json.depthElements, ih, Nat.max_zero]

theorem inRange_nested (n : Nat) : (nested n).InRange := by
  induction n with
  | zero => trivial
  | succ n ih => exact ⟨ih, trivial⟩

/-- The row of an item whose payload nests one level too deep is no item. -/
theorem Row.exists_error_nested (row : Row) {id : Uuid} {created updated : Int64}
    (hid : row.id = id.text) (hpayload : row.payload = (nested Json.maxDepth).text)
    (hcreated : row.createdAt = .millis created) (hupdated : row.lastUpdatedAt = .millis updated) :
    ∃ cause, row.decode = .error cause := by
  have hiff := exists_decode_iff row hid hpayload (inRange_nested Json.maxDepth) hcreated hupdated
  rw [depth_nested] at hiff
  cases hread : row.decode with
  | ok item => exact absurd (hiff.1 ⟨item, hread⟩) (Nat.lt_irrefl _)
  | error cause => exact ⟨cause, rfl⟩

/-- The order with a payload that nests one level too deep. -/
def deepened : Item :=
  ⟨⟨1⟩, "order", none, "1", none, none, nested Json.maxDepth, 0, 0⟩

/-- The update of the order puts its payload in and then fails. -/
theorem exists_backend_deepened : ∃ cause,
    Database.backend ⟨⟨2⟩, 9⟩ (.updateItem deepened) ordered =
      (.error cause, { ordered with items :=
        { rows := [Table.replacing deepened (Row.ofItem (order.toItem ⟨⟨1⟩, 0⟩)) 9] } }) := by
  have hid : (Row.ofItem (order.toItem ⟨⟨1⟩, 0⟩)).id = deepened.id.text := rfl
  have hupdate : Table.backend ⟨⟨2⟩, 9⟩ (.updateItem deepened) ordered.items =
      ((Table.replacing deepened (Row.ofItem (order.toItem ⟨⟨1⟩, 0⟩)) 9).decode,
        { rows := [Table.replacing deepened (Row.ofItem (order.toItem ⟨⟨1⟩, 0⟩)) 9] }) := by
    rw [ordered_items, Table.backend]
    exact Table.update_sole hid 9
  obtain ⟨cause, hcause⟩ := Row.exists_error_nested
    (Table.replacing deepened (Row.ofItem (order.toItem ⟨⟨1⟩, 0⟩)) 9) rfl rfl rfl rfl
  refine ⟨cause, ?_⟩
  rw [Database.backend_of_ready rfl rfl, hupdate, hcause]

theorem rows_deepened_ne :
    (Database.backend ⟨⟨2⟩, 9⟩ (.updateItem deepened) ordered).2.items.rows ≠ ordered.items.rows := by
  obtain ⟨cause, hbackend⟩ := exists_backend_deepened
  intro hrows
  rw [hbackend, ordered_items] at hrows
  have htime : TimeCell.millis 9 = .millis 0 :=
    congrArg Row.lastUpdatedAt (List.head_eq_of_cons_eq hrows)
  cases htime

/-- An update can fail and have changed its row. -/
theorem not_forall_unchanged_of_failure :
    ¬ ∀ (db : Database) (stamp : Stamp) (r : Request) (cause : StoreError), db.Reachable →
      r.InRange → (Database.backend stamp r db).1 = .error cause →
        (Database.backend stamp r db).2.items.rows = db.items.rows := by
  intro hall
  obtain ⟨cause, hbackend⟩ := exists_backend_deepened
  exact rows_deepened_ne (hall ordered ⟨⟨2⟩, 9⟩ (.updateItem deepened) cause reachable_ordered
    (inRange_nested Json.maxDepth) (by rw [hbackend]))

/-! ### Failures beside a row that cannot be read -/

theorem effect_latestIn_of_error {σ : Type} {backend : Backend σ} {stamp : Stamp} {s : σ}
    {clause : Clause} {tenantId : Option String} {next : Option Item → Service.Call Item}
    {cause : StoreError} (h : (backend stamp (.getItems (.single clause)) s).1 = .error cause) :
    ((Service.latestIn clause tenantId next).effect backend stamp s).1 = .error (.store cause) := by
  rw [Service.latestIn, Service.ask, Dialogue.effect_ask, h]
  rfl

/-- A persist call begins with a lookup in the lineage of its submission. -/
theorem exists_persistAs_eq (service : Service) (mode : Mode) (s : Submission)
    (definitionId : String) :
    ∃ next, service.persistAs mode s definitionId =
      Service.latestIn ⟨if mode = .overwrite then s.id else none, some definitionId,
        normalizeTenant s.tenantId, s.version⟩ (normalizeTenant s.tenantId) next := by
  unfold Service.persistAs
  exact ⟨_, rfl⟩

/-- The database after the update that failed. -/
def clogged : Database :=
  (Database.backend ⟨⟨2⟩, 9⟩ (.updateItem deepened) ordered).2

/-- A candidate for the version of the row that cannot be read. -/
def rival : Candidate :=
  ⟨"order", some " ", "1", none, none, .bool true⟩

/-- A submission to the lineage of the row that cannot be read. -/
def successor : Submission :=
  ⟨none, some "order", none, none, none, none, .bool true⟩

theorem exists_error_successor (stamp : Stamp) :
    ∃ cause, ((Service.persist {} none successor).effect Database.backend stamp clogged).1 =
      .error (.store cause) := by
  let row := Table.replacing deepened (Row.ofItem (order.toItem ⟨⟨1⟩, 0⟩)) 9
  obtain ⟨cause, hbackend⟩ := exists_backend_deepened
  have hrows : clogged.items.rows = [row] := by
    rw [clogged, hbackend]
  have hselect : row ∈ clogged.items.select
      (Filter.single ⟨none, some "order", none, none⟩).condition := by
    rw [Table.select, hrows, List.mem_filter]
    exact ⟨List.mem_singleton_self _, rfl⟩
  obtain ⟨cause, hlist⟩ := Table.exists_error_list hselect
    (Row.exists_error_nested row rfl rfl rfl rfl)
  have hlookup : (Database.backend stamp (.getItems (.single ⟨none, some "order", none, none⟩))
      clogged).1 = .error cause := by
    rw [Database.backend_of_ready rfl rfl]
    exact hlist
  have hresolved : Service.persist {} none successor =
      Service.persistAs {} .default successor "order" := rfl
  obtain ⟨next, hcall⟩ := exists_persistAs_eq {} .default successor "order"
  rw [hresolved, hcall]
  exact ⟨cause, effect_latestIn_of_error hlookup⟩

/-- The update that fails leaves a row that cannot be read. Beside it an addition fails on its version and
a call on its lineage, and neither changes the database. -/
theorem unchanged_of_failure_clogged :
    clogged.Reachable ∧
      (∃ row ∈ clogged.items.rows, ∃ fault, row.decode = .error fault) ∧
      (Database.backend ⟨⟨3⟩, 10⟩ (.addItem rival) clogged).1 =
        .error (.versionTaken "order" none "1") ∧
      (Database.backend ⟨⟨3⟩, 10⟩ (.addItem rival) clogged).2 = clogged ∧
      (∃ cause, ((Service.persist {} none successor).effect Database.backend ⟨⟨3⟩, 10⟩ clogged).1 =
        .error (.store cause)) ∧
      ((Service.persist {} none successor).effect Database.backend ⟨⟨3⟩, 10⟩ clogged).2 =
        clogged := by
  have hreach : clogged.Reachable := .step _ _ reachable_ordered
  have hadd : (Database.backend ⟨⟨3⟩, 10⟩ (.addItem rival) clogged).1 =
      .error (.versionTaken "order" none "1") := rfl
  obtain ⟨cause, hpersist⟩ := exists_error_successor ⟨⟨3⟩, 10⟩
  have hpayload : (Json.bool true).Readable := ⟨trivial, by decide⟩
  obtain ⟨hrequests, hcalls⟩ := unchanged_of_failure hreach ⟨⟨3⟩, 10⟩
  refine ⟨hreach, ?_, hadd, ?_, ⟨cause, hpersist⟩, ?_⟩
  · obtain ⟨cause, hbackend⟩ := exists_backend_deepened
    have hfails : (Database.backend ⟨⟨2⟩, 9⟩ (.updateItem deepened) ordered).1 = .error cause :=
      congrArg Prod.fst hbackend
    have hleft := ((unchanged_of_failure reachable_ordered ⟨⟨2⟩, 9⟩).1 _ cause hfails).2
    exact hleft.resolve_left fun hsame => rows_deepened_ne (congrArg (·.items.rows) hsame)
  · exact (hrequests (.addItem rival) (.versionTaken "order" none "1") hadd).1 hpayload
  · exact (hcalls {} none successor (.store cause) hpersist).1 hpayload

end Lineage
