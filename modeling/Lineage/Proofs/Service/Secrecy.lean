/-
What a persist call logs tells nothing about contents.

Under the veil of `Veils` a persist call makes the same decisions as without it, as soon as the
comparator is replaced by the verdict that it gives; so it logs the same events
(`events_persistAs_veil`).
Two stores that are the same under the veil therefore lead to the same log for submissions that differ in
their contents only, when the verdicts are the same: `log_noninterference`.
-/

import Lineage.Proofs.Service.Atomicity
import Lineage.Proofs.Store.Veil

namespace Lineage

/-! ### The events of a dialogue -/

namespace Dialogue

variable {σ α : Type} {backend : Backend σ} {stamp : Stamp} {s : σ}

/-- The events on the way through a dialogue. -/
def events (backend : Backend σ) (stamp : Stamp) (d : Dialogue α) (s : σ) : List Event :=
  (d.run backend stamp s).events

/-- The records that a dialogue leaves in the log. -/
def records (backend : Backend σ) (stamp : Stamp) (d : Dialogue α) (s : σ) : List LogRecord :=
  (d.events backend stamp s).map Event.toRecord

@[simp] theorem events_done (result : α) : (done result).events backend stamp s = [] := rfl

@[simp] theorem events_note (event : Event) (next : Dialogue α) :
    (note event next).events backend stamp s = event :: next.events backend stamp s := rfl

theorem events_ask (request : Request) (next : request.Answer → Dialogue α) :
    (ask request next).events backend stamp s =
      (next (backend stamp request s).1).events backend stamp (backend stamp request s).2 := rfl

end Dialogue

/-! ### Verdicts -/

namespace Service

/-- The service whose comparator always gives the same verdict. -/
def withVerdict (service : Service) (verdict : Bool) : Service :=
  { service with comparator := fun _ _ => verdict }

/-- The row that a persist call finds for a submission. -/
def found? {σ : Type} (backend : Backend σ) (stamp : Stamp) (st : σ) (mode : Mode) (s : Submission)
    (definitionId : String) : Option Item :=
  let clause : Clause :=
    { id := if mode = .overwrite then s.id else none
      definitionId := some definitionId
      tenantId := normalizeTenant s.tenantId
      version := s.version }
  (backend stamp (.getItems (.single clause)) st).1.toOption.bind fun items =>
    items.find? (·.tenantId = normalizeTenant s.tenantId)

/-- What the comparator says of the row that a persist call finds, if it finds one. -/
def verdict? {σ : Type} (service : Service) (backend : Backend σ) (stamp : Stamp) (st : σ)
    (chosen : Option Mode) (s : Submission) : Option Bool :=
  s.resolvedId.bind fun definitionId =>
    (found? backend stamp st (chosen.getD service.config.defaultMode) s definitionId).map
      (service.comparator · (s.toCandidate definitionId service.config.initialVersion))

end Service

/-- Submissions that differ in their contents only. What a payload says counts only where it stands in
for the definition id. -/
structure Submission.Alike (s t : Submission) : Prop where
  id : s.id = t.id
  resolvedId : s.resolvedId = t.resolvedId
  tenantId : normalizeTenant s.tenantId = normalizeTenant t.tenantId
  version : s.version = t.version

/-- A submission without its contents. -/
def Submission.veil (s : Submission) : Submission :=
  { s with
    definitionId := none
    tenantId := normalizeTenant s.tenantId
    name := none
    purpose := none
    payload := .null }

/-! ### Persist calls under the veil -/

/-- The context of a write without contents. -/
def WriteContext.veil (c : WriteContext) : WriteContext where
  existing := c.existing.map Item.veil
  latest := c.latest.map Item.veil
  candidate := c.candidate.veil
  explicitVersion := c.explicitVersion

/-- A write without contents. -/
def Write.veil : Write → Write
  | .insert c => .insert c.veil
  | .update item => .update item.veil

theorem WriteContext.autoIncrement_veil (c : WriteContext) (increment : Incrementer)
    (field : ReleaseField) :
    c.veil.autoIncrement increment field = (c.autoIncrement increment field).map Write.veil := by
  obtain ⟨existing, latest, candidate, explicitVersion⟩ := c
  cases latest with
  | none => rfl
  | some latest =>
    have hversion : latest.veil.version = latest.version := rfl
    simp only [autoIncrement, veil, Option.map_some, hversion]
    cases increment latest.version field <;> rfl

theorem WriteContext.plan_veil (c : WriteContext) (increment : Incrementer) (mode : Mode) :
    c.veil.plan increment mode = (c.plan increment mode).map Write.veil := by
  cases mode with
  | overwrite =>
    obtain ⟨existing, latest, candidate, explicitVersion⟩ := c
    cases existing <;> rfl
  | overwriteLatest =>
    obtain ⟨existing, latest, candidate, explicitVersion⟩ := c
    cases latest <;> rfl
  | manual =>
    obtain ⟨existing, latest, candidate, explicitVersion⟩ := c
    cases existing <;> rfl
  | autoIncrementMajor => exact c.autoIncrement_veil increment .major
  | autoIncrementMinor => exact c.autoIncrement_veil increment .minor

section Persist

variable {σ : Type} {backend : Backend σ} {veil : σ → σ} {stamp : Stamp} {payload : Json} {st : σ}
  {service : Service} {mode : Mode}

/-- How a write ended is noted without its contents. -/
theorem events_written (action definitionId : String) (answer : Except StoreError Item)
    (stamp stamp' : Stamp) (st st' : σ) :
    (Service.written mode action definitionId (answer.map Item.veil)).events backend stamp st =
      (Service.written mode action definitionId answer).events backend stamp' st' := by
  cases answer <;> rfl

theorem events_write_veil (hv : Veils backend veil stamp payload st) (definitionId : String)
    {planned : Write} (hplanned : planned.payload = payload) :
    (Service.write mode definitionId planned.veil).events backend stamp.veil (veil st) =
      (Service.write mode definitionId planned).events backend stamp st := by
  cases planned with
  | insert c =>
    simp only [Service.write, Write.veil, Dialogue.events_ask]
    rw [hv.adds c hplanned]
    exact events_written "insert" definitionId _ _ _ _ _
  | update item =>
    simp only [Service.write, Write.veil, Dialogue.events_ask]
    rw [hv.updates item hplanned]
    exact events_written "update" definitionId _ _ _ _ _

theorem events_reconcile_veil (service : Service) (mode : Mode) (verdict : Bool) (c : WriteContext)
    (hv : Veils backend veil stamp c.candidate.payload st)
    (hverdict : ∀ row, c.existing = some row → service.comparator row c.candidate = verdict) :
    ((service.withVerdict verdict).reconcile mode c.veil).events backend stamp.veil (veil st) =
      (service.reconcile mode c).events backend stamp st := by
  have hsame : (c.existing.map Item.veil).filter (fun _ => verdict) =
      (c.existing.filter (service.comparator · c.candidate)).map Item.veil := by
    cases hrow : c.existing with
    | none => rfl
    | some row =>
      rw [Option.map_some, Option.filter_some, Option.filter_some, hverdict row hrow]
      cases verdict <;> rfl
  have hfilter : c.veil.existing.filter ((service.withVerdict verdict).comparator · c.veil.candidate) =
      (c.existing.filter (service.comparator · c.candidate)).map Item.veil := hsame
  have hplan := c.plan_veil service.incrementer mode
  unfold Service.reconcile
  rw [hfilter]
  cases c.existing.filter (service.comparator · c.candidate) with
  | some row => rfl
  | none =>
    dsimp only [Option.map_none, Service.withVerdict]
    rw [hplan]
    cases hplanned : c.plan service.incrementer mode with
    | ok planned =>
      have hpayload := WriteContext.payload_plan hplanned
      exact events_write_veil hv c.candidate.definitionId hpayload
    | error cause => rfl

theorem events_latestIn_veil {α : Type} (hv : Veils backend veil stamp payload st) {clause : Clause}
    {tenantId : Option String} {next next' : Option Item → Service.Call α}
    (hnext : ∀ items, (backend stamp (.getItems (.single clause)) st).1 = .ok items →
      (next' ((items.find? (·.tenantId = tenantId)).map Item.veil)).events backend stamp.veil (veil st) =
        (next (items.find? (·.tenantId = tenantId))).events backend stamp st) :
    (Service.latestIn clause tenantId next').events backend stamp.veil (veil st) =
      (Service.latestIn clause tenantId next).events backend stamp st := by
  simp only [Service.latestIn, Service.ask, Dialogue.events_ask, hv.lists, hv.reads]
  cases hitems : (backend stamp (.getItems (.single clause)) st).1 with
  | error cause => rfl
  | ok items =>
    have hfind : (items.map Item.veil).find? (·.tenantId = tenantId) =
        (items.find? (·.tenantId = tenantId)).map Item.veil := by
      rw [List.find?_map]
      rfl
    refine Eq.trans ?_ (hnext items hitems)
    rw [← hfind]
    rfl

/-- Under the veil a persist call logs what it logs without it, if the comparator gives the verdict that
it gives on the row that is found. -/
theorem events_persistAs_veil {s : Submission} {definitionId : String} {verdict : Bool}
    (hv : Veils backend veil stamp s.payload st)
    (hverdict : ∀ row, Service.found? backend stamp st mode s definitionId = some row →
      service.comparator row (s.toCandidate definitionId service.config.initialVersion) = verdict) :
    ((service.withVerdict verdict).persistAs mode s.veil definitionId).events backend stamp.veil
        (veil st) =
      (service.persistAs mode s definitionId).events backend stamp st := by
  obtain ⟨id, given, tenantId, version, name, purpose, payload⟩ := s
  simp only [Service.persistAs, Submission.toCandidate, Submission.veil, normalizeTenant_idem]
  simp only [Submission.toCandidate] at hverdict
  -- Whatever has been looked up, the rest of the call is a reconciliation.
  have hreconcile := fun existing latest =>
    events_reconcile_veil service mode verdict ⟨existing, latest, ⟨definitionId,
      normalizeTenant tenantId, version.getD service.config.initialVersion, name, purpose, payload⟩,
      version⟩ hv
  refine events_latestIn_veil hv fun items hitems => ?_
  have hfound : ∀ row, items.find? (·.tenantId = normalizeTenant tenantId) = some row →
      service.comparator row ⟨definitionId, normalizeTenant tenantId,
        version.getD service.config.initialVersion, name, purpose, payload⟩ = verdict := by
    intro row hrow
    refine hverdict row ?_
    simp only [Service.found?, hitems]
    exact hrow
  cases hrow : items.find? (·.tenantId = normalizeTenant tenantId) with
  | none => exact hreconcile none none (by simp)
  | some row =>
    rw [hrow] at hfound
    cases version with
    | none => exact hreconcile (some row) (some row) hfound
    | some version =>
      refine events_latestIn_veil hv fun rows hrows => ?_
      have hlatest : ∀ latest : Option Item,
          (latest.map Item.veil).getD row.veil = (latest.getD row).veil := by
        intro latest
        cases latest <;> rfl
      rw [hlatest]
      exact hreconcile (some row) (some _) hfound

/-- What a persist call logs is what it logs under the veil, given its verdict. -/
theorem events_persist_veil {s : Submission} {definitionId : String}
    (hv : Veils backend veil stamp s.payload st) (chosen : Option Mode)
    (hid : s.resolvedId = some definitionId) :
    (service.persist chosen s).events backend stamp st =
      ((service.withVerdict ((service.verdict? backend stamp st chosen s).getD false)).persistAs
        (chosen.getD service.config.defaultMode) s.veil definitionId).events backend stamp.veil
          (veil st) := by
  rw [events_persistAs_veil hv]
  · simp only [Service.persist, hid]
  · intro row hrow
    simp only [Service.verdict?, hid, Option.bind_some, hrow, Option.map_some, Option.getD_some]

end Persist

/-! ### Noninterference -/

theorem Submission.Alike.veil_eq {s t : Submission} (h : s.Alike t) : s.veil = t.veil := by
  simp only [veil, h.id, h.tenantId, h.version]

/-- Over two states that are the same under the veil, submissions that differ in their contents only
lead to the same events when the verdicts are the same. -/
theorem events_eq_of_veils {σ : Type} {backend : Backend σ} {veil : σ → σ} {service : Service}
    {chosen : Option Mode} {s t : Submission} {stamp stamp' : Stamp} {st st' : σ} (halike : s.Alike t)
    (hid : stamp.id = stamp'.id) (hstores : veil st = veil st')
    (hv : Veils backend veil stamp s.payload st) (hv' : Veils backend veil stamp' t.payload st')
    (hverdict : service.verdict? backend stamp st chosen s =
      service.verdict? backend stamp' st' chosen t) :
    (service.persist chosen s).events backend stamp st =
      (service.persist chosen t).events backend stamp' st' := by
  have hstamps : stamp.veil = stamp'.veil := by simp only [Stamp.veil, hid]
  cases hresolved : t.resolvedId with
  | none =>
    simp only [Service.persist, halike.resolvedId, hresolved]
    rfl
  | some definitionId =>
    rw [events_persist_veil hv chosen (halike.resolvedId.trans hresolved),
      events_persist_veil hv' chosen hresolved, hverdict, halike.veil_eq, hstores, hstamps]

/-- The payloads in a database are texts of documents that can be read. -/
def Database.Readable (db : Database) : Prop :=
  ∀ row ∈ db.items.rows, ∃ x : Json, row.payload = x.text ∧ x.Readable

theorem Json.Readable.exists_parse {x : Json} (h : x.Readable) :
    ∃ y, Json.parse x.text = .ok y :=
  (Json.exists_parse_text_iff h.inRange).2 h.shallow

theorem Database.Readable.veils {db : Database} (h : db.Readable) (stamp : Stamp) {payload : Json}
    (hpayload : payload.Readable) : Veils backend veil stamp payload db := by
  refine Database.veils (fun row hrow => ?_) stamp hpayload.exists_parse
  obtain ⟨x, htext, hx⟩ := h row hrow
  rw [htext]
  exact hx.exists_parse

/-- Take two stores that are equal but for the payloads, names, purposes and times of their rows, and
two submissions with the same id, definition id, tenant and version. If the comparator gives the same
verdict on the rows that the two calls find, the calls leave the same records in the log, whichever way
they end. They get the same fresh id, but may come at different times. In a database every payload has to
be a text that can be read back. -/
theorem log_noninterference (service : Service) (chosen : Option Mode) {s t : Submission}
    (alike : s.Alike t) {stamp stamp' : Stamp} (fresh : stamp.id = stamp'.id) :
    (∀ m m' : Memory, m.veil = m'.veil →
      service.verdict? Memory.backend stamp m chosen s =
          service.verdict? Memory.backend stamp' m' chosen t →
        (service.persist chosen s).records Memory.backend stamp m =
          (service.persist chosen t).records Memory.backend stamp' m') ∧
    ∀ db db' : Database, db.veil = db'.veil → db.Readable → db'.Readable →
      s.payload.Readable → t.payload.Readable →
      service.verdict? Database.backend stamp db chosen s =
          service.verdict? Database.backend stamp' db' chosen t →
        (service.persist chosen s).records Database.backend stamp db =
          (service.persist chosen t).records Database.backend stamp' db' := by
  constructor
  · intro m m' hstores hverdict
    exact congrArg (List.map Event.toRecord) (events_eq_of_veils alike fresh hstores
      (m.veils stamp s.payload) (m'.veils stamp' t.payload) hverdict)
  · intro db db' hstores hdb hdb' hs ht hverdict
    exact congrArg (List.map Event.toRecord) (events_eq_of_veils alike fresh hstores
      (hdb.veils stamp hs) (hdb'.veils stamp' ht) hverdict)

/-! ### Two stores that differ in their contents -/

/-- In memory the row that a persist call finds is the one that the submission matches. -/
theorem Service.found?_memory (stamp : Stamp) (m : Memory) (mode : Mode) (s : Submission)
    (definitionId : String) :
    found? Memory.backend stamp m mode s definitionId =
      s.matched (s.scope mode definitionId m) := by
  rw [Submission.matched_eq, ← filter_lookup, ← find?_sortItems]
  rfl

/-- A store with the first version of an order. -/
def noted (name : Option String) (payload : Json) (now : Int64) : Memory :=
  ⟨[⟨⟨1⟩, "order", none, "1", name, none, payload, now, now⟩]⟩

/-- A database with the first version of an order. -/
def notedInDatabase (name : Option String) (payload : Json) (now : Int64) : Database :=
  { Database.initial with items := Table.ofMemory (noted name payload now) }

theorem readable_notedInDatabase (name : Option String) (payload : Json) (now : Int64)
    (h : payload.Readable) : (notedInDatabase name payload now).Readable :=
  List.forall_mem_singleton.2 ⟨payload, rfl, h⟩

theorem found?_notedInDatabase {payload : Json} (h : payload.Storable) (name : Option String)
    (now : Int64) (stamp : Stamp) (mode : Mode) (s : Submission) (definitionId : String) :
    Service.found? Database.backend stamp (notedInDatabase name payload now) mode s definitionId =
      s.matched (s.scope mode definitionId (noted name payload now)) := by
  have hready : (notedInDatabase name payload now).tableFault? = none := by rfl
  have hp : (noted name payload now).Storable := List.forall_mem_singleton.2 h
  rw [← Service.found?_memory stamp]
  simp only [Service.found?]
  rw [Database.backend_of_ready hready (Database.statementFault?_single _)]
  simp only [Table.backend, notedInDatabase, Table.list_ofMemory hp]
  rfl

/-- The order is refused with other contents, and the log does not tell by what they differ from what
is stored, or what either of them is. -/
theorem log_noninterference_order :
    let s : Submission := ⟨none, some "order", none, some "1", some "renamed", none, .null⟩
    let t : Submission :=
      ⟨none, none, some " ", some "1", none, some "test", .object [("id", .string "order")]⟩
    ((Service.persist {} (some .manual) s).records Memory.backend ⟨⟨2⟩, 10⟩
          (noted none (.bool true) 3) =
        (Service.persist {} (some .manual) t).records Memory.backend ⟨⟨2⟩, 99⟩
          (noted (some "secret") (.string "secret") 7)) ∧
      (Service.persist {} (some .manual) s).records Database.backend ⟨⟨2⟩, 10⟩
          (notedInDatabase none (.bool true) 3) =
        (Service.persist {} (some .manual) t).records Database.backend ⟨⟨2⟩, 99⟩
          (notedInDatabase (some "secret") (.string "secret") 7) := by
  intro s t
  have halike : s.Alike t := ⟨rfl, by decide, by decide, rfl⟩
  have hfresh : Stamp.id ⟨⟨2⟩, 10⟩ = Stamp.id ⟨⟨2⟩, 99⟩ := rfl
  have htrue : (Json.bool true).Storable := ⟨trivial, by decide⟩
  have hsecret : (Json.string "secret").Storable := ⟨trivial, by decide⟩
  have hs : Json.Readable .null := ⟨trivial, by decide⟩
  have ht : (Json.object [("id", .string "order")]).Readable := ⟨⟨trivial, trivial⟩, by decide⟩
  obtain ⟨hmemory, hdatabase⟩ := log_noninterference {} (some .manual) halike hfresh
  have hdb := readable_notedInDatabase none (.bool true) 3 ⟨trivial, by decide⟩
  have hdb' := readable_notedInDatabase (some "secret") (.string "secret") 7 ⟨trivial, by decide⟩
  refine ⟨hmemory _ _ rfl ?_, hdatabase _ _ rfl hdb hdb' hs ht ?_⟩
  · simp only [Service.verdict?, Service.found?_memory]
    rfl
  · simp only [Service.verdict?, found?_notedInDatabase htrue, found?_notedInDatabase hsecret]
    rfl

end Lineage
