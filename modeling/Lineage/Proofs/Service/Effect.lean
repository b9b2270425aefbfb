/-
What a persist call decides, and what it does.

A persist call reads the rows in the scope of its submission, decides on an answer or on one write,
and does the write. `Service.decision` is the decision as a function of the rows alone, and
`effect_persistAs` says that a call is its decision followed by the write, over every backend that
lists a store in memory.
-/

import Lineage.Proofs.Store.Listing
import Lineage.Proofs.Store.Soundness
import Lineage.Service

namespace Lineage

/-! ### The effect of a dialogue -/

namespace Dialogue

variable {σ α : Type} {backend : Backend σ} {stamp : Stamp} {s : σ}

/-- The result of a dialogue and the state after it. -/
def effect (backend : Backend σ) (stamp : Stamp) (d : Dialogue α) (s : σ) : α × σ :=
  let outcome := d.run backend stamp s
  (outcome.result, outcome.state)

@[simp] theorem effect_done (result : α) :
    (done result).effect backend stamp s = (result, s) := rfl

@[simp] theorem effect_note (event : Event) (next : Dialogue α) :
    (note event next).effect backend stamp s = next.effect backend stamp s := rfl

theorem effect_ask (request : Request) (next : request.Answer → Dialogue α) :
    (ask request next).effect backend stamp s =
      (next (backend stamp request s).1).effect backend stamp (backend stamp request s).2 := rfl

theorem effect_bind {β : Type} (d : Dialogue α) (f : α → Dialogue β) (s : σ) :
    (d.bind f).effect backend stamp s =
      (f (d.effect backend stamp s).1).effect backend stamp (d.effect backend stamp s).2 := by
  induction d generalizing s with
  | done result => rfl
  | ask request next ih => exact ih _ _
  | note event next ih => exact ih s

end Dialogue

/-! ### Scope and decision -/

/-- The items of a lineage, in the order in which they were added. -/
def Memory.lineage (m : Memory) (definitionId : String) (tenantId : Option String) : List Item :=
  m.items.filter fun item => item.definitionId = definitionId && item.tenantId = tenantId

namespace Submission

/-- Whether a submission in a mode may mean an item: in the overwrite mode a submitted id must be
the item's. -/
def mayMean (s : Submission) (mode : Mode) (item : Item) : Bool :=
  mode ≠ .overwrite || s.id.all (· = item.id)

/-- The items that a submission is resolved against: those of its lineage that it may mean. -/
def scope (s : Submission) (mode : Mode) (definitionId : String) (m : Memory) : List Item :=
  (m.lineage definitionId (normalizeTenant s.tenantId)).filter (s.mayMean mode)

/-- The item of its scope that a submission matches: the one at its version, or the latest one if it
names no version. -/
def matched (s : Submission) (rows : List Item) : Option Item :=
  match s.version with
  | some version => rows.find? (·.version = version)
  | none => latestOf rows

end Submission

namespace Service

/-- What a persist call makes of a changed candidate: a write, or a failure. -/
def planned (service : Service) (mode : Mode) (c : WriteContext) :
    Except ServiceError Item ⊕ Write :=
  match c.plan service.incrementer mode with
  | .ok planned => .inr planned
  | .error cause => .inl (.error (.ofRejection cause))

/-- What a persist call makes of what it has looked up: an answer, or a write. -/
def settle (service : Service) (mode : Mode) (c : WriteContext) :
    Except ServiceError Item ⊕ Write :=
  match c.existing.filter (service.comparator · c.candidate) with
  | some row => .inl (.ok row)
  | none => service.planned mode c

/-- What a persist call looks up among the rows in its scope. -/
def context (service : Service) (s : Submission) (definitionId : String) (rows : List Item) :
    WriteContext where
  existing := s.matched rows
  latest := (s.matched rows).bind fun _ => latestOf rows
  candidate := s.toCandidate definitionId service.config.initialVersion
  explicitVersion := s.version

/-- What a persist call makes of the rows in its scope. -/
def decision (service : Service) (mode : Mode) (s : Submission) (definitionId : String)
    (rows : List Item) : Except ServiceError Item ⊕ Write :=
  service.settle mode (service.context s definitionId rows)

end Service

/-- Asks a backend for a write. -/
def Write.perform {σ : Type} (backend : Backend σ) (stamp : Stamp) (s : σ) :
    Write → Except StoreError Item × σ
  | .insert c => backend stamp (.addItem c) s
  | .update item => backend stamp (.updateItem item) s

/-- Carries a decision out. -/
def carryOut {σ : Type} (backend : Backend σ) (stamp : Stamp) (s : σ) :
    Except ServiceError Item ⊕ Write → Except ServiceError Item × σ
  | .inl answer => (answer, s)
  | .inr planned =>
    let (answer, s) := planned.perform backend stamp s
    (answer.mapError .store, s)

/-! ### The matched item -/

/-- Among items of one version the latest is the earliest. -/
theorem latestOf_filter_version (rows : List Item) (version : String) :
    latestOf (rows.filter (·.version = version)) = rows.find? (·.version = version) := by
  have hall : ∀ item ∈ rows.filter (·.version = version),
      (rows.filter (·.version = version)).all
        (fun other => compareVersions item.version other.version != .lt) = true := by
    intro item hi
    rw [List.all_eq_true]
    intro other ho
    have hi' : item.version = version := by simpa using (List.mem_filter.1 hi).2
    have ho' : other.version = version := by simpa using (List.mem_filter.1 ho).2
    rw [hi', ho', compareVersions_self]
    rfl
  have hhead : rows.find? (·.version = version) = (rows.filter (·.version = version)).head? :=
    List.head?_filter.symm
  rw [hhead, latestOf]
  cases h : rows.filter (·.version = version) with
  | nil => rfl
  | cons item rest =>
    rw [h] at hall
    rw [List.find?_cons, hall item List.mem_cons_self, List.head?_cons]

theorem Submission.matched_eq (s : Submission) (rows : List Item) :
    s.matched rows =
      latestOf (rows.filter fun item => Clause.keyMatches s.version item.version) := by
  unfold Submission.matched
  cases s.version with
  | none => simp [Clause.keyMatches]
  | some version =>
    simp only [Clause.keyMatches, Option.all_some]
    rw [← latestOf_filter_version]
    simp only [eq_comm]

theorem Submission.mem_of_matched {s : Submission} {rows : List Item} {row : Item}
    (h : s.matched rows = some row) : row ∈ rows := by
  rw [matched_eq] at h
  exact (List.mem_filter.1 (isLatest_of_latestOf h).mem).1

/-- Where a submission matches an item there is a latest one. -/
theorem Submission.exists_latestOf {s : Submission} {rows : List Item} {row : Item}
    (h : s.matched rows = some row) : ∃ latest, latestOf rows = some latest := by
  obtain ⟨latest, hlatest⟩ := exists_isLatest (List.ne_nil_of_mem (mem_of_matched h))
  exact ⟨latest, hlatest.latestOf_eq⟩

/-! ### Persist calls -/

section Persist

variable {σ : Type} {backend : Backend σ} {view : σ → Memory} {stamp : Stamp} {st : σ}

/-- A backend that lists the items of the store in memory that its state shows. -/
def Lists (backend : Backend σ) (view : σ → Memory) : Prop :=
  ∀ stamp filter st, backend stamp (.getItems filter) st = (.ok ((view st).list filter), st)

theorem effect_latestIn {α : Type} (lists : Lists backend view) (clause : Clause)
    (tenantId : Option String) (next : Option Item → Service.Call α) :
    (Service.latestIn clause tenantId next).effect backend stamp st =
      (next (latestOf (((view st).items.filter (Filter.single clause).holds).filter
        (·.tenantId = tenantId)))).effect backend stamp st := by
  rw [Service.latestIn, Service.ask, Dialogue.effect_ask, lists]
  dsimp only
  rw [Memory.list, find?_sortItems]

theorem effect_write (mode : Mode) (definitionId : String) (planned : Write) :
    (Service.write mode definitionId planned).effect backend stamp st =
      carryOut backend stamp st (.inr planned) := by
  unfold Service.write carryOut Write.perform
  cases planned with
  | insert c =>
    rw [Dialogue.effect_ask]
    dsimp only
    cases (backend stamp (.addItem c) st).1 <;> rfl
  | update item =>
    rw [Dialogue.effect_ask]
    dsimp only
    cases (backend stamp (.updateItem item) st).1 <;> rfl

theorem effect_reconcile (service : Service) (mode : Mode) (c : WriteContext) :
    (service.reconcile mode c).effect backend stamp st =
      carryOut backend stamp st (service.settle mode c) := by
  unfold Service.reconcile Service.settle
  cases c.existing.filter (service.comparator · c.candidate) with
  | some row => rfl
  | none =>
    dsimp only [Service.planned]
    cases c.plan service.incrementer mode with
    | ok planned => exact effect_write mode _ planned
    | error cause => rfl

/-- The items that a lookup leaves after other tenants are dropped. -/
theorem filter_lookup (s : Submission) (mode : Mode) (definitionId : String)
    (version : Option String) (m : Memory) :
    ((m.items.filter (Filter.single {
        id := if mode = .overwrite then s.id else none
        definitionId := some definitionId
        tenantId := normalizeTenant s.tenantId
        version := version }).holds).filter (·.tenantId = normalizeTenant s.tenantId)) =
      (s.scope mode definitionId m).filter fun item => Clause.keyMatches version item.version := by
  rw [Submission.scope, Memory.lineage, List.filter_filter, List.filter_filter, List.filter_filter]
  refine List.filter_congr fun item _ => ?_
  simp only [Filter.holds, Filter.single, Clause.holds, Clause.keyMatches, Submission.mayMean,
    List.isEmpty_cons, List.any_cons, List.any_nil, Bool.or_false, Bool.false_or, Option.all_some]
  cases mode <;> cases normalizeTenant s.tenantId <;> grind

/-- A persist call is its decision, carried out. -/
theorem effect_persistAs (lists : Lists backend view) (service : Service) (mode : Mode)
    (s : Submission) (definitionId : String) :
    (service.persistAs mode s definitionId).effect backend stamp st =
      carryOut backend stamp st
        (service.decision mode s definitionId (s.scope mode definitionId (view st))) := by
  have hlookup := filter_lookup s mode definitionId
  simp only [Service.persistAs, Submission.toCandidate]
  rw [effect_latestIn lists, hlookup, ← Submission.matched_eq, Service.decision, Service.context]
  cases hrow : s.matched (s.scope mode definitionId (view st)) with
  | none => exact effect_reconcile service mode _
  | some row =>
    cases hversion : s.version with
    | none =>
      -- Without a version the matched row is the latest one.
      have hlatest : latestOf (s.scope mode definitionId (view st)) = some row := by
        rw [← hrow, Submission.matched, hversion]
      rw [Option.bind_some, hlatest, Submission.toCandidate, hversion]
      exact effect_reconcile service mode _
    | some version =>
      obtain ⟨latest, hlatest⟩ := Submission.exists_latestOf hrow
      have hall := hlookup none (view st)
      simp only [Clause.keyMatches, Option.all_none, List.filter_true] at hall
      dsimp only
      rw [effect_latestIn lists, hall, hlatest, Submission.toCandidate, hversion]
      exact effect_reconcile service mode _

/-- A persist call of a submission with a definition id is its decision in the mode that is chosen,
carried out. -/
theorem effect_persist_of_resolved (lists : Lists backend view) {service : Service}
    {chosen : Option Mode} {mode : Mode} (hmode : chosen.getD service.config.defaultMode = mode)
    {s : Submission} {definitionId : String} (hid : s.resolvedId = some definitionId) :
    (service.persist chosen s).effect backend stamp st =
      carryOut backend stamp st
        (service.decision mode s definitionId (s.scope mode definitionId (view st))) := by
  simp only [Service.persist, hid, hmode]
  exact effect_persistAs lists service mode s definitionId

end Persist

end Lineage
