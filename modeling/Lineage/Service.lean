/-
The definition service: every call as a dialogue with a store.

`persist` resolves a submission to at most one write. It looks for the row that the submission
matches, and for the latest row of the lineage if the submission names a version; a submission that
leaves the matched row as it is ends there. The id of a submission counts in the overwrite mode
only.
-/

import Lineage.Config
import Lineage.Service.Dialogue
import Lineage.Service.Error
import Lineage.Version.Increment

namespace Lineage

/-- A service: its configuration, and how it compares payloads and increments versions. -/
structure Service where
  config : Config := {}
  comparator : Comparator := samePayload
  incrementer : Incrementer := nextRelease

namespace Service

/-- A dialogue that ends in a value or a failure. -/
abbrev Call (α : Type) := Dialogue (Except ServiceError α)

/-- Asks the store for something and takes a failure as the result. -/
def ask {α : Type} (request : Request) (next : request.Value → Call α) : Call α :=
  .ask request fun answer =>
    match answer with
    | .ok value => next value
    | .error cause => .done (.error (.store cause))

/-- Whether there is an item with the id. -/
def has (id : Uuid) : Call Bool :=
  ask (.hasItem id) fun found => .done (.ok found)

/-- Whether an item matches. -/
def hasAny (filter : Filter) : Call Bool :=
  ask (.hasItems filter) fun found => .done (.ok found)

/-- The item with the id. -/
def get (id : Uuid) : Call Item :=
  ask (.getItem id) fun item => .done (.ok item)

/-- The matching items, the highest version first. -/
def list (filter : Filter) : Call (List Item) :=
  ask (.getItems filter) fun items => .done (.ok items)

/-- Deletes the item with the id. -/
def delete (id : Uuid) : Call Bool :=
  ask (.deleteItem id) fun _ => .note (.deleted id) (.done (.ok true))

/-- Deletes the matching items and counts them. -/
def deleteAll (filter : Filter) : Call Nat :=
  ask (.deleteItems filter) fun count =>
    .note (.deletedMany filter.clauses.length count) (.done (.ok count))

/-- The latest matching item of a tenant. A clause without a tenant matches the items of all
tenants, so those of other tenants are dropped here. -/
def latestIn {α : Type} (clause : Clause) (tenantId : Option String)
    (next : Option Item → Call α) : Call α :=
  ask (.getItems (.single clause)) fun items => next (items.find? (·.tenantId = tenantId))

/-- Notes how a write ended. -/
def written (mode : Mode) (action definitionId : String) : Except StoreError Item → Call Item
  | .ok item =>
    .note (.stored mode action item.definitionId item.version item.id) (.done (.ok item))
  | .error cause =>
    .note (.storeFailed mode action definitionId cause) (.done (.error (.store cause)))

/-- Does a write. -/
def write (mode : Mode) (definitionId : String) (planned : Write) : Call Item :=
  match planned with
  | .insert candidate => .ask (.addItem candidate) (written mode planned.action definitionId)
  | .update item => .ask (.updateItem item) (written mode planned.action definitionId)

/-- Ends with the matched row if the candidate leaves it as it is, and does the planned write
otherwise. -/
def reconcile (service : Service) (mode : Mode) (c : WriteContext) : Call Item :=
  match c.existing.filter (service.comparator · c.candidate) with
  | some row => .note (.unchanged mode row.definitionId row.version) (.done (.ok row))
  | none =>
    match c.plan service.incrementer mode with
    | .ok planned => write mode c.candidate.definitionId planned
    | .error cause =>
      .note (.rejected mode c.candidate.definitionId cause)
        (.done (.error (.ofRejection cause)))

/-- Persists a submission whose definition id is known, in a mode. -/
def persistAs (service : Service) (mode : Mode) (s : Submission) (definitionId : String) :
    Call Item :=
  let candidate := s.toCandidate definitionId service.config.initialVersion
  let lineage : Clause :=
    { id := if mode = .overwrite then s.id else none
      definitionId := some definitionId
      tenantId := candidate.tenantId }
  latestIn { lineage with version := s.version } candidate.tenantId fun existing =>
    match existing, s.version with
    | some row, some _ =>
      latestIn lineage candidate.tenantId fun latest =>
        service.reconcile mode ⟨existing, some (latest.getD row), candidate, s.version⟩
    | _, _ => service.reconcile mode ⟨existing, existing, candidate, s.version⟩

/-- Persists a submission in the chosen mode, or in the mode of the configuration. -/
def persist (service : Service) (mode : Option Mode) (s : Submission) : Call Item :=
  match s.resolvedId with
  | none => .done (.error .missingDefinitionId)
  | some definitionId =>
    service.persistAs (mode.getD service.config.defaultMode) s definitionId

/-- Persists a submission in the mode of the given name, or in the mode of the configuration. -/
def persistByName (service : Service) (name : Option String) (s : Submission) : Call Item :=
  match name with
  | none => service.persist none s
  | some name =>
    match Mode.ofName? name with
    | none => .done (.error (.invalidPolicy name))
    | some mode => service.persist (some mode) s

end Service

/-- The names of the service's calls for remote callers. -/
def Service.methods : List String :=
  ["pdmHasDefinition", "pdmHasDefinitions", "pdmGetDefinition", "pdmGetDefinitions",
    "pdmPersistDefinition", "pdmDeleteDefinition", "pdmDeleteDefinitions"]

end Lineage
