/-
Versions stay usable as long as nobody names one.

A service that is not told a version stores its initial version, the default, or what an increment
makes of a stored one. `Service.Maintains` asks of a property of versions that all of these have it,
and `VersionsAre.after` shows that the versions in the store then have it over any run of calls. So
they are not blank, and they can be read if the initial version can; then an increment fails only on
a component that is as large as it may be.
-/

import Lineage.Proofs.Json.Reading
import Lineage.Proofs.Service.Permanence
import Lineage.Proofs.Service.Succession

namespace Lineage

/-! ### Versions that are not blank -/

theorem Text.isBlankText_eq_false_iff {s : String} :
    isBlankText s = false ↔ ∃ c ∈ s.toList, isBlank c = false := by
  simp [isBlankText]

/-- A blank text is no version. -/
theorem Version.isBlankText_of_parse? {s : String} {v : Version} (h : parse? s = some v) :
    Text.isBlankText s = false := by
  rw [← Bool.not_eq_true]
  intro hblank
  have htrim : Text.trimChars s.toList = [] := by
    rw [Text.trimChars, Text.trimStart_eq_nil_iff.2 hblank]
    rfl
  rw [parse?, ofChars?, body, htrim] at h
  cases h

/-- A configuration that is accepted has an initial version that is not blank. -/
theorem Config.isBlankText_of_ofText {s : String} {config : Config} (h : ofText s = .ok config) :
    Text.isBlankText config.initialVersion = false := by
  unfold ofText at h
  split at h
  · next loaded _ =>
    unfold validate at h
    split at h
    · cases h
    · next hplain =>
      cases h
      exact Bool.eq_false_iff.2 hplain
  · cases h

/-! ### Versions in a store -/

/-- The version that a request brings, if it brings one. -/
def Request.version? : Request → Option String
  | .addItem c => some c.version
  | .updateItem item => some item.version
  | _ => none

namespace Memory

/-- A store whose versions all have a property. -/
def VersionsAre (m : Memory) (good : String → Prop) : Prop :=
  ∀ row ∈ m.items, good row.version

variable {m m' : Memory} {stamp : Stamp} {r : Request} {item : Item} {good : String → Prop}

theorem versionsAre_empty (good : String → Prop) : empty.VersionsAre good :=
  List.forall_mem_nil _

/-- The version of an item of a changed store was there before, or the request has brought it. -/
theorem Change.version (change : Change m stamp r m') (hitem : item ∈ m'.items) :
    (∃ old ∈ m.items, item.version = old.version) ∨ r.version? = some item.version := by
  cases change with
  | none => exact .inl ⟨item, hitem, rfl⟩
  | add c free =>
    rcases List.mem_append.1 hitem with hold | hnew
    · exact .inl ⟨item, hold, rfl⟩
    · rw [List.mem_singleton.1 hnew]
      exact .inr rfl
  | put updated stored found free =>
    obtain ⟨other, hother, rfl⟩ := List.mem_map.1 hitem
    split
    · exact .inr rfl
    · exact .inl ⟨other, hother, rfl⟩
  | erase id => exact .inl ⟨item, List.mem_of_mem_eraseP hitem, rfl⟩
  | drop filter => exact .inl ⟨item, List.mem_of_mem_filter hitem, rfl⟩

/-- A request that brings a version with the property, or none, keeps the property. -/
theorem VersionsAre.of_request (hm : m.VersionsAre good)
    (hr : ∀ version ∈ r.version?, good version) : (Memory.backend stamp r m).2.VersionsAre good := by
  intro item hitem
  rcases (m.change_backend stamp r).version hitem with ⟨old, hold, hversion⟩ | hbrought
  · rw [hversion]
    exact hm old hold
  · exact hr item.version hbrought

end Memory

/-! ### What a call decides without a version -/

/-- A property of versions that a service maintains: its initial version and the default have it, and
an increment of a version that has it makes one that has it. -/
structure Service.Maintains (service : Service) (good : String → Prop) : Prop where
  initial : good service.config.initialVersion
  /-- The default takes the place of an empty version that is overwritten. -/
  default : good defaultVersion
  increment : ∀ {version next : String} {field : ReleaseField}, good version →
    service.incrementer version field = .ok next → good next

/-- The version that a write stores. -/
def Write.version : Write → String
  | .insert c => c.version
  | .update item => item.version

/-- What a call that names no version may make of rows whose versions have a property: an answer, a
failure other than of an increment, the failure to increment the version of a row, or the write of a
version with the property. -/
inductive Service.Upholds (service : Service) (good : String → Prop) (rows : List Item) :
    Except ServiceError Item ⊕ Write → Prop where
  | answer (row : Item) : Upholds service good rows (.inl (.ok row))
  | conflict (definitionId : String) (tenantId : Option String) (version : String) :
      Upholds service good rows (.inl (.error (.conflict definitionId tenantId version)))
  | stuck {row : Item} {field : ReleaseField} {cause : IncrementError} (there : row ∈ rows)
      (fails : service.incrementer row.version field = .error cause) :
      Upholds service good rows (.inl (.error (.versionComputation cause)))
  | write {planned : Write} (holds : good planned.version) :
      Upholds service good rows (.inr planned)

namespace Service

variable {service : Service} {good : String → Prop} {mode : Mode} {s : Submission} {d : String}
  {rows : List Item} {row latest : Item} {c : Candidate}

theorem Maintains.overwrittenVersion (maintains : service.Maintains good)
    (hrow : good row.version) : good (WriteContext.overwrittenVersion row none) := by
  dsimp only [WriteContext.overwrittenVersion]
  split
  · exact maintains.default
  · exact hrow

theorem Maintains.upholds_autoIncrement (maintains : service.Maintains good)
    (hrows : ∀ row ∈ rows, good row.version) (hlatest : latest ∈ rows) (field : ReleaseField) :
    service.Upholds good rows
      (match WriteContext.autoIncrement ⟨some row, some latest, c, none⟩ service.incrementer field with
      | .ok planned => .inr planned
      | .error cause => .inl (.error (.ofRejection cause))) := by
  dsimp only [WriteContext.autoIncrement]
  cases hnext : service.incrementer latest.version field with
  | ok version => exact .write (maintains.increment (hrows latest hlatest) hnext)
  | error cause => exact .stuck hlatest hnext

/-- A plan for a changed row upholds the property in every mode. -/
theorem Maintains.upholds_planned (maintains : service.Maintains good)
    (hrows : ∀ row ∈ rows, good row.version) (hrow : row ∈ rows) (hlatest : latest ∈ rows) :
    service.Upholds good rows (service.planned mode ⟨some row, some latest, c, none⟩) := by
  cases mode with
  | overwrite => exact .write (maintains.overwrittenVersion (hrows row hrow))
  | overwriteLatest => exact .write (hrows latest hlatest)
  | manual => exact .conflict _ _ _
  | autoIncrementMajor => exact maintains.upholds_autoIncrement hrows hlatest .major
  | autoIncrementMinor => exact maintains.upholds_autoIncrement hrows hlatest .minor

/-- In every mode a call that names no version upholds the property. -/
theorem Maintains.upholds_decision (maintains : service.Maintains good)
    (hversion : s.version = none) (hrows : ∀ row ∈ rows, good row.version) :
    service.Upholds good rows (service.decision mode s d rows) := by
  cases hmatched : s.matched rows with
  | none =>
    rw [decision_of_unmatched hmatched]
    refine .write ?_
    change good (s.version.getD service.config.initialVersion)
    rw [hversion]
    exact maintains.initial
  | some row =>
    cases hsame : service.comparator row (s.toCandidate d service.config.initialVersion) with
    | true =>
      rw [decision_of_unchanged hmatched hsame]
      exact .answer row
    | false =>
      obtain ⟨latest, hlatest, hdecision⟩ := decision_of_changed service mode d hmatched hsame
      rw [hdecision, hversion]
      exact maintains.upholds_planned hrows (Submission.mem_of_matched hmatched)
        (isLatest_of_latestOf hlatest).mem

end Service

/-! ### Calls without a version -/

/-- What a call keeps: the versions in the store have a property afterwards, and where the call lacks
a next version, an increment of a version that was there has failed. -/
structure Memory.Kept (service : Service) (good : String → Prop) (before : Memory)
    (result : Except ServiceError Item) (after : Memory) : Prop where
  versions : after.VersionsAre good
  stuck : ∀ cause, result = .error (.versionComputation cause) →
    ∃ row ∈ before.items, ∃ field, service.incrementer row.version field = .error cause

namespace Memory

variable {m : Memory} {stamp : Stamp} {service : Service} {good : String → Prop} {s : Submission}
  {rows : List Item}

/-- To carry out a decision that upholds the property keeps it. -/
theorem VersionsAre.kept_carryOut (hm : m.VersionsAre good) (hrows : ∀ row ∈ rows, row ∈ m.items)
    {decision : Except ServiceError Item ⊕ Write} (upholds : service.Upholds good rows decision) :
    Kept service good m (carryOut backend stamp m decision).1
      (carryOut backend stamp m decision).2 := by
  cases upholds with
  | answer row => exact ⟨hm, fun cause h => by cases h⟩
  | conflict d t version => exact ⟨hm, fun cause h => by cases h⟩
  | stuck there fails =>
    refine ⟨hm, ?_⟩
    rintro _ ⟨⟩
    exact ⟨_, hrows _ there, _, fails⟩
  | @write planned holds =>
    -- A write that fails does so because of the store.
    have hresult : ∀ (answer : Except StoreError Item) (cause : IncrementError),
        answer.mapError ServiceError.store ≠ .error (.versionComputation cause) := by
      rintro (fault | item) cause h <;> cases h
    refine ⟨?_, fun cause h => absurd h (hresult _ cause)⟩
    cases planned with
    | insert c => exact hm.of_request (r := .addItem c) (by rintro _ ⟨⟩; exact holds)
    | update item => exact hm.of_request (r := .updateItem item) (by rintro _ ⟨⟩; exact holds)

/-- A persist call that names no version keeps the property. -/
theorem VersionsAre.kept_persist (hm : m.VersionsAre good) (maintains : service.Maintains good)
    (hversion : s.version = none) (chosen : Option Mode) :
    Kept service good m ((service.persist chosen s).effect backend stamp m).1
      ((service.persist chosen s).effect backend stamp m).2 := by
  cases hid : s.resolvedId with
  | none =>
    rw [Service.persist, hid]
    exact ⟨hm, fun cause h => by cases h⟩
  | some d =>
    have hscope : ∀ mode, ∀ row ∈ s.scope mode d m, row ∈ m.items :=
      fun mode row hrow => (mem_lineage.1 (mem_lineage_of_scope hrow)).1
    rw [effect_persist_of_resolved lists rfl hid]
    exact hm.kept_carryOut (hscope _)
      (maintains.upholds_decision hversion fun row hrow => hm row (hscope _ row hrow))

theorem VersionsAre.kept_persistByName (hm : m.VersionsAre good)
    (maintains : service.Maintains good) (hversion : s.version = none) (name : Option String) :
    Kept service good m ((service.persistByName name s).effect backend stamp m).1
      ((service.persistByName name s).effect backend stamp m).2 := by
  unfold Service.persistByName
  split
  · exact hm.kept_persist maintains hversion none
  · split
    · exact ⟨hm, fun cause h => by cases h⟩
    · exact hm.kept_persist maintains hversion _

end Memory

/-! ### Runs -/

namespace Operation

/-- Whether an operation is a call of a service that names no version. Its mode, its ids, its tenant
and whatever it looks for or deletes are free. -/
def NamesNoVersion (service : Service) : Operation → Prop
  | .request _ => False
  | .persist other _ s | .persistByName other _ s => other = service ∧ s.version = none
  | _ => True

/-- Whether an operation fails for a cause. -/
def FailsBy {σ : Type} (backend : Backend σ) (stamp : Stamp) (s : σ) (cause : ServiceError) :
    Operation → Prop
  | .request r => (backend stamp r s).1.mapError .store = .error cause
  | .has id => ((Service.has id).effect backend stamp s).1 = .error cause
  | .hasAny filter => ((Service.hasAny filter).effect backend stamp s).1 = .error cause
  | .get id => ((Service.get id).effect backend stamp s).1 = .error cause
  | .list filter => ((Service.list filter).effect backend stamp s).1 = .error cause
  | .delete id => ((Service.delete id).effect backend stamp s).1 = .error cause
  | .deleteAll filter => ((Service.deleteAll filter).effect backend stamp s).1 = .error cause
  | .persist service mode sub =>
    ((service.persist mode sub).effect backend stamp s).1 = .error cause
  | .persistByName service name sub =>
    ((service.persistByName name sub).effect backend stamp s).1 = .error cause

end Operation

/-- A call that asks for one thing fails with the store. -/
theorem exists_fault_of_ask {σ α : Type} {backend : Backend σ} {stamp : Stamp} {s : σ}
    {request : Request} {next : request.Value → Service.Call α} {cause : ServiceError}
    (hnext : ∀ value, ∃ result, (next value).verdict = some (.ok result))
    (h : ((Service.ask request next).effect backend stamp s).1 = .error cause) :
    ∃ fault, cause = .store fault := by
  rw [Service.ask, Dialogue.effect_ask] at h
  cases hanswer : (backend stamp request s).1 with
  | error fault =>
    rw [hanswer] at h
    cases h
    exact ⟨fault, rfl⟩
  | ok value =>
    obtain ⟨result, hresult⟩ := hnext value
    rw [hanswer] at h
    dsimp only at h
    rw [Dialogue.effect_of_verdict hresult] at h
    cases h

namespace Memory

variable {m : Memory} {stamp : Stamp} {service : Service} {good : String → Prop} {op : Operation}

/-- A call that names no version keeps the property. -/
theorem VersionsAre.next (hm : m.VersionsAre good) (maintains : service.Maintains good)
    (hop : op.NamesNoVersion service) : (op.next backend stamp m).VersionsAre good := by
  cases op with
  | request r => cases hop
  | has | hasAny | get | list | delete | deleteAll =>
    rw [Operation.next_of_request? rfl]
    exact hm.of_request (by rintro _ ⟨⟩)
  | persist other chosen s =>
    obtain ⟨rfl, hversion⟩ := hop
    exact (hm.kept_persist maintains hversion chosen).versions
  | persistByName other name s =>
    obtain ⟨rfl, hversion⟩ := hop
    exact (hm.kept_persistByName maintains hversion name).versions

/-- Calls that name no version keep the property. -/
theorem VersionsAre.after {calls : List (Stamp × Operation)} (hm : m.VersionsAre good)
    (maintains : service.Maintains good) (hcalls : ∀ call ∈ calls, call.2.NamesNoVersion service) :
    (backend.after m calls).VersionsAre good := by
  induction calls generalizing m with
  | nil => exact hm
  | cons call rest ih =>
    rw [List.forall_mem_cons] at hcalls
    exact ih (hm.next maintains hcalls.1) hcalls.2

/-- A call that names no version and fails for want of a next version has not been able to increment
a version in the store. -/
theorem VersionsAre.exists_stuck (hm : m.VersionsAre good) (maintains : service.Maintains good)
    (hop : op.NamesNoVersion service) {cause : IncrementError}
    (hfails : op.FailsBy backend stamp m (.versionComputation cause)) :
    ∃ row ∈ m.items, ∃ field, service.incrementer row.version field = .error cause := by
  cases op with
  | request r => cases hop
  | has | hasAny | get | list | delete | deleteAll =>
    obtain ⟨fault, hfault⟩ := exists_fault_of_ask (fun value => ⟨_, rfl⟩) hfails
    cases hfault
  | persist other chosen s =>
    obtain ⟨rfl, hversion⟩ := hop
    exact (hm.kept_persist maintains hversion chosen).stuck cause hfails
  | persistByName other name s =>
    obtain ⟨rfl, hversion⟩ := hop
    exact (hm.kept_persistByName maintains hversion name).stuck cause hfails

end Memory

section Maintained

variable {config : Config} {comparator : Comparator}

theorem maintains_not_blank (h : Text.isBlankText config.initialVersion = false) :
    Service.Maintains { config := config, comparator := comparator }
      fun version => Text.isBlankText version = false where
  initial := h
  default := by decide
  increment := by
    intro version next field _ hnext
    obtain ⟨-, w, -, -, -, hw⟩ := nextRelease_eq_ok hnext
    exact Version.isBlankText_of_parse? hw

theorem maintains_parses (h : (Version.parse? config.initialVersion).isSome) :
    Service.Maintains { config := config, comparator := comparator }
      fun version => (Version.parse? version).isSome where
  initial := h
  default := by decide
  increment := by
    intro version next field _ hnext
    obtain ⟨-, w, -, -, -, hw⟩ := nextRelease_eq_ok hnext
    exact Option.isSome_of_mem hw

end Maintained

/-- Take a service with a configuration that was accepted, any comparator and the increments by
precedence, and any calls of it on an empty store that name no version, in whatever modes and with
whatever ids and tenants, deletions among them. Afterwards every version in the store has a character
that is not blank. If the initial version can be read, every version in the store can, and a further
such call lacks a next version only where the component that it has to raise is as large as it may
be. -/
theorem versions_stay_usable {text : String} {config : Config}
    (accepted : Config.ofText text = .ok config) (comparator : Comparator)
    {calls : List (Stamp × Operation)}
    (hcalls : ∀ call ∈ calls,
      call.2.NamesNoVersion { config := config, comparator := comparator }) :
    let m := Memory.backend.after .empty calls
    (∀ row ∈ m.items, ∃ c ∈ row.version.toList, Text.isBlank c = false) ∧
      ((Version.parse? config.initialVersion).isSome →
        (∀ row ∈ m.items, (Version.parse? row.version).isSome) ∧
          ∀ (stamp : Stamp) (op : Operation) (cause : IncrementError),
            op.NamesNoVersion { config := config, comparator := comparator } →
              op.FailsBy Memory.backend stamp m (.versionComputation cause) →
                ∃ row ∈ m.items, ∃ v, cause.version = row.version ∧
                  AtCeiling row.version cause.field v) := by
  intro m
  have hempty := Memory.versionsAre_empty
  have hplain := Config.isBlankText_of_ofText accepted
  have hvisible := (hempty _).after (maintains_not_blank hplain) hcalls
  refine ⟨fun row hrow => Text.isBlankText_eq_false_iff.1 (hvisible row hrow), ?_⟩
  intro hinitial
  have hparses := (hempty _).after (maintains_parses hinitial) hcalls
  refine ⟨hparses, fun stamp op cause hop hfails => ?_⟩
  obtain ⟨row, hrow, field, hincrement⟩ :=
    hparses.exists_stuck (maintains_parses hinitial) hop hfails
  obtain ⟨v, hv⟩ := Option.isSome_iff_exists.1 (hparses row hrow)
  obtain ⟨rfl, hceiling⟩ := atCeiling_of_nextRelease hv hincrement
  exact ⟨row, hrow, v, rfl, hceiling⟩

/-- A configuration with the largest minor version as the initial one. -/
def Config.minorCeiling : Config :=
  { defaultMode := .autoIncrementMinor, initialVersion := "v1.18446744073709551615" }

/-- The document that the configuration is read from. -/
def Config.minorCeilingDocument : Json :=
  .ofMembers [("defaultMode", .string "AutoIncrementMinor"),
    ("initialVersion", .string "v1.18446744073709551615")]

theorem Config.ofText_minorCeiling :
    ofText ("\x7b\"defaultMode\":\"AutoIncrementMinor\"," ++
      "\"initialVersion\":\"v1.18446744073709551615\"\x7d") = .ok .minorCeiling := by
  have htext : "\x7b\"defaultMode\":\"AutoIncrementMinor\"," ++
      "\"initialVersion\":\"v1.18446744073709551615\"\x7d" = minorCeilingDocument.text := by decide
  have hread : Json.decode decoder minorCeilingDocument.text = .ok .minorCeiling := by
    rw [Json.decode, Json.outline_text]
    rfl
  rw [htext, ofText, hread]
  rfl

/-- A submission to the orders of a tenant that names no version. -/
def Submission.ordering (payload : Json) : Submission :=
  ⟨none, some "order", some "acme", none, none, none, payload⟩

/-- The order that comes of the first submission. -/
def Item.firstOrder : Item :=
  ⟨⟨1⟩, "order", some "acme", "v1.18446744073709551615", none, none, .null, 10, 10⟩

/-- An order, the next major version of it, and the deletion of that version. -/
def Operation.backAndForth : List (Stamp × Operation) :=
  [(⟨⟨1⟩, 10⟩, .persist { config := .minorCeiling } none (.ordering .null)),
    (⟨⟨2⟩, 20⟩, .persist { config := .minorCeiling } (some .autoIncrementMajor)
      (.ordering (.bool true))),
    (⟨⟨3⟩, 30⟩, .delete ⟨2⟩)]

theorem Memory.effect_persist_ordering (m : Memory) (stamp : Stamp) (payload : Json)
    {chosen : Option Mode} (field : ReleaseField)
    (hmode : chosen.getD .autoIncrementMinor = field.mode) :
    (Service.persist { config := .minorCeiling } chosen (.ordering payload)).effect backend stamp
        m =
      m.increment stamp (.ordering payload) "order" (some "acme") "v1.18446744073709551615" field :=
  m.effect_persist_increment stamp .minorCeiling hmode rfl rfl rfl

theorem Memory.after_backAndForth :
    Memory.backend.after .empty Operation.backAndForth = ⟨[.firstOrder]⟩ := by
  simp only [Operation.backAndForth, Backend.after, List.foldl_cons, List.foldl_nil, Operation.next]
  have hfirst : Memory.empty.increment ⟨⟨1⟩, 10⟩ (.ordering .null) "order" (some "acme")
      "v1.18446744073709551615" .minor = (.ok .firstOrder, ⟨[.firstOrder]⟩) := rfl
  rw [effect_persist_ordering _ _ _ .major rfl, effect_persist_ordering _ _ _ .minor rfl, hfirst]
  rfl

/-- Once the first version is alone again, its minor component cannot be raised. -/
theorem versions_stay_usable_ceiling :
    let m := Memory.backend.after .empty Operation.backAndForth
    let failing : Operation := .persist { config := .minorCeiling } none (.ordering (.bool false))
    m.items = [.firstOrder] ∧
      failing.FailsBy Memory.backend ⟨⟨4⟩, 40⟩ m
        (.versionComputation ⟨"v1.18446744073709551615", .minor⟩) ∧
      ∃ row ∈ m.items, ∃ v, "v1.18446744073709551615" = row.version ∧
        AtCeiling row.version .minor v := by
  intro m failing
  have hcalls : ∀ call ∈ Operation.backAndForth,
      call.2.NamesNoVersion { config := .minorCeiling } := by
    simp [Operation.backAndForth, Operation.NamesNoVersion, Submission.ordering]
  have hm : m = ⟨[.firstOrder]⟩ := Memory.after_backAndForth
  have hfails : failing.FailsBy Memory.backend ⟨⟨4⟩, 40⟩ m
      (.versionComputation ⟨"v1.18446744073709551615", .minor⟩) := by
    dsimp only [failing, Operation.FailsBy]
    rw [Memory.effect_persist_ordering _ _ _ .minor rfl, hm]
    rfl
  refine ⟨congrArg Memory.items hm, hfails, ?_⟩
  obtain ⟨-, hreadable⟩ := versions_stay_usable Config.ofText_minorCeiling samePayload hcalls
  exact (hreadable (by decide)).2 ⟨⟨4⟩, 40⟩ failing _ ⟨rfl, rfl⟩ hfails

end Lineage
