/-
A persist call on the store in memory as one transition of its rows.

`Memory.transition` describes the call by the rows of a lineage alone: the matched row, the latest
one, and the row that is added or rewritten. `effect_persist` says that on every reachable store a
call of a service that compares payloads and increments by precedence is this transition.
-/

import Lineage.Proofs.Service.Effect
import Lineage.Proofs.Version.Growth

namespace Lineage

/-! ### The transition -/

/-- The row with what a submission says, at a version. -/
def Submission.addedRow (s : Submission) (stamp : Stamp) (definitionId version : String) : Item where
  id := stamp.id
  definitionId := definitionId
  tenantId := normalizeTenant s.tenantId
  version := version
  name := s.name
  purpose := s.purpose
  payload := s.payload
  createdAt := stamp.now
  lastUpdatedAt := stamp.now

/-- A row with the name, the purpose and the payload of a submission, at a version. It keeps its id,
its lineage and its creation time. -/
def Submission.rewrittenRow (s : Submission) (stamp : Stamp) (row : Item) (version : String) : Item :=
  { row with
    version := version
    name := s.name
    purpose := s.purpose
    payload := s.payload
    lastUpdatedAt := stamp.now }

namespace Memory

/-- Adds a row at a version. -/
def addVersion (m : Memory) (stamp : Stamp) (s : Submission) (definitionId version : String) :
    Except ServiceError Item × Memory :=
  let row := s.addedRow stamp definitionId version
  (.ok row, ⟨m.items ++ [row]⟩)

/-- Adds a row at the version after that of the latest row, if there is such a version. -/
def addNext (m : Memory) (stamp : Stamp) (s : Submission) (definitionId : String) (latest : Item)
    (field : ReleaseField) : Except ServiceError Item × Memory :=
  match nextRelease latest.version field with
  | .ok version => m.addVersion stamp s definitionId version
  | .error cause => (.error (.versionComputation cause), m)

/-- Rewrites a row in its place, at a version. -/
def rewrite (m : Memory) (stamp : Stamp) (s : Submission) (row : Item) (version : String) :
    Except ServiceError Item × Memory :=
  let row := s.rewrittenRow stamp row version
  (.ok row, m.put row)

/-- The answer and the store when a version is not free. -/
def refuse (m : Memory) (definitionId : String) (tenantId : Option String) (version : String) :
    Except ServiceError Item × Memory :=
  (.error (.store (.versionTaken definitionId tenantId version)), m)

/-- Whether a lineage has a version. -/
def hasVersion (m : Memory) (definitionId : String) (tenantId : Option String) (version : String) :
    Bool :=
  (m.lineage definitionId tenantId).any (·.version = version)

/-- What becomes of a store when a submission changes the row that it matches, mode by mode. -/
def change (m : Memory) (mode : Mode) (s : Submission) (stamp : Stamp) (definitionId : String)
    (row latest : Item) : Except ServiceError Item × Memory :=
  let tenantId := normalizeTenant s.tenantId
  match mode with
  | .overwrite =>
    if s.version = none ∧ row.version = "" then
      if s.id.isSome ∧ m.hasVersion definitionId tenantId "1" then m.refuse definitionId tenantId "1"
      else m.rewrite stamp s row "1"
    else m.rewrite stamp s row row.version
  | .overwriteLatest => m.rewrite stamp s latest latest.version
  | .manual => (.error (.conflict definitionId tenantId row.version), m)
  | .autoIncrementMajor => m.addNext stamp s definitionId latest .major
  | .autoIncrementMinor => m.addNext stamp s definitionId latest .minor

/-- What becomes of a store when a submission is persisted in a mode, and the answer. -/
def transition (m : Memory) (config : Config) (mode : Mode) (s : Submission) (stamp : Stamp) :
    Except ServiceError Item × Memory :=
  match s.resolvedId with
  | none => (.error .missingDefinitionId, m)
  | some definitionId =>
    let tenantId := normalizeTenant s.tenantId
    let rows := s.scope mode definitionId m
    match s.matched rows with
    | none =>
      -- Only an id that is submitted in the overwrite mode sets rows of the lineage aside.
      let version := s.version.getD config.initialVersion
      if (mode = .overwrite ∧ s.id.isSome) ∧ m.hasVersion definitionId tenantId version then
        m.refuse definitionId tenantId version
      else m.addVersion stamp s definitionId version
    | some row =>
      if row.payload.equal s.payload then (.ok row, m)
      else m.change mode s stamp definitionId row ((latestOf rows).getD row)

section Cases

variable {m : Memory} {config : Config} {mode : Mode} {s : Submission} {stamp : Stamp}
  {row latest : Item} {d : String}

theorem transition_of_unresolved (hid : s.resolvedId = none) :
    m.transition config mode s stamp = (.error .missingDefinitionId, m) := by
  simp only [transition, hid]

theorem transition_of_unmatched (hid : s.resolvedId = some d)
    (h : s.matched (s.scope mode d m) = none) :
    m.transition config mode s stamp =
      if (mode = .overwrite ∧ s.id.isSome) ∧
          m.hasVersion d (normalizeTenant s.tenantId) (s.version.getD config.initialVersion) then
        m.refuse d (normalizeTenant s.tenantId) (s.version.getD config.initialVersion)
      else m.addVersion stamp s d (s.version.getD config.initialVersion) := by
  simp only [transition, hid, h]

theorem transition_of_unchanged (hid : s.resolvedId = some d)
    (h : s.matched (s.scope mode d m) = some row) (hsame : row.payload.equal s.payload = true) :
    m.transition config mode s stamp = (.ok row, m) := by
  simp only [transition, hid, h, hsame, if_true]

theorem transition_of_changed (hid : s.resolvedId = some d)
    (h : s.matched (s.scope mode d m) = some row) (hsame : row.payload.equal s.payload = false)
    (hlatest : latestOf (s.scope mode d m) = some latest) :
    m.transition config mode s stamp = m.change mode s stamp d row latest := by
  simp only [transition, hid, h, hsame, Bool.false_eq_true, if_false, hlatest, Option.getD_some]

end Cases

/-! ### Writes within a lineage -/

variable {m : Memory} {stamp : Stamp} {now : Int64} {item row other : Item} {d v : String}
  {t : Option String}

theorem mem_lineage :
    item ∈ m.lineage d t ↔ item ∈ m.items ∧ item.definitionId = d ∧ item.tenantId = t := by
  simp [lineage]

theorem hasVersion_eq (m : Memory) (d : String) (t : Option String) (v : String) :
    m.hasVersion d t v = m.items.any (·.occupies d t v) := by
  rw [hasVersion, lineage, List.any_filter]
  rfl

theorem add_eq (m : Memory) (stamp : Stamp) (c : Candidate) :
    m.add stamp c =
      if m.hasVersion c.definitionId (normalizeTenant c.tenantId) c.version then
        (.error (.versionTaken c.definitionId (normalizeTenant c.tenantId) c.version), m)
      else (.ok (c.toItem stamp), ⟨m.items ++ [c.toItem stamp]⟩) := by
  rw [hasVersion_eq]
  rfl

theorem Sound.update_eq (hs : m.Sound) (now : Int64) (item : Item) (hrow : row ∈ m.items)
    (hid : item.id = row.id) :
    m.update now item =
      if (m.lineage item.definitionId (normalizeTenant item.tenantId)).any
          (fun other => other.id ≠ row.id && other.version = item.version) then
        (.error (.versionTaken item.definitionId (normalizeTenant item.tenantId) item.version), m)
      else (.ok (item.replacing row now), m.put (item.replacing row now)) := by
  have hstored : m.items.find? (·.id = item.id) = some row := by
    rw [hid]
    exact hs.find?_id hrow
  have hany : (m.items.any fun other => other.id ≠ item.id &&
      other.occupies item.definitionId (normalizeTenant item.tenantId) item.version) =
      (m.lineage item.definitionId (normalizeTenant item.tenantId)).any
        (fun other => other.id ≠ row.id && other.version = item.version) := by
    rw [lineage, List.any_filter, hid]
    refine congrArg (m.items.any ·) (funext fun other => ?_)
    simp only [Item.occupies]
    grind
  rw [← hany, update, hstored]
  rfl

/-- In a sound store no other row of a lineage has the version of a row. -/
theorem Sound.free_self (hs : m.Sound) (hrow : row ∈ m.lineage d t) :
    (m.lineage d t).any (fun other => other.id ≠ row.id && other.version = row.version) = false := by
  simp only [List.any_eq_false, Bool.and_eq_true, decide_eq_true_eq, not_and]
  intro other hother hne hversion
  obtain ⟨hm, hd, ht⟩ := mem_lineage.1 hother
  obtain ⟨hmr, hdr, htr⟩ := mem_lineage.1 hrow
  have hkey : other.key = row.key := by
    rw [Item.key, Item.key, hd, ht, hversion, hdr, htr]
  exact hne (congrArg Item.id (hs.eq_of_key hm hmr hkey))

end Memory

/-! ### Decisions -/

namespace Service

variable {service : Service} {mode : Mode} {s : Submission} {definitionId : String}
  {rows : List Item} {row : Item}

/-- A submission that matches no row is added as it stands, in every mode. -/
theorem decision_of_unmatched (h : s.matched rows = none) :
    service.decision mode s definitionId rows =
      .inr (.insert (s.toCandidate definitionId service.config.initialVersion)) := by
  simp only [decision, context, settle, h, Option.filter_none, Option.bind_none]
  cases mode <;> rfl

/-- A submission that leaves the matched row as it is ends there, in every mode. -/
theorem decision_of_unchanged (h : s.matched rows = some row)
    (hsame : service.comparator row
      (s.toCandidate definitionId service.config.initialVersion) = true) :
    service.decision mode s definitionId rows = .inl (.ok row) := by
  simp only [decision, context, settle, h, Option.filter_some, hsame, if_true]

/-- A submission that changes the matched row is planned from it and from the latest row. -/
theorem decision_of_changed (service : Service) (mode : Mode) (definitionId : String)
    (h : s.matched rows = some row)
    (hsame : service.comparator row
      (s.toCandidate definitionId service.config.initialVersion) = false) :
    ∃ latest, latestOf rows = some latest ∧
      service.decision mode s definitionId rows =
        service.planned mode ⟨some row, some latest,
          s.toCandidate definitionId service.config.initialVersion, s.version⟩ := by
  obtain ⟨latest, hlatest⟩ := Submission.exists_latestOf h
  refine ⟨latest, hlatest, ?_⟩
  simp only [decision, context, settle, h, Option.filter_some, hsame, Option.bind_some, hlatest,
      Bool.false_eq_true, if_false]

end Service

/-! ### The transition of a call -/

namespace Memory

variable {m : Memory} {stamp : Stamp} {config : Config} {mode : Mode} {s : Submission}
  {row latest : Item} {d : String}

theorem lists : Lists backend id := fun _ _ _ => rfl

theorem carryOut_insert (c : Candidate) :
    carryOut backend stamp m (.inr (.insert c)) =
      ((m.add stamp c).1.mapError .store, (m.add stamp c).2) := rfl

theorem carryOut_update (item : Item) :
    carryOut backend stamp m (.inr (.update item)) =
      ((m.update stamp.now item).1.mapError .store, (m.update stamp.now item).2) := rfl

/-- Outside the overwrite mode, and without a submitted id, a submission may mean each item. -/
theorem scope_of_wide (h : ¬ (mode = .overwrite ∧ s.id.isSome)) :
    s.scope mode d m = m.lineage d (normalizeTenant s.tenantId) := by
  refine List.filter_eq_self.2 fun item _ => ?_
  simp only [Submission.mayMean, Bool.or_eq_true, decide_eq_true_eq]
  by_cases hmode : mode = .overwrite
  · have hid : s.id = none := by simpa [hmode] using h
    exact .inr (by simp [hid])
  · exact .inl hmode

theorem mem_lineage_of_scope (h : row ∈ s.scope mode d m) :
    row ∈ m.lineage d (normalizeTenant s.tenantId) :=
  (List.mem_filter.1 h).1

/-- A version that is added for want of a matched row is free, unless rows were set aside. -/
theorem not_taken_of_unmatched (hwide : ¬ (mode = .overwrite ∧ s.id.isSome))
    (h : s.matched (s.scope mode d m) = none) (version : String) :
    m.hasVersion d (normalizeTenant s.tenantId) (s.version.getD version) = false := by
  rw [scope_of_wide hwide, Submission.matched] at h
  unfold hasVersion
  cases hversion : s.version with
  | none =>
    rw [hversion] at h
    rw [latestOf_eq_none_iff.1 h]
    rfl
  | some version =>
    rw [hversion] at h
    simpa using h

/-- Adding a row at a version that depends on whether the lineage has it. -/
theorem carryOut_insert_eq (initial version : String) :
    carryOut backend stamp m (.inr (.insert { s.toCandidate d initial with version := version })) =
      if m.hasVersion d (normalizeTenant s.tenantId) version then
        m.refuse d (normalizeTenant s.tenantId) version
      else m.addVersion stamp s d version := by
  have hadd := add_eq m stamp { s.toCandidate d initial with version := version }
  rw [carryOut_insert, hadd]
  simp only [Submission.toCandidate, Candidate.toItem, normalizeTenant_idem]
  split
  · rfl
  · rfl

/-- Adding a submission that matches no row. -/
theorem carryOut_unmatched (config : Config) (h : s.matched (s.scope mode d m) = none) :
    carryOut backend stamp m (.inr (.insert (s.toCandidate d config.initialVersion))) =
      if (mode = .overwrite ∧ s.id.isSome) ∧
          m.hasVersion d (normalizeTenant s.tenantId) (s.version.getD config.initialVersion) then
        m.refuse d (normalizeTenant s.tenantId) (s.version.getD config.initialVersion)
      else m.addVersion stamp s d (s.version.getD config.initialVersion) := by
  refine (carryOut_insert_eq config.initialVersion (s.version.getD config.initialVersion)).trans ?_
  cases htaken : m.hasVersion d (normalizeTenant s.tenantId)
      (s.version.getD config.initialVersion) with
  | false => rw [if_neg Bool.false_ne_true, if_neg fun both => Bool.false_ne_true both.2]
  | true =>
    have hnarrow : mode = .overwrite ∧ s.id.isSome := by
      by_contra hwide
      rw [not_taken_of_unmatched hwide h] at htaken
      cases htaken
    rw [if_pos rfl, if_pos ⟨hnarrow, rfl⟩]

/-- Rewriting a row at a version depends on whether another row of its lineage has that version. -/
theorem Sound.carryOut_update_eq (hs : m.Sound) (initial version : String)
    (hrow : row ∈ m.lineage d (normalizeTenant s.tenantId)) :
    carryOut backend stamp m
        (.inr (.update { (s.toCandidate d initial).applyTo row with version := version })) =
      if (m.lineage d (normalizeTenant s.tenantId)).any
          (fun other => other.id ≠ row.id && other.version = version) then
        m.refuse d (normalizeTenant s.tenantId) version
      else m.rewrite stamp s row version := by
  obtain ⟨hm, rfl, ht⟩ := mem_lineage.1 hrow
  have hitem : ({ (s.toCandidate row.definitionId initial).applyTo row with version := version } :
      Item) = { row with
        version := version, name := s.name, purpose := s.purpose, payload := s.payload } := by
    simp only [Candidate.applyTo, Submission.toCandidate, ht]
  have hupdate := hs.update_eq stamp.now { row with
    version := version, name := s.name, purpose := s.purpose, payload := s.payload } hm rfl
  rw [hs.tenants row hm] at hupdate
  rw [hitem, carryOut_update, hupdate, ← ht]
  split
  · rfl
  · simp only [Item.replacing, hs.tenants row hm]
    rfl

/-- Rewriting a row at its own version. -/
theorem Sound.carryOut_update_self (hs : m.Sound) (initial : String)
    (hrow : row ∈ m.lineage d (normalizeTenant s.tenantId)) :
    carryOut backend stamp m
        (.inr (.update { (s.toCandidate d initial).applyTo row with version := row.version })) =
      m.rewrite stamp s row row.version := by
  rw [hs.carryOut_update_eq initial row.version hrow, hs.free_self hrow, if_neg Bool.false_ne_true]

/-- No row has a version that comes after that of the latest one. -/
theorem not_taken_of_lt {t : Option String} {version : String}
    (hlatest : latestOf (m.lineage d t) = some latest)
    (hlt : compareVersions latest.version version = .lt) : m.hasVersion d t version = false := by
  simp only [hasVersion, List.any_eq_false, decide_eq_true_eq]
  rintro other hm rfl
  exact Std.OrientedCmp.not_lt_of_isLE ((isLatest_of_latestOf hlatest).isLE hm) hlt

theorem scope_of_ne (h : mode ≠ .overwrite) :
    s.scope mode d m = m.lineage d (normalizeTenant s.tenantId) :=
  scope_of_wide fun both => h both.1

/-- Adding a row after the latest one. -/
theorem carryOut_autoIncrement (initial : String) (field : ReleaseField) (existing : Option Item)
    (hlatest : latestOf (m.lineage d (normalizeTenant s.tenantId)) = some latest) :
    carryOut backend stamp m
        (match WriteContext.autoIncrement
            ⟨existing, some latest, s.toCandidate d initial, s.version⟩ nextRelease field with
        | .ok planned => .inr planned
        | .error cause => .inl (.error (.ofRejection cause))) =
      m.addNext stamp s d latest field := by
  dsimp only [WriteContext.autoIncrement, addNext]
  cases hnext : nextRelease latest.version field with
  | error cause => rfl
  | ok version =>
    have hfree := not_taken_of_lt hlatest (compareVersions_nextRelease hnext)
    dsimp only
    rw [carryOut_insert_eq, hfree, if_neg Bool.false_ne_true]

/-- The default version comes after the empty one. -/
theorem compareVersions_empty_one : compareVersions "" "1" = .lt := by
  decide

/-- Overwriting the matched row. -/
theorem Sound.carryOut_overwrite (hs : m.Sound) (initial : String) (top : Option Item)
    (latest : Item) (hmatched : s.matched (s.scope .overwrite d m) = some row) :
    carryOut backend stamp m (.inr
        (WriteContext.overwrite ⟨some row, top, s.toCandidate d initial, s.version⟩)) =
      m.change .overwrite s stamp d row latest := by
  dsimp only [change]
  have hrow := mem_lineage_of_scope (Submission.mem_of_matched hmatched)
  dsimp only [WriteContext.overwrite]
  cases hversion : s.version with
  | some version =>
    have hself : row.version = version := by
      rw [Submission.matched, hversion] at hmatched
      simpa using List.find?_some hmatched
    rw [if_neg (by simp), ← hself]
    exact hs.carryOut_update_self initial hrow
  | none =>
    dsimp only [WriteContext.overwrittenVersion]
    by_cases hempty : row.version = ""
    · rw [if_pos hempty, if_pos ⟨rfl, hempty⟩, hs.carryOut_update_eq initial defaultVersion hrow]
      -- The row itself, whose version is empty, does not take the default version.
      have hany : (m.lineage d (normalizeTenant s.tenantId)).any
            (fun other => other.id ≠ row.id && other.version = defaultVersion) =
          m.hasVersion d (normalizeTenant s.tenantId) "1" := by
        rw [hasVersion, Bool.eq_iff_iff, List.any_eq_true, List.any_eq_true]
        refine exists_congr fun other => and_congr_right fun hother => ?_
        simp only [Bool.and_eq_true, decide_eq_true_eq, ne_eq]
        refine ⟨And.right, fun hone => ⟨fun hid => ?_, hone⟩⟩
        have hsame := hs.eq_of_id (mem_lineage.1 hother).1 (mem_lineage.1 hrow).1 hid
        rw [hsame, hempty] at hone
        exact absurd hone (by decide)
      rw [hany]
      by_cases hid : s.id.isSome
      · simp only [hid, true_and]
        rfl
      · have hwide : ¬ (Mode.overwrite = .overwrite ∧ s.id.isSome) := fun both => hid both.2
        have hlatest : latestOf (m.lineage d (normalizeTenant s.tenantId)) = some row := by
          rw [← scope_of_wide hwide, ← hmatched, Submission.matched, hversion]
        have hlt : compareVersions row.version "1" = .lt := by
          rw [hempty]
          exact compareVersions_empty_one
        rw [not_taken_of_lt hlatest hlt, if_neg Bool.false_ne_true,
          if_neg fun both => Bool.false_ne_true both.2]
        rfl
    · rw [if_neg hempty, if_neg fun both => hempty both.2]
      exact hs.carryOut_update_self initial hrow

/-- Carrying out what is planned for a changed row, mode by mode. -/
theorem Sound.carryOut_planned (hs : m.Sound)
    (hmatched : s.matched (s.scope mode d m) = some row)
    (hlatest : latestOf (s.scope mode d m) = some latest) :
    carryOut backend stamp m (({ config := config } : Service).planned mode
        ⟨some row, some latest, s.toCandidate d config.initialVersion, s.version⟩) =
      m.change mode s stamp d row latest := by
  cases mode with
  | overwrite => exact hs.carryOut_overwrite config.initialVersion (some latest) latest hmatched
  | overwriteLatest =>
    have hrow := mem_lineage_of_scope (isLatest_of_latestOf hlatest).mem
    exact hs.carryOut_update_self config.initialVersion hrow
  | manual => rfl
  | autoIncrementMajor =>
    rw [scope_of_ne (by decide)] at hlatest
    exact carryOut_autoIncrement config.initialVersion .major (some row) hlatest
  | autoIncrementMinor =>
    rw [scope_of_ne (by decide)] at hlatest
    exact carryOut_autoIncrement config.initialVersion .minor (some row) hlatest

/-- On a sound store a persist call is its transition. -/
theorem Sound.effect_persist (hs : m.Sound) (config : Config) (mode : Option Mode) (s : Submission)
    (stamp : Stamp) :
    (({ config := config } : Service).persist mode s).effect backend stamp m =
      m.transition config (mode.getD config.defaultMode) s stamp := by
  cases hid : s.resolvedId with
  | none =>
    rw [transition_of_unresolved hid, Service.persist, hid]
    rfl
  | some d =>
    rw [effect_persist_of_resolved lists rfl hid]
    generalize mode.getD config.defaultMode = mode
    cases hmatched : s.matched (s.scope mode d m) with
    | none =>
      rw [transition_of_unmatched hid hmatched, id, Service.decision_of_unmatched hmatched]
      exact carryOut_unmatched config hmatched
    | some row =>
      cases hsame : row.payload.equal s.payload with
      | true =>
        rw [transition_of_unchanged hid hmatched hsame, id,
          Service.decision_of_unchanged hmatched hsame]
        rfl
      | false =>
        obtain ⟨latest, hlatest, hdecision⟩ := Service.decision_of_changed
          { config := config } mode d hmatched hsame
        rw [transition_of_changed hid hmatched hsame hlatest, id, hdecision]
        exact hs.carryOut_planned hmatched hlatest

/-- On every reachable store, in every mode and with every configuration, a persist call is the
transition of the lineage that it names. -/
theorem effect_persist_eq_transition (h : m.Reachable) (config : Config) (mode : Option Mode)
    (s : Submission) (stamp : Stamp) :
    (({ config := config } : Service).persist mode s).effect backend stamp m =
      m.transition config (mode.getD config.defaultMode) s stamp :=
  h.sound.effect_persist config mode s stamp

/-- A store with the versions 1 and 2 of one definition. -/
def twoVersions : Memory :=
  (backend ⟨⟨2⟩, 20⟩ (.addItem ⟨"order", none, "2", none, none, .bool false⟩)
    (backend ⟨⟨1⟩, 10⟩ (.addItem ⟨"order", none, "1", none, none, .bool true⟩) .empty).2).2

theorem reachable_twoVersions : twoVersions.Reachable :=
  .step _ _ (.step _ _ .empty fun _ _ => rfl) fun _ _ => rfl

/-- A changed submission at version 1 rewrites version 2 in the mode that overwrites the latest. -/
theorem effect_persist_older_version :
    twoVersions.Reachable ∧
      (Service.persist {} (some .overwriteLatest)
        ⟨none, some "order", none, some "1", some "renamed", none, .null⟩).effect backend
          ⟨⟨3⟩, 30⟩ twoVersions =
        (.ok ⟨⟨2⟩, "order", none, "2", some "renamed", none, .null, 20, 30⟩,
          ⟨[⟨⟨1⟩, "order", none, "1", none, none, .bool true, 10, 10⟩,
            ⟨⟨2⟩, "order", none, "2", some "renamed", none, .null, 20, 30⟩]⟩) :=
  ⟨reachable_twoVersions,
    (effect_persist_eq_transition reachable_twoVersions {} (some .overwriteLatest) _ _).trans
      (by rfl)⟩

end Memory

end Lineage
