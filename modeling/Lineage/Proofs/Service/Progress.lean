/-
A persist call that has the store to itself fails on nothing that is stored.

No call checks beforehand that the version it writes is free. It is free all the same: a row is
rewritten under its own key, and a row is added where none was matched or after the latest one. So
the store refuses nothing, unless a submitted id in the overwrite mode sets rows of the lineage
aside, and a call that lost against others does not lose when it is repeated alone.
-/

import Lineage.Proofs.Service.Transition

namespace Lineage

/-- The mode that adds a row with the next release by a field. -/
def ReleaseField.mode : ReleaseField → Mode
  | .major => .autoIncrementMajor
  | .minor => .autoIncrementMinor

theorem ReleaseField.mode_ne_overwrite (field : ReleaseField) : field.mode ≠ .overwrite := by
  cases field <;> decide

namespace Memory

/-! ### How a call fails -/

/-- How a persist call may fail that has a store to itself. -/
inductive Refuses (m : Memory) (s : Submission) : Mode → ServiceError → Prop where
  /-- Neither the submission nor its payload has a definition id. -/
  | unresolved (mode : Mode) (noId : s.resolvedId = none) : Refuses m s mode .missingDefinitionId
  /-- The manual mode leaves the matched row as it is. -/
  | conflict {d : String} {row : Item} (resolved : s.resolvedId = some d)
      (matched : s.matched (m.lineage d (normalizeTenant s.tenantId)) = some row) :
      Refuses m s .manual (.conflict d (normalizeTenant s.tenantId) row.version)
  /-- The version of the latest row has no next release. -/
  | noNextRelease {d : String} {latest : Item} {field : ReleaseField} {cause : IncrementError}
      (resolved : s.resolvedId = some d)
      (top : latestOf (m.lineage d (normalizeTenant s.tenantId)) = some latest)
      (noNext : nextRelease latest.version field = .error cause) :
      Refuses m s field.mode (.versionComputation cause)

variable {m : Memory} {s : Submission} {mode : Mode} {stamp : Stamp} {config : Config} {d : String}
  {row latest : Item} {cause : ServiceError}

theorem Refuses.not_fromStore (h : m.Refuses s mode cause) : cause.isFromStore = false := by
  cases h <;> rfl

/-- A change by increment is an addition after the latest row. -/
theorem change_mode (field : ReleaseField) :
    m.change field.mode s stamp d row latest = m.addNext stamp s d latest field := by
  cases field <;> rfl

theorem refuses_of_addNext (field : ReleaseField) (hid : s.resolvedId = some d)
    (hlatest : latestOf (m.lineage d (normalizeTenant s.tenantId)) = some latest)
    (h : (m.addNext stamp s d latest field).1 = .error cause) : m.Refuses s field.mode cause := by
  unfold addNext at h
  cases hnext : nextRelease latest.version field with
  | ok version =>
    rw [hnext] at h
    cases h
  | error noNext =>
    rw [hnext] at h
    cases h
    exact .noNextRelease hid hlatest hnext

/-- A changed row is written, or the call fails without regard to what else is stored. -/
theorem refuses_of_change (hwide : ¬ (mode = .overwrite ∧ s.id.isSome))
    (hid : s.resolvedId = some d)
    (hmatched : s.matched (m.lineage d (normalizeTenant s.tenantId)) = some row)
    (hlatest : latestOf (m.lineage d (normalizeTenant s.tenantId)) = some latest)
    (h : (m.change mode s stamp d row latest).1 = .error cause) : m.Refuses s mode cause := by
  cases mode with
  | overwrite =>
    have hnone : ¬ (s.id.isSome ∧ m.hasVersion d (normalizeTenant s.tenantId) "1") :=
      fun both => hwide ⟨rfl, both.1⟩
    dsimp only [change] at h
    rw [if_neg hnone] at h
    split at h <;> cases h
  | overwriteLatest => cases h
  | manual =>
    cases h
    exact .conflict hid hmatched
  | autoIncrementMajor => exact refuses_of_addNext .major hid hlatest h
  | autoIncrementMinor => exact refuses_of_addNext .minor hid hlatest h

theorem refuses_of_transition (hwide : ¬ (mode = .overwrite ∧ s.id.isSome))
    (h : (m.transition config mode s stamp).1 = .error cause) : m.Refuses s mode cause := by
  cases hid : s.resolvedId with
  | none =>
    rw [transition_of_unresolved hid] at h
    cases h
    exact .unresolved mode hid
  | some d =>
    have hscope : s.scope mode d m = m.lineage d (normalizeTenant s.tenantId) := scope_of_wide hwide
    cases hmatched : s.matched (s.scope mode d m) with
    | none =>
      rw [transition_of_unmatched hid hmatched, if_neg fun both => hwide both.1] at h
      cases h
    | some row =>
      cases hsame : row.payload.equal s.payload with
      | true =>
        rw [transition_of_unchanged hid hmatched hsame] at h
        cases h
      | false =>
        obtain ⟨latest, hlatest⟩ := Submission.exists_latestOf hmatched
        rw [transition_of_changed hid hmatched hsame hlatest] at h
        rw [hscope] at hmatched hlatest
        exact refuses_of_change hwide hid hmatched hlatest h

/-! ### What an increment adds -/

/-- The row that a call by increment adds comes after all rows of the lineage. -/
theorem lt_of_addNext {field : ReleaseField}
    (hlatest : latestOf (m.lineage d (normalizeTenant s.tenantId)) = some latest)
    (h : (m.addNext stamp s d latest field).2 ≠ m) :
    ∃ version, m.addNext stamp s d latest field = m.addVersion stamp s d version ∧
      ∀ other ∈ m.lineage d (normalizeTenant s.tenantId),
        compareVersions other.version version = .lt := by
  unfold addNext at h ⊢
  cases hnext : nextRelease latest.version field with
  | error cause =>
    rw [hnext] at h
    exact absurd rfl h
  | ok version =>
    refine ⟨version, rfl, fun other hother => ?_⟩
    have hle := (isLatest_of_latestOf hlatest).isLE hother
    exact Std.TransCmp.lt_of_isLE_of_lt hle (compareVersions_nextRelease hnext)

theorem lt_of_transition {field : ReleaseField} (hid : s.resolvedId = some d)
    (hmatched : s.matched (m.lineage d (normalizeTenant s.tenantId)) = some row)
    (h : (m.transition config field.mode s stamp).2 ≠ m) :
    ∃ version, m.transition config field.mode s stamp = m.addVersion stamp s d version ∧
      ∀ other ∈ m.lineage d (normalizeTenant s.tenantId),
        compareVersions other.version version = .lt := by
  rw [← scope_of_ne field.mode_ne_overwrite] at hmatched
  cases hsame : row.payload.equal s.payload with
  | true =>
    rw [transition_of_unchanged hid hmatched hsame] at h
    exact absurd rfl h
  | false =>
    obtain ⟨latest, hlatest⟩ := Submission.exists_latestOf hmatched
    rw [transition_of_changed hid hmatched hsame hlatest, change_mode] at h ⊢
    rw [scope_of_ne field.mode_ne_overwrite] at hlatest
    exact lt_of_addNext hlatest h

end Memory

/-! ### Calls among others -/

/-- A dialogue with a store in memory may end so, when others make requests in between. -/
inductive Dialogue.MayEnd {α : Type} (result : α) (last : Memory) : Dialogue α → Memory → Prop where
  | done : MayEnd result last (.done result) last
  | note {m : Memory} (event : Event) {next : Dialogue α} (rest : MayEnd result last next m) :
      MayEnd result last (.note event next) m
  | ask {m : Memory} (stamp : Stamp) {request : Request} {next : request.Answer → Dialogue α}
      (fresh : ∀ c, request = .addItem c → m.has stamp.id = false)
      (rest : MayEnd result last (next (Memory.backend stamp request m).1)
        (Memory.backend stamp request m).2) : MayEnd result last (.ask request next) m
  | other {m : Memory} (stamp : Stamp) (request : Request) {d : Dialogue α}
      (fresh : ∀ c, request = .addItem c → m.has stamp.id = false)
      (rest : MayEnd result last d (Memory.backend stamp request m).2) : MayEnd result last d m

/-- Calls among others leave a reachable store reachable. -/
theorem Dialogue.MayEnd.reachable {α : Type} {result : α} {last m : Memory} {d : Dialogue α}
    (h : d.MayEnd result last m) (before : m.Reachable) : last.Reachable := by
  induction h with
  | done => exact before
  | note _ _ ih => exact ih before
  | ask stamp fresh _ ih => exact ih (.step stamp _ before fresh)
  | other stamp request fresh _ ih => exact ih (.step stamp request before fresh)

/-- A lookup may end as what follows it does with the row that it finds. -/
theorem Dialogue.mayEnd_latestIn {α : Type} {result : Except ServiceError α} {last m : Memory}
    {clause : Clause} {tenantId : Option String} {next : Option Item → Service.Call α}
    (rest : (next (latestOf ((m.items.filter (Filter.single clause).holds).filter
      (·.tenantId = tenantId)))).MayEnd result last m) :
    (Service.latestIn clause tenantId next).MayEnd result last m := by
  rw [← find?_sortItems] at rest
  exact .ask ⟨⟨0⟩, 0⟩ (fun c hc => by cases hc) rest

/-- A persist call that has a reachable store to itself, and does not submit an id in the overwrite
mode, never fails on what is stored: it fails for want of a definition id, in the manual mode because
of the matched row, or because the latest version has no next release. A call by increment that
matches a row and writes adds a row, whose version comes after all versions of the lineage. And
after a call has failed on what others have stored meanwhile, the same call does not fail on what is
stored when it has the store to itself. -/
theorem persist_alone {m : Memory} (h : m.Reachable) (config : Config) (chosen : Option Mode)
    (s : Submission) (hwide : ¬ (chosen.getD config.defaultMode = .overwrite ∧ s.id.isSome)) :
    let mode := chosen.getD config.defaultMode
    let call := ({ config := config } : Service).persist chosen s
    (∀ stamp cause, (call.effect Memory.backend stamp m).1 = .error cause →
      m.Refuses s mode cause ∧ cause.isFromStore = false) ∧
    (∀ stamp field d row, mode = ReleaseField.mode field → s.resolvedId = some d →
      s.matched (m.lineage d (normalizeTenant s.tenantId)) = some row →
      (call.effect Memory.backend stamp m).2 ≠ m →
      ∃ item, call.effect Memory.backend stamp m = (.ok item, ⟨m.items ++ [item]⟩) ∧
        item.definitionId = d ∧ item.tenantId = normalizeTenant s.tenantId ∧
        ∀ other ∈ m.lineage d (normalizeTenant s.tenantId),
          compareVersions other.version item.version = .lt) ∧
    (∀ lost last, call.MayEnd (.error (.store lost)) last m → ∀ stamp cause,
      (call.effect Memory.backend stamp last).1 = .error cause →
      last.Refuses s mode cause ∧ cause.isFromStore = false) := by
  intro mode call
  have hfails : ∀ {m : Memory}, m.Reachable → ∀ stamp cause,
      (call.effect Memory.backend stamp m).1 = .error cause →
      m.Refuses s mode cause ∧ cause.isFromStore = false := by
    intro m h stamp cause hcause
    rw [h.sound.effect_persist] at hcause
    have hrefuses := Memory.refuses_of_transition hwide hcause
    exact ⟨hrefuses, hrefuses.not_fromStore⟩
  refine ⟨hfails h, ?_, fun lost last hlost => hfails (hlost.reachable h)⟩
  intro stamp field d row hmode hid hmatched hwrote
  have heffect : call.effect Memory.backend stamp m = m.transition config field.mode s stamp := by
    rw [← hmode]
    exact h.sound.effect_persist config chosen s stamp
  rw [heffect] at hwrote ⊢
  obtain ⟨version, hadded, hlt⟩ := Memory.lt_of_transition hid hmatched hwrote
  exact ⟨s.addedRow stamp d version, hadded, rfl, rfl, hlt⟩

/-- The store with a version 3 that a rival has added. -/
def Memory.threeVersions : Memory :=
  (backend ⟨⟨3⟩, 30⟩ (.addItem ⟨"order", none, "3", none, none, .bool true⟩) .twoVersions).2

/-- A rival takes version 3 after the call has looked at version 2, and the repeated call takes
version 4. -/
theorem persist_alone_outrun :
    Memory.twoVersions.Reachable ∧
      (Service.persist {} (some .autoIncrementMajor)
        ⟨none, some "order", none, none, none, none, .null⟩).MayEnd
          (.error (.store (.versionTaken "order" none "3"))) .threeVersions .twoVersions ∧
      ((Service.persist {} (some .autoIncrementMajor)
        ⟨none, some "order", none, none, none, none, .null⟩).effect Memory.backend ⟨⟨4⟩, 40⟩
          .threeVersions).1 = .ok ⟨⟨4⟩, "order", none, "4", none, none, .null, 40, 40⟩ ∧
      ∀ stamp cause, ((Service.persist {} (some .autoIncrementMajor)
          ⟨none, some "order", none, none, none, none, .null⟩).effect Memory.backend stamp
            .threeVersions).1 = .error cause →
        Memory.threeVersions.Refuses ⟨none, some "order", none, none, none, none, .null⟩
          .autoIncrementMajor cause ∧ cause.isFromStore = false := by
  have hlost : (Service.persist {} (some .autoIncrementMajor)
      ⟨none, some "order", none, none, none, none, .null⟩).MayEnd
        (.error (.store (.versionTaken "order" none "3"))) .threeVersions .twoVersions := by
    unfold Service.persist Service.persistAs
    refine Dialogue.mayEnd_latestIn ?_
    refine .other ⟨⟨3⟩, 30⟩ (.addItem ⟨"order", none, "3", none, none, .bool true⟩)
      (fun _ _ => rfl) ?_
    exact .ask ⟨⟨4⟩, 40⟩ (fun _ _ => rfl) (.note _ .done)
  have hlast := hlost.reachable Memory.reachable_twoVersions
  have halone := persist_alone Memory.reachable_twoVersions {} (some .autoIncrementMajor)
    ⟨none, some "order", none, none, none, none, .null⟩ (by decide)
  refine ⟨Memory.reachable_twoVersions, hlost, ?_, halone.2.2 _ _ hlost⟩
  rw [hlast.sound.effect_persist]
  rfl

end Lineage
