/-
A lineage that grows by increments alone.

Submissions without a version are persisted one after the other, in the modes that increment, to a
lineage that has no rows yet. `Memory.Grown` is what each such call keeps: the rows have the accepted
payloads in their order, of equal ones in a row the first, and their versions rise from the initial
one on. `succession` reads that off the listing after a run.
-/

import Mathlib.Data.List.Destutter
import Lineage.Proofs.Service.Isolation
import Lineage.Proofs.Service.Progress
import Lineage.Proofs.Version.Successor

namespace Lineage

/-! ### Repeated payloads -/

section Destutter

variable {α : Type} {R : α → α → Prop} [DecidableRel R]

theorem destutter'_concat (items : List α) (a x : α) :
    (items ++ [x]).destutter' R a =
      if ∀ y ∈ (items.destutter' R a).getLast?, R y x then items.destutter' R a ++ [x]
      else items.destutter' R a := by
  induction items generalizing a with
  | nil => by_cases h : R a x <;> simp [h]
  | cons b rest ih =>
    rw [List.cons_append, List.destutter'_cons, List.destutter'_cons]
    by_cases hab : R a b
    · have hlast : (a :: rest.destutter' R b).getLast? = (rest.destutter' R b).getLast? :=
        List.getLast?_cons_of_ne_nil (List.destutter'_ne_nil rest R)
      rw [if_pos hab, if_pos hab, ih, hlast]
      split <;> rfl
    · rw [if_neg hab, if_neg hab, ih]

theorem destutter_concat (items : List α) (x : α) :
    (items ++ [x]).destutter R =
      if ∀ y ∈ (items.destutter R).getLast?, R y x then items.destutter R ++ [x]
      else items.destutter R := by
  cases items with
  | nil => simp
  | cons a rest => exact destutter'_concat rest a x

end Destutter

/-- Payloads without those that are equal to the last one that is kept. -/
def Json.collapse (payloads : List Json) : List Json :=
  payloads.destutter fun x y => ¬ x.equal y = true

/-! ### Where increments end -/

/-- Only a component that is as large as it may be keeps a version from being incremented. -/
theorem Version.WellFormed.component_of_next?_eq_none {v : Version} {field : ReleaseField}
    (wf : v.WellFormed) (h : v.next? field = none) :
    v.releasesItself field = false ∧ v.component field.place = Version.maxComponent := by
  have hle := wf.component_le field.place
  rw [Version.next?, Option.map_eq_none_iff] at h
  unfold Version.nextComponents? at h
  split at h
  · cases h
  · next hself =>
    refine ⟨by simpa using hself, ?_⟩
    cases field with
    | major =>
      dsimp only at h
      split at h
      · cases h
      · next hge => exact Nat.le_antisymm hle (Nat.not_lt.1 hge)
    | minor =>
      dsimp only at h
      split at h
      · cases h
      · next hge => exact Nat.le_antisymm hle (Nat.not_lt.1 hge)

/-- What keeps the increment of a version text from succeeding. -/
structure AtCeiling (version : String) (field : ReleaseField) (v : Version) : Prop where
  parse?_eq : Version.parse? version = some v
  /-- The version is no prerelease of the very release that the increment would reach. -/
  not_releasesItself : v.releasesItself field = false
  component_eq : v.component field.place = Version.maxComponent

theorem atCeiling_of_nextRelease {version : String} {field : ReleaseField} {v : Version}
    {cause : IncrementError} (hv : Version.parse? version = some v)
    (h : nextRelease version field = .error cause) :
    cause = ⟨version, field⟩ ∧ AtCeiling version field v := by
  rw [nextRelease, hv, Option.bind_some] at h
  cases hnext : v.next? field with
  | some w =>
    rw [hnext] at h
    cases h
  | none =>
    rw [hnext] at h
    cases h
    obtain ⟨hself, hmax⟩ := (Version.parse?_wellFormed hv).component_of_next?_eq_none hnext
    exact ⟨rfl, hv, hself, hmax⟩

namespace Memory

variable {m : Memory} {d initial : String} {t : Option String} {row latest : Item} {s : Submission}
  {stamp : Stamp} {field : ReleaseField} {payloads : List Json}

/-! ### Listing a lineage -/

/-- The rows of a lineage as they are listed. A listing that names no tenant shows the rows of all
tenants, of which those without a tenant are left. -/
def listed (m : Memory) (definitionId : String) (tenantId : Option String) : List Item :=
  (m.list (.lineage definitionId tenantId)).filter (·.tenantId = tenantId)

theorem listed_perm (m : Memory) (d : String) (t : Option String) :
    (m.listed d t).Perm (m.lineage d t) := by
  have hfilter : (m.items.filter (Filter.lineage d t).holds).filter (·.tenantId = t) =
      m.lineage d t := by
    rw [List.filter_filter, lineage]
    refine List.filter_congr fun item _ => ?_
    simp only [Filter.lineage, Filter.single, Filter.holds, Clause.holds, Clause.keyMatches,
      List.isEmpty_cons, List.any_cons, List.any_nil]
    cases t <;> grind
  rw [← hfilter]
  exact (List.mergeSort_perm _ _).filter _

/-- A listing that names a tenant shows no rows of others. -/
theorem listed_some (m : Memory) (d tenantId : String) :
    m.listed d (some tenantId) = m.list (.lineage d (some tenantId)) := by
  refine List.filter_eq_self.2 fun item hitem => ?_
  have hholds := (List.mem_filter.1 (mem_sortItems.1 hitem)).2
  simp only [Filter.lineage, Filter.single, Filter.holds, Clause.holds, Clause.keyMatches,
    List.isEmpty_cons, List.any_cons, List.any_nil] at hholds
  have hkeys : d = item.definitionId ∧ some tenantId = item.tenantId := by simpa using hholds
  exact decide_eq_true hkeys.2.symm

/-- Versions that rise from row to row. -/
def Rising (rows : List Item) : Prop :=
  rows.Pairwise fun a b => compareVersions a.version b.version = .lt

/-- Rising rows are listed the other way round. -/
theorem listed_of_rising (h : Rising (m.lineage d t)) :
    m.listed d t = (m.lineage d t).reverse := by
  have hsorted : (m.listed d t).Pairwise fun a b => notEarlier a b = true :=
    (pairwise_sortItems _).sublist List.filter_sublist
  have hreversed : (m.lineage d t).reverse.Pairwise fun a b => notEarlier a b = true := by
    rw [List.pairwise_reverse]
    refine h.imp fun {a b} hlt => ?_
    simp only [notEarlier, bne_iff_ne, ne_eq]
    exact Std.OrientedCmp.not_lt_of_lt hlt
  refine ((m.listed_perm d t).trans (List.reverse_perm _).symm).eq_of_pairwise ?_ hsorted hreversed
  intro a b ha hb hab hba
  -- Two rows neither of which comes earlier are the same row.
  simp only [notEarlier, bne_iff_ne, ne_eq] at hab hba
  have heither : (m.lineage d t).Pairwise fun a b =>
      compareVersions a.version b.version = .lt ∨ compareVersions b.version a.version = .lt :=
    h.imp .inl
  have hsymm : Std.Symm fun a b : Item =>
      compareVersions a.version b.version = .lt ∨ compareVersions b.version a.version = .lt :=
    ⟨fun _ _ => Or.symm⟩
  by_contra hne
  rcases heither.forall ((m.listed_perm d t).mem_iff.1 ha) (List.mem_reverse.1 hb) hne with hlt | hlt
  · exact hab hlt
  · exact hba hlt

/-- The last of rising rows is the latest one. -/
theorem latestOf_of_rising {rows : List Item} (h : Rising rows) : latestOf rows = rows.getLast? := by
  rcases List.eq_nil_or_concat' rows with rfl | ⟨before, last, rfl⟩
  · exact latestOf_eq_none_iff.2 rfl
  · rw [List.getLast?_append_of_ne_nil _ (List.cons_ne_nil _ _), List.getLast?_singleton]
    refine latestOf_concat fun other hother => ?_
    exact (List.pairwise_append.1 h).2.2 other hother last (List.mem_singleton_self last)

/-! ### One increment -/

/-- What an increment makes of a store: the first row of a lineage takes the initial version, and a
later one is added only for another payload than that of the latest row. -/
def increment (m : Memory) (stamp : Stamp) (s : Submission) (definitionId : String)
    (tenantId : Option String) (initial : String) (field : ReleaseField) :
    Except ServiceError Item × Memory :=
  match latestOf (m.lineage definitionId tenantId) with
  | none => m.addVersion stamp s definitionId initial
  | some latest =>
    if latest.payload.equal s.payload then (.ok latest, m)
    else m.addNext stamp s definitionId latest field

/-- To persist a submission without a version, in a mode that increments, is an increment. -/
theorem effect_persist_increment (m : Memory) (stamp : Stamp) (config : Config)
    {chosen : Option Mode} (hmode : chosen.getD config.defaultMode = field.mode)
    (hid : s.resolvedId = some d) (htenant : normalizeTenant s.tenantId = t)
    (hversion : s.version = none) :
    (({ config := config } : Service).persist chosen s).effect backend stamp m =
      m.increment stamp s d t config.initialVersion field := by
  subst htenant
  rw [effect_persist_of_resolved lists hmode hid, id]
  have hscope : s.scope field.mode d m = m.lineage d (normalizeTenant s.tenantId) :=
    scope_of_ne field.mode_ne_overwrite
  have hmatched : s.matched (s.scope field.mode d m) =
      latestOf (m.lineage d (normalizeTenant s.tenantId)) := by
    rw [Submission.matched, hversion, hscope]
  rw [increment]
  cases hlatest : latestOf (m.lineage d (normalizeTenant s.tenantId)) with
  | none =>
    rw [hlatest] at hmatched
    rw [Service.decision_of_unmatched hmatched, carryOut_unmatched config hmatched,
      if_neg fun both => field.mode_ne_overwrite both.1.1, hversion, Option.getD_none]
  | some latest =>
    rw [hlatest] at hmatched
    dsimp only
    cases hsame : latest.payload.equal s.payload with
    | true =>
      rw [Service.decision_of_unchanged hmatched hsame, if_pos rfl]
      rfl
    | false =>
      obtain ⟨top, htop, hdecision⟩ := Service.decision_of_changed { config := config } field.mode d
        hmatched hsame
      rw [hscope, hlatest] at htop
      cases htop
      rw [hdecision, if_neg Bool.false_ne_true]
      cases field with
      | major => exact carryOut_autoIncrement config.initialVersion .major (some latest) hlatest
      | minor => exact carryOut_autoIncrement config.initialVersion .minor (some latest) hlatest

/-! ### What each increment keeps -/

/-- A lineage to which payloads have been submitted by increments, from an initial version on. -/
structure Grown (m : Memory) (definitionId : String) (tenantId : Option String) (initial : String)
    (payloads : List Json) : Prop where
  payloads_eq : (m.lineage definitionId tenantId).map Item.payload = Json.collapse payloads
  rising : Rising (m.lineage definitionId tenantId)
  first : ∀ row ∈ (m.lineage definitionId tenantId).head?, row.version = initial
  parses : ∀ row ∈ m.lineage definitionId tenantId, (Version.parse? row.version).isSome

theorem grown_nil (h : m.lineage d t = []) (initial : String) : m.Grown d t initial [] where
  payloads_eq := by
    rw [h]
    rfl
  rising := by
    rw [h]
    exact .nil
  first := by simp [h]
  parses := by simp [h]

/-- The payload that is kept last is that of the last row. -/
theorem Grown.getLast?_collapse (h : m.Grown d t initial payloads) :
    (Json.collapse payloads).getLast? = (m.lineage d t).getLast?.map Item.payload := by
  rw [← h.payloads_eq, List.getLast?_map]

/-- A payload that is equal to that of the last row leaves the lineage as it is. -/
theorem Grown.keep (h : m.Grown d t initial payloads) {x : Json}
    (hlast : (m.lineage d t).getLast? = some row) (hsame : row.payload.equal x = true) :
    m.Grown d t initial (payloads ++ [x]) := by
  refine { h with payloads_eq := h.payloads_eq.trans ?_ }
  have hkept : (Json.collapse payloads).getLast? = some row.payload := by
    rw [h.getLast?_collapse, hlast, Option.map_some]
  unfold Json.collapse at hkept ⊢
  rw [destutter_concat, hkept, if_neg]
  simp [hsame]

/-- A row with another payload than that of the last row, and with a later version than all rows. -/
theorem Grown.add (h : m.Grown d t initial payloads) (hrow : row.belongsTo d t = true)
    (hchanged : ∀ last ∈ (m.lineage d t).getLast?, ¬ last.payload.equal row.payload = true)
    (hlater : ∀ other ∈ m.lineage d t, compareVersions other.version row.version = .lt)
    (hfirst : m.lineage d t = [] → row.version = initial)
    (hparses : (Version.parse? row.version).isSome) :
    Grown ⟨m.items ++ [row]⟩ d t initial (payloads ++ [row.payload]) := by
  have hlineage : lineage ⟨m.items ++ [row]⟩ d t = m.lineage d t ++ [row] :=
    congrArg items (m.only_append hrow)
  constructor
  · have hkept : ∀ y ∈ (Json.collapse payloads).getLast?, ¬ y.equal row.payload = true := by
      rw [h.getLast?_collapse]
      intro y hy
      obtain ⟨last, hlast, rfl⟩ := Option.map_eq_some_iff.1 hy
      exact hchanged last hlast
    rw [hlineage, List.map_append, h.payloads_eq]
    unfold Json.collapse at hkept ⊢
    rw [destutter_concat, if_pos hkept]
    rfl
  · rw [hlineage]
    refine List.pairwise_append.2 ⟨h.rising, List.pairwise_singleton _ _, ?_⟩
    intro other hother last hlast
    rw [List.mem_singleton.1 hlast]
    exact hlater other hother
  · rw [hlineage]
    cases hrows : m.lineage d t with
    | nil => simpa using hfirst hrows
    | cons top rest => simpa [hrows] using h.first
  · rw [hlineage]
    intro other hother
    rcases List.mem_append.1 hother with hother | hother
    · exact h.parses other hother
    · rw [List.mem_singleton.1 hother]
      exact hparses

/-- A row with another payload than that of the latest row, and with the version after it. -/
theorem Grown.addNext (h : m.Grown d t initial payloads) (hrow : row.belongsTo d t = true)
    (hlatest : latestOf (m.lineage d t) = some latest)
    (hchanged : latest.payload.equal row.payload = false) {field : ReleaseField}
    (hnext : nextRelease latest.version field = .ok row.version) :
    Grown ⟨m.items ++ [row]⟩ d t initial (payloads ++ [row.payload]) := by
  have htop := isLatest_of_latestOf hlatest
  have hlast : (m.lineage d t).getLast? = some latest :=
    (latestOf_of_rising h.rising).symm.trans hlatest
  obtain ⟨-, w, -, -, -, hw⟩ := nextRelease_eq_ok hnext
  refine h.add hrow ?_ ?_ ?_ (Option.isSome_iff_exists.2 ⟨w, hw⟩)
  · rintro last hmem
    cases hlast.symm.trans hmem
    exact fun hequal => Bool.false_ne_true (hchanged.symm.trans hequal)
  · intro other hother
    exact Std.TransCmp.lt_of_isLE_of_lt (htop.isLE hother) (compareVersions_nextRelease hnext)
  · intro hnil
    exact absurd htop.mem (hnil ▸ List.not_mem_nil)

end Memory

/-! ### Runs -/

/-- A call to persist a submission: the fresh id and the time it gets, the mode it chooses, and the
submission. -/
structure Attempt where
  stamp : Stamp
  chosen : Option Mode
  submission : Submission

/-- A call of a run, with the store before it, the result, and the store after it. -/
structure Attempt.Made where
  attempt : Attempt
  before : Memory
  result : Except ServiceError Item
  after : Memory

namespace Attempt

/-- A submission without a version to a lineage, in a mode that increments. -/
structure Extends (attempt : Attempt) (config : Config) (definitionId : String)
    (tenantId : Option String) : Prop where
  resolved : attempt.submission.resolvedId = some definitionId
  tenant : normalizeTenant attempt.submission.tenantId = tenantId
  versionless : attempt.submission.version = none
  increments : ∃ field, attempt.chosen.getD config.defaultMode = ReleaseField.mode field

/-- The payload of a call that succeeded. -/
def Made.accepted (made : Made) : Option Json :=
  match made.result with
  | .ok _ => some made.attempt.submission.payload
  | .error _ => none

/-- How a call of a run ends: with the row that is listed first after it, or, for a version at its
ceiling that was listed first, with a failure that has stored nothing. -/
structure Made.Ends (made : Made) (config : Config) (definitionId : String)
    (tenantId : Option String) : Prop where
  ok : ∀ row, made.result = .ok row → (made.after.listed definitionId tenantId).head? = some row
  error : ∀ cause, made.result = .error cause → made.after = made.before ∧
    ∃ field latest v, made.attempt.chosen.getD config.defaultMode = ReleaseField.mode field ∧
      (made.before.listed definitionId tenantId).head? = some latest ∧
      AtCeiling latest.version field v ∧ cause = .versionComputation ⟨latest.version, field⟩

end Attempt

/-- Makes a call. -/
def Service.make (service : Service) (m : Memory) (attempt : Attempt) : Attempt.Made :=
  let (result, after) := (service.persist attempt.chosen attempt.submission).effect Memory.backend
    attempt.stamp m
  ⟨attempt, m, result, after⟩

/-- Makes calls one after the other. -/
def Service.persistAll (service : Service) : Memory → List Attempt → List Attempt.Made × Memory
  | m, [] => ([], m)
  | m, attempt :: rest =>
    let made := service.make m attempt
    let (later, last) := service.persistAll made.after rest
    (made :: later, last)

section Runs

variable {m : Memory} {config : Config} {d initial : String} {t : Option String}
  {payloads : List Json} {attempt : Attempt} {row : Item}

theorem Memory.Grown.head?_listed (h : m.Grown d t initial payloads) :
    (m.listed d t).head? = (m.lineage d t).getLast? := by
  rw [m.listed_of_rising h.rising, List.head?_reverse]

/-- A row that was added is listed first. -/
theorem Memory.Grown.head?_added (h : Memory.Grown ⟨m.items ++ [row]⟩ d t initial payloads)
    (hrow : row.belongsTo d t = true) :
    (Memory.listed ⟨m.items ++ [row]⟩ d t).head? = some row := by
  have hlineage : Memory.lineage ⟨m.items ++ [row]⟩ d t = m.lineage d t ++ [row] :=
    congrArg Memory.items (m.only_append hrow)
  rw [h.head?_listed, hlineage, List.getLast?_append_of_ne_nil _ (List.cons_ne_nil _ _),
    List.getLast?_singleton]

/-- To make a call by increment is an increment. -/
theorem Attempt.Extends.exists_make_eq (hextends : attempt.Extends config d t) :
    ∃ field, attempt.chosen.getD config.defaultMode = ReleaseField.mode field ∧
      ∀ m, ({ config := config } : Service).make m attempt =
        let after := m.increment attempt.stamp attempt.submission d t config.initialVersion field
        ⟨attempt, m, after.1, after.2⟩ := by
  obtain ⟨field, hmode⟩ := hextends.increments
  refine ⟨field, hmode, fun m => ?_⟩
  rw [Service.make, Memory.effect_persist_increment m attempt.stamp config hmode hextends.resolved
    hextends.tenant hextends.versionless]

/-- What a call keeps of a grown lineage: it stays grown, by the payload of the call if the call
succeeds. -/
def Attempt.Made.Keeps (made : Attempt.Made) (config : Config) (definitionId : String)
    (tenantId : Option String) (payloads : List Json) : Prop :=
  made.after.Grown definitionId tenantId config.initialVersion
      (payloads ++ made.accepted.toList) ∧
    made.Ends config definitionId tenantId

theorem keeps_added (hrow : row.belongsTo d t = true)
    (hpayload : row.payload = attempt.submission.payload)
    (h : Memory.Grown ⟨m.items ++ [row]⟩ d t config.initialVersion
      (payloads ++ [row.payload])) :
    Attempt.Made.Keeps ⟨attempt, m, .ok row, ⟨m.items ++ [row]⟩⟩ config d t payloads := by
  rw [hpayload] at h
  refine ⟨h, ?_, fun cause hcause => by cases hcause⟩
  rintro item ⟨⟩
  exact h.head?_added hrow

/-- A call by increment keeps a lineage grown. -/
theorem Memory.Grown.keeps_make (h : m.Grown d t config.initialVersion payloads)
    (hinitial : (Version.parse? config.initialVersion).isSome)
    (hextends : attempt.Extends config d t) :
    (({ config := config } : Service).make m attempt).Keeps config d t payloads := by
  obtain ⟨field, hmode, hmake⟩ := hextends.exists_make_eq
  have hbelongs : ∀ version,
      (attempt.submission.addedRow attempt.stamp d version).belongsTo d t = true := by
    intro version
    rw [← hextends.tenant]
    exact belongsTo_addedRow attempt.submission attempt.stamp d version
  have hlast : latestOf (m.lineage d t) = (m.lineage d t).getLast? := latestOf_of_rising h.rising
  rw [hmake, Memory.increment]
  cases hlatest : latestOf (m.lineage d t) with
  | none =>
    rw [hlatest] at hlast
    have hnil := latestOf_eq_none_iff.1 hlatest
    refine keeps_added (hbelongs _) rfl (h.add (hbelongs _) ?_ ?_ (fun _ => rfl) hinitial)
    · simp [← hlast]
    · simp [hnil]
  | some latest =>
    rw [hlatest] at hlast
    dsimp only
    cases hsame : latest.payload.equal attempt.submission.payload with
    | true =>
      rw [if_pos rfl]
      refine ⟨h.keep hlast.symm hsame, ?_, fun cause hcause => by cases hcause⟩
      rintro row ⟨⟩
      exact h.head?_listed.trans hlast.symm
    | false =>
      rw [if_neg Bool.false_ne_true, Memory.addNext]
      cases hnext : nextRelease latest.version field with
      | ok version =>
        exact keeps_added (hbelongs _) rfl (h.addNext (hbelongs _) hlatest hsame hnext)
      | error cause =>
        obtain ⟨v, hv⟩ := Option.isSome_iff_exists.1
          (h.parses latest (isLatest_of_latestOf hlatest).mem)
        obtain ⟨rfl, hceiling⟩ := atCeiling_of_nextRelease hv hnext
        refine ⟨by simpa [Attempt.Made.accepted] using h, fun row hrow => (by cases hrow), ?_⟩
        rintro cause ⟨⟩
        exact ⟨rfl, field, latest, v, hmode, h.head?_listed.trans hlast.symm, hceiling, rfl⟩

/-- Calls by increment keep a lineage grown, by the payloads of those that succeed. -/
theorem Memory.Grown.persistAll (hinitial : (Version.parse? config.initialVersion).isSome)
    {attempts : List Attempt} (hextends : ∀ attempt ∈ attempts, attempt.Extends config d t)
    (h : m.Grown d t config.initialVersion payloads) :
    let run := ({ config := config } : Service).persistAll m attempts
    run.2.Grown d t config.initialVersion (payloads ++ run.1.filterMap Attempt.Made.accepted) ∧
      ∀ call ∈ run.1, call.Ends config d t := by
  induction attempts generalizing m payloads with
  | nil => simpa [Service.persistAll] using h
  | cons attempt rest ih =>
    rw [List.forall_mem_cons] at hextends
    obtain ⟨hgrown, hends⟩ := h.keeps_make hinitial hextends.1
    obtain ⟨hlast, hrest⟩ := ih hextends.2 hgrown
    refine ⟨?_, List.forall_mem_cons.2 ⟨hends, hrest⟩⟩
    rw [List.append_assoc] at hlast
    have haccepted : ∀ (made : Attempt.Made) (later : List Attempt.Made),
        (made :: later).filterMap Attempt.Made.accepted =
          made.accepted.toList ++ later.filterMap Attempt.Made.accepted := by
      intro made later
      rw [List.filterMap_cons]
      cases made.accepted <;> rfl
    rwa [← haccepted] at hlast

end Runs

/-- Take any store, a lineage that has no rows in it, a configuration whose initial version is a
version, and any run of submissions to the lineage that name no version, each in a mode that
increments. After the run the lineage is listed the last stored row first: the accepted payloads from
the last one to the first, of equal ones in a row the first, under falling versions. The row that was
stored first has the initial version as it stands. Each call ends with the row that is listed first
after it, unless a component that it has to raise is as large as it may be; then nothing is stored. -/
theorem succession (m : Memory) (config : Config) {d : String} {t : Option String}
    (hinitial : (Version.parse? config.initialVersion).isSome) (hempty : m.lineage d t = [])
    (attempts : List Attempt) (hextends : ∀ attempt ∈ attempts, attempt.Extends config d t) :
    let run := ({ config := config } : Service).persistAll m attempts
    let listing := run.2.listed d t
    listing = (run.2.lineage d t).reverse ∧
      (∀ tenantId, t = some tenantId → listing = run.2.list (.lineage d t)) ∧
      listing.map Item.payload =
        (Json.collapse (run.1.filterMap Attempt.Made.accepted)).reverse ∧
      (listing.Pairwise fun a b => compareVersions a.version b.version = .gt) ∧
      (∀ row ∈ (run.2.lineage d t).head?, row.version = config.initialVersion) ∧
      ∀ call ∈ run.1, call.Ends config d t := by
  intro run listing
  obtain ⟨hgrown, hends⟩ :=
    (Memory.grown_nil hempty config.initialVersion).persistAll hinitial hextends
  have hlisted : listing = (run.2.lineage d t).reverse := Memory.listed_of_rising hgrown.rising
  refine ⟨hlisted, ?_, ?_, ?_, hgrown.first, hends⟩
  · rintro tenantId rfl
    exact run.2.listed_some d tenantId
  · rw [hlisted, List.map_reverse, hgrown.payloads_eq, List.nil_append]
  · rw [hlisted, List.pairwise_reverse]
    exact hgrown.rising.imp fun hlt => Std.OrientedCmp.gt_of_lt hlt

/-- A configuration with the largest major version as the initial one. -/
def Config.atCeiling : Config := { initialVersion := "18446744073709551615" }

/-- A call for the lineage of a tenant, in a mode that increments. -/
def Attempt.order (stamp : Stamp) (field : ReleaseField) (payload : Json) : Attempt :=
  ⟨stamp, some field.mode, none, some "order", some "acme", none, none, none, payload⟩

theorem Attempt.extends_order (stamp : Stamp) (field : ReleaseField) (payload : Json) :
    (order stamp field payload).Extends .atCeiling "order" (some "acme") :=
  ⟨rfl, rfl, rfl, field, rfl⟩

theorem Attempt.make_order (m : Memory) (stamp : Stamp) (field : ReleaseField) (payload : Json) :
    ({ config := .atCeiling } : Service).make m (order stamp field payload) =
      let after := m.increment stamp (order stamp field payload).submission "order" (some "acme")
        "18446744073709551615" field
      ⟨order stamp field payload, m, after.1, after.2⟩ := by
  rw [Service.make, Memory.effect_persist_increment m _ .atCeiling rfl rfl
    (extends_order stamp field payload).tenant rfl]
  rfl

/-- Calls that would raise the major, the minor, the major and the minor version. -/
def Attempt.climb : List Attempt :=
  [order ⟨⟨1⟩, 10⟩ .major .null, order ⟨⟨2⟩, 20⟩ .minor .null,
    order ⟨⟨3⟩, 30⟩ .major (.bool true), order ⟨⟨4⟩, 40⟩ .minor (.bool false)]

/-- From the largest major version on, a repeated payload is not stored again, a major increment
fails, and a minor one goes on. -/
theorem succession_climb :
    let run := ({ config := .atCeiling } : Service).persistAll .empty Attempt.climb
    run.1.filterMap Attempt.Made.accepted = [.null, .null, .bool false] ∧
      (run.2.listed "order" (some "acme")).map Item.payload = [.bool false, .null] ∧
      ∀ call ∈ run.1, call.Ends .atCeiling "order" (some "acme") := by
  intro run
  have hextends : ∀ attempt ∈ Attempt.climb, attempt.Extends .atCeiling "order" (some "acme") := by
    simp [Attempt.climb, Attempt.extends_order]
  have hrun := succession .empty .atCeiling (by decide) rfl Attempt.climb hextends
  have haccepted : run.1.filterMap Attempt.Made.accepted = [.null, .null, .bool false] := by
    simp only [run, Attempt.climb, Service.persistAll, Attempt.make_order]
    rfl
  refine ⟨haccepted, ?_, hrun.2.2.2.2.2⟩
  exact hrun.2.2.1.trans (congrArg (fun payloads => (Json.collapse payloads).reverse) haccepted)

end Lineage
