/-
Persisting a submission twice in a row.

The second call compares the payload with the row that the submission matches by then, which need
not be the row that the first call wrote. `Submission.Settles` tells from the store before the first
call whether it is, and `repeatable_iff_settles` says that just then the second call changes nothing.
-/

import Lineage.Proofs.Json.Equality
import Lineage.Proofs.Service.Transition
import Lineage.Store.Tally

namespace Lineage

/-- Whether the row that a submission matches after it has been persisted is the one that it was
persisted to. The added row, if one is added, gets the fresh id. -/
def Submission.Settles (s : Submission) (mode : Mode) (definitionId : String) (fresh : Uuid)
    (m : Memory) : Prop :=
  match s.matched (s.scope mode definitionId m) with
  | none => mode = .overwrite → s.id.all (· = fresh)
  | some row =>
    row.payload.equal s.payload ∨ mode = .overwrite ∨ s.version = none ∨
      (mode = .overwriteLatest ∧ latestOf (s.scope mode definitionId m) = some row)

variable {m : Memory} {s : Submission} {mode : Mode} {d : String} {rows : List Item}
  {item row latest old : Item} {stamp : Stamp} {config : Config}

/-! ### Lookups after a write -/

namespace Submission

theorem matched_map {f : Item → Item} (hf : ∀ other ∈ rows, (f other).version = other.version) :
    s.matched (rows.map f) = (s.matched rows).map f := by
  rw [matched_eq, matched_eq, List.filter_map]
  have hfilter : rows.filter ((fun other => Clause.keyMatches s.version other.version) ∘ f) =
      rows.filter fun other => Clause.keyMatches s.version other.version := by
    refine List.filter_congr fun other hm => ?_
    rw [Function.comp_apply, hf other hm]
  rw [hfilter]
  exact latestOf_map fun other hm => hf other (List.mem_filter.1 hm).1

/-- A row that is added for want of a matched one is matched from then on. -/
theorem matched_concat_of_unmatched (h : s.matched rows = none) (initial : String)
    (hversion : item.version = s.version.getD initial) : s.matched (rows ++ [item]) = some item := by
  cases hs : s.version with
  | none =>
    simp only [matched, hs] at h ⊢
    rw [latestOf_eq_none_iff.1 h]
    exact latestOf_of_forall_eq (by simp) (by simp)
  | some version =>
    simp only [matched, hs] at h ⊢
    rw [hs, Option.getD_some] at hversion
    rw [List.find?_append, h, Option.none_or]
    simp [hversion]

end Submission

namespace Memory

/-- The scope of a submission after a row is added to its lineage. -/
theorem scope_addedRow (version : String) :
    s.scope mode d ⟨m.items ++ [s.addedRow stamp d version]⟩ = s.scope mode d m ++
      if s.mayMean mode (s.addedRow stamp d version) then [s.addedRow stamp d version] else [] := by
  have hin : [s.addedRow stamp d version].filter (fun item =>
      item.definitionId = d && item.tenantId = normalizeTenant s.tenantId) =
      [s.addedRow stamp d version] :=
    List.filter_eq_self.2 (by simp [Submission.addedRow])
  rw [Submission.scope, lineage, List.filter_append, hin, List.filter_append]
  congr 1
  exact List.filter_cons

/-- The scope of a submission after a row gives way to one of its id and its lineage. -/
theorem Sound.scope_put (hs : m.Sound) (item : Item) (hrow : row ∈ m.items) (hid : item.id = row.id)
    (hd : item.definitionId = row.definitionId) (ht : item.tenantId = row.tenantId) :
    s.scope mode d (m.put item) =
      (s.scope mode d m).map fun other => if other.id = item.id then item else other := by
  rw [Submission.scope, lineage, Memory.put, List.filter_map, List.filter_map, Submission.scope, lineage]
  congr 1
  rw [List.filter_filter, List.filter_filter]
  refine List.filter_congr fun other hm => ?_
  simp only [Function.comp_apply]
  split
  · next h =>
    have hsame : other = row := hs.eq_of_id hm hrow (h.trans hid)
    simp only [Submission.mayMean, hid, hd, ht, hsame]
  · rfl

/-- What a submission matches after a row has been rewritten at its own version. -/
theorem Sound.matched_put (hs : m.Sound) (item : Item) (hrow : row ∈ m.items) (hid : item.id = row.id)
    (hkey : item.key = row.key) (h : s.matched (s.scope mode d m) = some old) :
    s.matched (s.scope mode d (m.put item)) = some (if old.id = item.id then item else old) := by
  simp only [Item.key, Prod.mk.injEq] at hkey
  rw [hs.scope_put item hrow hid hkey.1 hkey.2.1, Submission.matched_map, h, Option.map_some]
  intro other hm
  split
  · next heq =>
    have hmem := (mem_lineage.1 (mem_lineage_of_scope hm)).1
    rw [hs.eq_of_id hmem hrow (heq.trans hid)]
    exact hkey.2.2
  · rfl

/-! ### The row that is matched the second time -/

/-- Whether a repeated submission ends with the row that the first call returned. -/
def Returns (s : Submission) (mode : Mode) (d : String) (item : Item) (m : Memory) : Prop :=
  s.matched (s.scope mode d m) = some item ∧ item.payload.equal s.payload

theorem payload_addedRow (version : String) :
    (s.addedRow stamp d version).payload.equal s.payload = true :=
  s.payload.equal_self

theorem payload_rewrittenRow (version : String) :
    (s.rewrittenRow stamp row version).payload.equal s.payload = true :=
  s.payload.equal_self

theorem returns_added (initial : String) (h : s.matched (s.scope mode d m) = none) :
    Returns s mode d (s.addedRow stamp d (s.version.getD initial))
        ⟨m.items ++ [s.addedRow stamp d (s.version.getD initial)]⟩ ↔
      (mode = .overwrite → s.id.all (· = stamp.id)) := by
  have hmean : s.mayMean mode (s.addedRow stamp d (s.version.getD initial)) = true ↔
      (mode = .overwrite → s.id.all (· = stamp.id)) := by
    simp only [Submission.mayMean, Bool.or_eq_true, decide_eq_true_eq, Submission.addedRow]
    exact Decidable.imp_iff_not_or.symm
  rw [Returns, scope_addedRow, ← hmean]
  split
  · next hyes =>
    rw [Submission.matched_concat_of_unmatched h initial rfl]
    exact iff_of_true ⟨rfl, payload_addedRow _⟩ hyes
  · next hno =>
    rw [List.append_nil, h]
    exact iff_of_false (fun both => by cases both.1) hno

/-- A row that is added after the latest one is matched again unless the submission names the version
of another one. -/
theorem returns_next {version : String} (hmode : mode ≠ .overwrite)
    (h : s.matched (s.scope mode d m) = some row) (hchanged : row.payload.equal s.payload = false)
    (hlatest : latestOf (s.scope mode d m) = some latest)
    (hlt : compareVersions latest.version version = .lt) :
    Returns s mode d (s.addedRow stamp d version) ⟨m.items ++ [s.addedRow stamp d version]⟩ ↔
      s.version = none := by
  have hmean : s.mayMean mode (s.addedRow stamp d version) = true := by
    simp [Submission.mayMean, hmode]
  rw [Returns, scope_addedRow, if_pos hmean]
  cases hversion : s.version with
  | none =>
    refine iff_of_true ⟨?_, payload_addedRow version⟩ rfl
    rw [Submission.matched, hversion]
    refine latestOf_concat fun other hm => ?_
    exact Std.TransCmp.lt_of_isLE_of_lt ((isLatest_of_latestOf hlatest).isLE hm) hlt
  | some named =>
    refine iff_of_false (fun both => ?_) (by simp)
    -- The row at the named version is still the first one at it.
    have hstill : s.matched (s.scope mode d m ++ [s.addedRow stamp d version]) = some row := by
      simp only [Submission.matched, hversion] at h ⊢
      rw [List.find?_append, h, Option.some_or]
    rw [hstill] at both
    rw [Option.some.inj both.1, payload_addedRow] at hchanged
    cases hchanged

/-- A rewritten row is matched again if it was the matched one. -/
theorem Sound.returns_rewritten (hs : m.Sound)
    (h : s.matched (s.scope mode d m) = some row) (hchanged : row.payload.equal s.payload = false)
    (hlatest : latest ∈ s.scope mode d m) :
    Returns s mode d (s.rewrittenRow stamp latest latest.version)
        (m.put (s.rewrittenRow stamp latest latest.version)) ↔ latest = row := by
  have hmem : ∀ other ∈ s.scope mode d m, other ∈ m.items := fun other ho =>
    (mem_lineage.1 (mem_lineage_of_scope ho)).1
  rw [Returns, hs.matched_put (s.rewrittenRow stamp latest latest.version)
    (hmem latest hlatest) rfl rfl h]
  split
  · next hid =>
    have hsame : row = latest :=
      hs.eq_of_id (hmem row (Submission.mem_of_matched h)) (hmem latest hlatest) hid
    exact iff_of_true ⟨rfl, payload_rewrittenRow _⟩ hsame.symm
  · next hid =>
    refine iff_of_false (fun both => ?_) (fun hsame => hid (by rw [← hsame]; rfl))
    rw [Option.some.inj both.1, payload_rewrittenRow] at hchanged
    cases hchanged

/-- A row of the empty version that is rewritten at the default one stays the only row in scope. -/
theorem Sound.returns_rewritten_empty (hs : m.Sound) (hversion : s.version = none)
    (h : s.matched (s.scope mode d m) = some row) (hempty : row.version = "") (version : String) :
    Returns s mode d (s.rewrittenRow stamp row version)
      (m.put (s.rewrittenRow stamp row version)) := by
  have hrow := mem_lineage.1 (mem_lineage_of_scope (Submission.mem_of_matched h))
  have hlatest : latestOf (s.scope mode d m) = some row := by
    rw [← h, Submission.matched, hversion]
  have honly : ∀ other ∈ s.scope mode d m, other = row := by
    intro other ho
    have hle := (isLatest_of_latestOf hlatest).isLE ho
    rw [hempty] at hle
    have hother := mem_lineage.1 (mem_lineage_of_scope ho)
    refine hs.eq_of_key hother.1 hrow.1 ?_
    rw [Item.key, Item.key, hother.2.1, hother.2.2, hrow.2.1, hrow.2.2, hempty, eq_empty_of_isLE hle]
  refine ⟨?_, payload_rewrittenRow version⟩
  rw [hs.scope_put (s.rewrittenRow stamp row version) hrow.1 rfl rfl rfl, Submission.matched,
    hversion]
  refine latestOf_of_forall_eq ?_ ?_
  · simpa using List.ne_nil_of_mem (Submission.mem_of_matched h)
  · intro other ho
    obtain ⟨old, hold, rfl⟩ := List.mem_map.1 ho
    rw [honly old hold]
    exact if_pos rfl

theorem returns_addNext {field : ReleaseField} (hmode : mode ≠ .overwrite)
    (hother : mode ≠ .overwriteLatest) (h : s.matched (s.scope mode d m) = some row)
    (hchanged : row.payload.equal s.payload = false)
    (hlatest : latestOf (s.scope mode d m) = some latest)
    (hok : (m.addNext stamp s d latest field).1 = .ok item) :
    Returns s mode d item (m.addNext stamp s d latest field).2 ↔
      mode = .overwrite ∨ s.version = none ∨ (mode = .overwriteLatest ∧ latest = row) := by
  dsimp only [addNext] at hok ⊢
  cases hnext : nextRelease latest.version field with
  | error cause =>
    rw [hnext] at hok
    cases hok
  | ok version =>
    rw [hnext] at hok
    cases Except.ok.inj hok
    refine (returns_next hmode h hchanged hlatest (compareVersions_nextRelease hnext)).trans ?_
    simp only [hmode, hother, false_and, or_false, false_or]

/-- After a row has been changed a submission matches the row that was written just if it was the
matched row that was written, or a row after the latest one that a lookup by no version finds. -/
theorem Sound.returns_change_iff (hs : m.Sound) (h : s.matched (s.scope mode d m) = some row)
    (hchanged : row.payload.equal s.payload = false)
    (hlatest : latestOf (s.scope mode d m) = some latest)
    (hok : (m.change mode s stamp d row latest).1 = .ok item) :
    Returns s mode d item (m.change mode s stamp d row latest).2 ↔
      mode = .overwrite ∨ s.version = none ∨ (mode = .overwriteLatest ∧ latest = row) := by
  have hrow := Submission.mem_of_matched h
  cases mode with
  | overwrite =>
    refine iff_of_true ?_ (.inl rfl)
    dsimp only [change] at hok ⊢
    split at hok
    · next hempty =>
      rw [if_pos hempty]
      split at hok
      · cases hok
      · next hfree =>
        rw [if_neg hfree]
        cases Except.ok.inj hok
        exact hs.returns_rewritten_empty hempty.1 h hempty.2 "1"
    · next hkeep =>
      rw [if_neg hkeep]
      cases Except.ok.inj hok
      exact (hs.returns_rewritten h hchanged hrow).2 rfl
  | overwriteLatest =>
    cases Except.ok.inj hok
    refine (hs.returns_rewritten h hchanged (isLatest_of_latestOf hlatest).mem).trans ?_
    simp only [reduceCtorEq, false_or, true_and]
    refine ⟨.inr, fun either => ?_⟩
    rcases either with hversion | hsame
    · rw [Submission.matched, hversion] at h
      exact Option.some.inj (hlatest.symm.trans h)
    · exact hsame
  | manual => cases hok
  | autoIncrementMajor => exact returns_addNext (by decide) (by decide) h hchanged hlatest hok
  | autoIncrementMinor => exact returns_addNext (by decide) (by decide) h hchanged hlatest hok

/-- After a successful call a submission matches the row that it returned just if it settles. -/
theorem Sound.returns_transition_iff (hs : m.Sound) (hid : s.resolvedId = some d)
    (hok : (m.transition config mode s stamp).1 = .ok item) :
    Returns s mode d item (m.transition config mode s stamp).2 ↔ s.Settles mode d stamp.id m := by
  unfold Submission.Settles
  cases hmatched : s.matched (s.scope mode d m) with
  | none =>
    rw [transition_of_unmatched hid hmatched] at hok ⊢
    split at hok
    · cases hok
    · next hfree =>
      rw [if_neg hfree]
      cases Except.ok.inj hok
      exact returns_added config.initialVersion hmatched
  | some row =>
    cases hsame : row.payload.equal s.payload with
    | true =>
      rw [transition_of_unchanged hid hmatched hsame] at hok ⊢
      cases Except.ok.inj hok
      exact iff_of_true ⟨hmatched, hsame⟩ (.inl hsame)
    | false =>
      obtain ⟨latest, hlatest⟩ := Submission.exists_latestOf hmatched
      rw [transition_of_changed hid hmatched hsame hlatest] at hok ⊢
      simp only [hsame, Bool.false_eq_true, false_or, hlatest, Option.some.injEq]
      exact hs.returns_change_iff hmatched hsame hlatest hok

end Memory

/-! ### Counting the writes -/

/-- How many writes were asked of a store. -/
def Tally.writes (tally : Tally) : Nat :=
  tally.inserts + tally.updates

/-- The writes that a decision asks for: none or one. -/
def writesOf : Except ServiceError Item ⊕ Write → Nat
  | .inl _ => 0
  | .inr _ => 1

theorem carryOut_tallied (stamp : Stamp) (m : Memory) (decision : Except ServiceError Item ⊕ Write)
    (tally : Tally) :
    ∃ after : Tally, after.writes = tally.writes + writesOf decision ∧
      carryOut (Backend.tallied Memory.backend) stamp (m, tally) decision =
        ((carryOut Memory.backend stamp m decision).1,
          (carryOut Memory.backend stamp m decision).2, after) := by
  cases decision with
  | inl answer => exact ⟨tally, rfl, rfl⟩
  | inr planned =>
    cases planned with
    | insert c =>
      refine ⟨{ tally with inserts := tally.inserts + 1 }, ?_, rfl⟩
      simp only [Tally.writes, writesOf]
      omega
    | update item => exact ⟨{ tally with updates := tally.updates + 1 }, rfl, rfl⟩

theorem lists_tallied : Lists (Backend.tallied Memory.backend) Prod.fst := fun _ _ _ => rfl

/-- A call is decided in favour of a row just if the submission matches the row and leaves it as it
is. -/
theorem Service.decision_eq_inl_ok_iff (service : Service) :
    service.decision mode s d rows = .inl (.ok item) ↔
      s.matched rows = some item ∧
        service.comparator item (s.toCandidate d service.config.initialVersion) = true := by
  cases h : s.matched rows with
  | none =>
    rw [decision_of_unmatched h]
    exact iff_of_false (by simp) (by simp)
  | some row =>
    cases hsame : service.comparator row (s.toCandidate d service.config.initialVersion) with
    | true =>
      rw [decision_of_unchanged h hsame]
      constructor
      · intro heq
        cases heq
        exact ⟨rfl, hsame⟩
      · rintro ⟨heq, -⟩
        rw [Option.some.inj heq]
    | false =>
      obtain ⟨latest, -, hdecision⟩ := decision_of_changed service mode d h hsame
      rw [hdecision, planned]
      refine iff_of_false ?_ ?_
      · split <;> simp
      · rintro ⟨heq, hitem⟩
        rw [← Option.some.inj heq, hsame] at hitem
        cases hitem

/-! ### Repeated calls -/

/-- What it means that a call may be repeated: it returns the same item again, leaves the store as it
is, and the two calls ask for one write at most. -/
def Service.Repeatable (service : Service) (mode : Option Mode) (s : Submission)
    (first second : Stamp) (m : Memory) : Prop :=
  let once := (service.persist mode s).effect (Backend.tallied Memory.backend) first (m, {})
  let again := (service.persist mode s).effect (Backend.tallied Memory.backend) second once.2
  ∃ item, once.1 = .ok item ∧ again.1 = .ok item ∧ again.2.1 = once.2.1 ∧ again.2.2.writes ≤ 1

theorem writesOf_le (decision : Except ServiceError Item ⊕ Write) : writesOf decision ≤ 1 := by
  cases decision <;> simp [writesOf]

/-- A successful call may be repeated just if the submission matches the row that it returned from
then on. -/
theorem repeatable_iff_returns {chosen : Option Mode} {first second : Stamp}
    (hmode : chosen.getD config.defaultMode = mode) (hid : s.resolvedId = some d)
    (hok : ((({ config := config } : Service).persist chosen s).effect Memory.backend first m).1 =
      .ok item) :
    ({ config := config } : Service).Repeatable chosen s first second m ↔
      Memory.Returns s mode d item
        ((({ config := config } : Service).persist chosen s).effect Memory.backend first m).2 := by
  have hreturns : ∀ m : Memory, Memory.Returns s mode d item m ↔
      ({ config := config } : Service).decision mode s d (s.scope mode d m) = .inl (.ok item) :=
    fun m => (Service.decision_eq_inl_ok_iff { config := config }).symm
  rw [hreturns, Service.Repeatable, effect_persist_of_resolved lists_tallied hmode hid]
  rw [effect_persist_of_resolved Memory.lists hmode hid] at hok ⊢
  dsimp only [id] at hok ⊢
  generalize hfirst : ({ config := config } : Service).decision mode s d (s.scope mode d m) =
    firstly at hok ⊢
  obtain ⟨tally, hwrites, honce⟩ := carryOut_tallied first m firstly {}
  rw [honce, effect_persist_of_resolved lists_tallied hmode hid]
  dsimp only
  generalize hstore : (carryOut Memory.backend first m firstly).2 = store
  generalize hsecond : ({ config := config } : Service).decision mode s d (s.scope mode d store) =
    secondly
  obtain ⟨total, htotal, hagain⟩ := carryOut_tallied second store secondly tally
  rw [hagain]
  constructor
  · rintro ⟨again, hfst, hsnd, -, hle⟩
    rw [hok] at hfst
    cases hfst
    cases secondly with
    | inl answer => exact congrArg Sum.inl hsnd
    | inr planned =>
      -- The first call asked for no write, so it left the store and was decided alike.
      cases firstly with
      | inl answer =>
        have hsame : store = m := hstore.symm
        rw [hsame, hfirst] at hsecond
        cases hsecond
      | inr planned => simp [htotal, hwrites, writesOf] at hle
  · rintro rfl
    refine ⟨item, hok, rfl, rfl, ?_⟩
    have hnone : ({} : Tally).writes = 0 := rfl
    rw [htotal, hwrites, hnone, Nat.zero_add]
    exact writesOf_le firstly

/-- After a successful call on a sound store the same call may be repeated just if the submission
settles. -/
theorem Memory.Sound.repeatable_iff (hs : m.Sound) {chosen : Option Mode} {first second : Stamp}
    (hid : s.resolvedId = some d)
    (hok : ((({ config := config } : Service).persist chosen s).effect Memory.backend first m).1 =
      .ok item) :
    ({ config := config } : Service).Repeatable chosen s first second m ↔
      s.Settles (chosen.getD config.defaultMode) d first.id m := by
  rw [repeatable_iff_returns rfl hid hok]
  rw [hs.effect_persist] at hok ⊢
  exact hs.returns_transition_iff hid hok

/-- After a successful call on a reachable store the same call may be repeated just if the submission
settles. -/
theorem repeatable_iff_settles (h : m.Reachable) (config : Config) (chosen : Option Mode)
    (s : Submission) (first second : Stamp) {item : Item}
    (hok : ((({ config := config } : Service).persist chosen s).effect Memory.backend first m).1 =
      .ok item) :
    ({ config := config } : Service).Repeatable chosen s first second m ↔
      ∃ d, s.resolvedId = some d ∧ s.Settles (chosen.getD config.defaultMode) d first.id m := by
  cases hid : s.resolvedId with
  | none =>
    rw [h.sound.effect_persist, Memory.transition_of_unresolved hid] at hok
    cases hok
  | some d =>
    simp only [Option.some.injEq, exists_eq_left']
    exact h.sound.repeatable_iff hid hok

/-- A submission without a version settles when its row is added after the latest one. -/
theorem repeatable_autoIncrement :
    Memory.twoVersions.Reachable ∧
      ((Service.persist {} (some .autoIncrementMinor)
          ⟨none, some "order", none, none, none, none, .null⟩).effect Memory.backend ⟨⟨3⟩, 30⟩
          Memory.twoVersions).1 = .ok ⟨⟨3⟩, "order", none, "2.1", none, none, .null, 30, 30⟩ ∧
      Service.Repeatable {} (some .autoIncrementMinor)
        ⟨none, some "order", none, none, none, none, .null⟩ ⟨⟨3⟩, 30⟩ ⟨⟨4⟩, 40⟩
        Memory.twoVersions := by
  have hok : ((Service.persist {} (some .autoIncrementMinor)
      ⟨none, some "order", none, none, none, none, .null⟩).effect Memory.backend ⟨⟨3⟩, 30⟩
      Memory.twoVersions).1 = .ok ⟨⟨3⟩, "order", none, "2.1", none, none, .null, 30, 30⟩ := by
    rw [Memory.reachable_twoVersions.sound.effect_persist]
    rfl
  refine ⟨Memory.reachable_twoVersions, hok, ?_⟩
  refine (repeatable_iff_settles Memory.reachable_twoVersions {} (some .autoIncrementMinor) _ _ _
    hok).2 ⟨"order", rfl, ?_⟩
  exact .inr (.inr (.inl rfl))

/-- Not every successful call may be repeated: in the overwrite mode a submission whose id is
unknown is added, with another id, and then refused for its version. -/
theorem not_forall_repeatable :
    ¬ ∀ (m : Memory) (config : Config) (chosen : Option Mode) (s : Submission)
        (first second : Stamp) (item : Item),
      m.Reachable → m.has first.id = false → m.has second.id = false → first.id ≠ second.id →
      s.id ≠ some first.id →
      ((({ config := config } : Service).persist chosen s).effect Memory.backend first m).1 =
        .ok item →
      ({ config := config } : Service).Repeatable chosen s first second m := by
  intro hall
  have hok : ((Service.persist {} (some .overwrite)
      ⟨some ⟨9⟩, some "order", none, none, none, none, .null⟩).effect Memory.backend ⟨⟨1⟩, 10⟩
      .empty).1 = .ok ⟨⟨1⟩, "order", none, "1", none, none, .null, 10, 10⟩ := by
    rw [Memory.Sound.empty.effect_persist]
    rfl
  have hrepeat := hall .empty {} (some .overwrite)
    ⟨some ⟨9⟩, some "order", none, none, none, none, .null⟩ ⟨⟨1⟩, 10⟩ ⟨⟨2⟩, 20⟩ _ .empty rfl rfl
    (by decide) (by decide) hok
  have hsettles := (Memory.Sound.empty.repeatable_iff (d := "order") rfl hok).1 hrepeat
  exact absurd (hsettles rfl) (by decide)

end Lineage
