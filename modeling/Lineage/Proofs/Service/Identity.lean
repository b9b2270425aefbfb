/-
Overwriting one row again and again.

The calls are in the overwrite mode, for the lineage of a row, and submit the row's id. One that names
no version, or the row's own, rewrites the row in its place. One that names another version matches no
row, since the lookup is by id and version together, and what it says is added as a new row.
`overwriting_keeps_row` tells what a run of both kinds leaves: the row goes on under its id, its key and
its creation time, and nothing else that was stored changes.
-/

import Lineage.Proofs.Json.Equality
import Lineage.Proofs.Service.Sanction
import Lineage.Proofs.Service.Succession

namespace Lineage

/-! ### What becomes of a row -/

/-- Whether an item may be what has become of a row by rewriting it under its own key. -/
structure Item.Continues (item row : Item) : Prop where
  id : item.id = row.id
  key : item.key = row.key
  createdAt : item.createdAt = row.createdAt

namespace Item.Continues

variable {item next row : Item}

theorem refl (row : Item) : row.Continues row :=
  ⟨rfl, rfl, rfl⟩

theorem trans (h : item.Continues next) (h' : next.Continues row) : item.Continues row :=
  ⟨h.id.trans h'.id, h.key.trans h'.key, h.createdAt.trans h'.createdAt⟩

theorem definitionId (h : item.Continues row) : item.definitionId = row.definitionId :=
  congrArg (·.1) h.key

theorem tenantId (h : item.Continues row) : item.tenantId = row.tenantId :=
  congrArg (·.2.1) h.key

theorem version (h : item.Continues row) : item.version = row.version :=
  congrArg (·.2.2) h.key

end Item.Continues

/-! ### Calls that submit the id of a row -/

namespace Attempt

/-- A call in the overwrite mode that submits the id of a row, for the lineage of the row. -/
structure Overwrites (attempt : Attempt) (config : Config) (row : Item) : Prop where
  overwrites : attempt.chosen.getD config.defaultMode = .overwrite
  id : attempt.submission.id = some row.id
  resolved : attempt.submission.resolvedId = some row.definitionId
  tenant : normalizeTenant attempt.submission.tenantId = row.tenantId

/-- Whether a call may be for a row: it names the row's version or none. -/
def isFor (attempt : Attempt) (row : Item) : Bool :=
  Clause.keyMatches attempt.submission.version row.version

/-- The row that a call adds to the lineage of a row when it is not for that row. -/
def beside (attempt : Attempt) (row : Item) : Item :=
  attempt.submission.addedRow attempt.stamp row.definitionId
    (attempt.submission.version.getD row.version)

/-- The id that a call gets is new, and no other row of the lineage has the version that it names. -/
structure Made.Admitted (made : Made) (row : Item) : Prop where
  fresh : made.before.has made.attempt.stamp.id = false
  free : ∀ other ∈ made.before.lineage row.definitionId row.tenantId, other.id ≠ row.id →
    made.attempt.submission.version ≠ some other.version

variable {attempt : Attempt} {made : Made} {config : Config} {next row : Item}

theorem Overwrites.continues (h : attempt.Overwrites config row) (hnext : next.Continues row) :
    attempt.Overwrites config next where
  overwrites := h.overwrites
  id := by rw [h.id, hnext.id]
  resolved := by rw [h.resolved, hnext.definitionId]
  tenant := by rw [h.tenant, hnext.tenantId]

theorem Made.Admitted.continues (h : made.Admitted row) (hnext : next.Continues row) :
    made.Admitted next where
  fresh := h.fresh
  free := by
    rw [hnext.definitionId, hnext.tenantId, hnext.id]
    exact h.free

theorem isFor_of_continues (hnext : next.Continues row) : attempt.isFor next = attempt.isFor row := by
  rw [isFor, isFor, hnext.version]

theorem beside_of_continues (hnext : next.Continues row) :
    attempt.beside next = attempt.beside row := by
  rw [beside, beside, hnext.definitionId, hnext.version]

end Attempt

namespace Memory

variable {m : Memory} {s : Submission} {row other : Item}

/-- To put a row in its own place changes nothing. -/
theorem Sound.put_mem (hs : m.Sound) (hrow : row ∈ m.items) : m.put row = m := by
  have hsame : ∀ other ∈ m.items, (if other.id = row.id then row else other) = other := by
    intro other hother
    split
    · next hid => exact (hs.eq_of_id hother hrow hid).symm
    · rfl
  rw [Memory.put, List.map_congr_left hsame, List.map_id']

/-- A version that is not the row's own, and that no other row of the lineage has, is free. -/
theorem Sound.unheld (hs : m.Sound) (hrow : row ∈ m.items)
    (hother : Clause.keyMatches s.version row.version = false)
    (hfree : ∀ other ∈ m.lineage row.definitionId row.tenantId, other.id ≠ row.id →
      s.version ≠ some other.version) :
    ∀ other ∈ m.lineage row.definitionId row.tenantId, s.version ≠ some other.version := by
  intro other hmem hversion
  by_cases hself : other.id = row.id
  · rw [hs.eq_of_id (mem_lineage.1 hmem).1 hrow hself] at hversion
    simp [hversion, Clause.keyMatches] at hother
  · exact hfree other hmem hself hversion

section Own

variable (hs : m.Sound) (hrow : row ∈ m.items) (hid : s.id = some row.id)
  (hresolved : s.resolvedId = some row.definitionId)
  (htenant : normalizeTenant s.tenantId = row.tenantId)

include hs hrow hid htenant

/-- Nothing but the row is in the scope of a submission with its id. -/
theorem Sound.mem_scope_own :
    other ∈ s.scope .overwrite row.definitionId m ↔ other = row := by
  rw [Submission.scope, List.mem_filter, mem_lineage, htenant]
  simp only [Submission.mayMean, hid, Option.all_some, ne_eq, not_true_eq_false, decide_false,
    Bool.false_or, decide_eq_true_eq]
  constructor
  · rintro ⟨⟨hother, -, -⟩, heq⟩
    exact hs.eq_of_id hother hrow heq.symm
  · rintro rfl
    exact ⟨⟨hrow, rfl, rfl⟩, rfl⟩

/-- A submission with the id of a row matches the row or nothing. -/
theorem Sound.matched_own :
    s.matched (s.scope .overwrite row.definitionId m) =
      if Clause.keyMatches s.version row.version then some row else none := by
  have hmem : ∀ other, other ∈ s.scope .overwrite row.definitionId m ↔ other = row :=
    fun other => hs.mem_scope_own hrow hid htenant
  rw [Submission.matched_eq]
  split
  · next hversion =>
    have hmatch : row ∈ (s.scope .overwrite row.definitionId m).filter fun item =>
        Clause.keyMatches s.version item.version :=
      List.mem_filter.2 ⟨(hmem row).2 rfl, hversion⟩
    exact latestOf_of_forall_eq (List.ne_nil_of_mem hmatch)
      fun other hother => (hmem other).1 (List.mem_filter.1 hother).1
  · next hversion =>
    rw [latestOf_eq_none_iff, List.filter_eq_nil_iff]
    intro other hother
    rw [(hmem other).1 hother]
    exact hversion

include hresolved

/-- A submission for a row with a version rewrites the row in its place, or finds it as it should
be. -/
theorem Sound.transition_own (config : Config) (stamp : Stamp) (hversion : row.version ≠ "")
    (hfor : Clause.keyMatches s.version row.version = true) :
    ∃ next : Item, next.Continues row ∧ next.payload.equal s.payload = true ∧
      m.transition config .overwrite s stamp = (.ok next, m.put next) := by
  have hmatched := hs.matched_own hrow hid htenant
  rw [if_pos hfor] at hmatched
  cases hsame : row.payload.equal s.payload with
  | true =>
    refine ⟨row, .refl row, hsame, ?_⟩
    rw [transition_of_unchanged hresolved hmatched hsame, hs.put_mem hrow]
  | false =>
    obtain ⟨latest, hlatest⟩ := Submission.exists_latestOf hmatched
    refine ⟨s.rewrittenRow stamp row row.version, ⟨rfl, rfl, rfl⟩, s.payload.equal_self, ?_⟩
    rw [transition_of_changed hresolved hmatched hsame hlatest]
    exact if_neg fun both => hversion both.2

/-- A submission for a version that no row of the lineage has is added at that version. -/
theorem Sound.transition_beside (config : Config) (stamp : Stamp)
    (hother : Clause.keyMatches s.version row.version = false)
    (hfree : ∀ other ∈ m.lineage row.definitionId row.tenantId, s.version ≠ some other.version) :
    m.transition config .overwrite s stamp =
      m.addVersion stamp s row.definitionId (s.version.getD row.version) := by
  have hmatched := hs.matched_own hrow hid htenant
  rw [hother, if_neg Bool.false_ne_true] at hmatched
  rw [transition_of_unmatched hresolved hmatched, htenant]
  cases hversion : s.version with
  | none =>
    rw [hversion] at hother
    cases hother
  | some version =>
    refine if_neg fun both => ?_
    obtain ⟨found, hfound, htaken⟩ := List.any_eq_true.1 both.2
    exact hfree found hfound (hversion.trans (congrArg some (of_decide_eq_true htaken).symm))

end Own

end Memory

/-! ### Runs -/

namespace Memory

/-- What becomes of a store by calls that submit the id of a row: the row is now `final`, and what was
not for the row has been added. -/
structure Overwritten (m : Memory) (row : Item) (attempts : List Attempt) (after : Memory)
    (final : Item) : Prop where
  continues : final.Continues row
  items_eq : after.items = (m.put final).items ++
    (attempts.filter fun attempt => !attempt.isFor row).map fun attempt => attempt.beside row
  untouched : (attempts.filter fun attempt => attempt.isFor row) = [] → final = row
  payload : ∀ last ∈ (attempts.filter fun attempt => attempt.isFor row).getLast?,
    final.payload.equal last.submission.payload = true

variable {m after : Memory} {config : Config} {attempt : Attempt} {attempts : List Attempt}
  {next final row : Item}

theorem Overwritten.size (h : m.Overwritten row attempts after final) :
    after.size = m.size + (attempts.filter fun attempt => !attempt.isFor row).length := by
  simp only [Memory.size, h.items_eq, Memory.put, List.length_append, List.length_map]

theorem overwritten_nil (hs : m.Sound) (hrow : row ∈ m.items) : m.Overwritten row [] m row where
  continues := .refl row
  items_eq := by simp [hs.put_mem hrow]
  untouched := fun _ => rfl
  payload := by simp

/-- A row that is put in a place twice is put there the second time. -/
theorem put_put (m : Memory) (h : final.id = next.id) : (m.put next).put final = m.put final := by
  simp only [Memory.put, List.map_map]
  congr 1
  refine List.map_congr_left fun other _ => ?_
  simp only [Function.comp_apply]
  split
  · next hid => rw [if_pos h.symm, if_pos (hid.trans h.symm)]
  · next hid => rw [h]

/-- A call for the row comes before the others. -/
theorem Overwritten.cons_own (h : (m.put next).Overwritten next attempts after final)
    (hnext : next.Continues row) (hpayload : next.payload.equal attempt.submission.payload = true)
    (hfor : attempt.isFor row = true) : m.Overwritten row (attempt :: attempts) after final where
  continues := h.continues.trans hnext
  items_eq := by
    have hitems := h.items_eq
    simp only [Attempt.isFor_of_continues hnext, Attempt.beside_of_continues hnext,
      put_put m h.continues.id] at hitems
    rw [List.filter_cons_of_neg (by simp [hfor]), hitems]
  untouched := by simp [hfor]
  payload := by
    have hlater := h.payload
    have huntouched := h.untouched
    simp only [Attempt.isFor_of_continues hnext] at hlater huntouched
    have hkept : ((attempt :: attempts).filter fun attempt => attempt.isFor row) =
        attempt :: attempts.filter fun attempt => attempt.isFor row :=
      List.filter_cons_of_pos hfor
    rw [hkept]
    cases hrest : attempts.filter fun attempt => attempt.isFor row with
    | nil =>
      rw [huntouched hrest]
      simpa using hpayload
    | cons first others =>
      rw [hrest] at hlater
      rwa [List.getLast?_cons_cons]

/-- A call that is not for the row comes before the others. -/
theorem Overwritten.cons_beside
    (h : Overwritten ⟨m.items ++ [attempt.beside row]⟩ row attempts after final)
    (hother : attempt.isFor row = false) (hfresh : attempt.stamp.id ≠ row.id) :
    m.Overwritten row (attempt :: attempts) after final where
  continues := h.continues
  items_eq := by
    have hput : (put ⟨m.items ++ [attempt.beside row]⟩ final).items =
        (m.put final).items ++ [attempt.beside row] := by
      simp only [Memory.put, List.map_append, List.map_cons, List.map_nil]
      rw [if_neg]
      rw [h.continues.id]
      exact hfresh
    rw [h.items_eq, hput, List.filter_cons_of_pos (by simp [hother]), List.map_cons,
      List.append_assoc, List.singleton_append]
  untouched := by
    rw [List.filter_cons_of_neg (by simp [hother])]
    exact h.untouched
  payload := by
    rw [List.filter_cons_of_neg (by simp [hother])]
    exact h.payload

end Memory

section Runs

variable {m : Memory} {config : Config} {attempt : Attempt} {attempts : List Attempt} {row : Item}

/-- A call for a row with a version rewrites the row in its place, or leaves it. -/
theorem make_of_isFor (hs : m.Sound) (hrow : row ∈ m.items) (hversion : row.version ≠ "")
    (h : attempt.Overwrites config row) (hfor : attempt.isFor row = true) :
    ∃ next : Item, next.Continues row ∧ next.payload.equal attempt.submission.payload = true ∧
      ({ config := config } : Service).make m attempt = ⟨attempt, m, .ok next, m.put next⟩ := by
  obtain ⟨next, hnext, hpayload, heq⟩ :=
    hs.transition_own hrow h.id h.resolved h.tenant config attempt.stamp hversion hfor
  refine ⟨next, hnext, hpayload, ?_⟩
  rw [Service.make, hs.effect_persist, h.overwrites, heq]

/-- A call that is not for the row adds one, and the store stays sound. -/
theorem make_beside (hs : m.Sound) (hrow : row ∈ m.items) (h : attempt.Overwrites config row)
    (hother : attempt.isFor row = false) (hfresh : m.has attempt.stamp.id = false)
    (hfree : ∀ other ∈ m.lineage row.definitionId row.tenantId, other.id ≠ row.id →
      attempt.submission.version ≠ some other.version) :
    ({ config := config } : Service).make m attempt =
        ⟨attempt, m, .ok (attempt.beside row), ⟨m.items ++ [attempt.beside row]⟩⟩ ∧
      Memory.Sound ⟨m.items ++ [attempt.beside row]⟩ := by
  have hunheld := hs.unheld hrow hother hfree
  constructor
  · have heq := hs.transition_beside hrow h.id h.resolved h.tenant config attempt.stamp hother hunheld
    rw [Service.make, hs.effect_persist, h.overwrites, heq]
    rfl
  · refine hs.append hfresh (fun other hmem hkey => ?_) (normalizeTenant_idem _)
    obtain ⟨hd, ht, hversion⟩ : other.definitionId = row.definitionId ∧
        other.tenantId = normalizeTenant attempt.submission.tenantId ∧
        other.version = attempt.submission.version.getD row.version := by
      simpa [Item.key, Attempt.beside, Submission.addedRow] using hkey
    have hlineage : other ∈ m.lineage row.definitionId row.tenantId :=
      Memory.mem_lineage.2 ⟨hmem, hd, ht.trans h.tenant⟩
    cases hnamed : attempt.submission.version with
    | none => simp [Attempt.isFor, hnamed, Clause.keyMatches] at hother
    | some version =>
      rw [hnamed, Option.getD_some] at hversion
      exact hunheld other hlineage (hnamed.trans (congrArg some hversion.symm))

/-- Calls that submit the id of a row succeed, and leave a store in which that row has been
overwritten. -/
theorem Memory.Sound.overwritten_persistAll (hs : m.Sound) (hrow : row ∈ m.items)
    (hversion : row.version ≠ "") (overwrites : ∀ attempt ∈ attempts, attempt.Overwrites config row)
    (admitted : ∀ call ∈ (({ config := config } : Service).persistAll m attempts).1,
      call.Admitted row) :
    let run := ({ config := config } : Service).persistAll m attempts
    (∀ call ∈ run.1, ∃ item, call.result = .ok item) ∧
      ∃ final, m.Overwritten row attempts run.2 final := by
  induction attempts generalizing m row with
  | nil => exact ⟨List.forall_mem_nil _, row, Memory.overwritten_nil hs hrow⟩
  | cons attempt rest ih =>
    rw [List.forall_mem_cons] at overwrites
    simp only [Service.persistAll, List.forall_mem_cons] at admitted ⊢
    obtain ⟨hadmitted, hlater⟩ := admitted
    cases hfor : attempt.isFor row with
    | true =>
      obtain ⟨next, hnext, hpayload, hmake⟩ :=
        make_of_isFor hs hrow hversion overwrites.1 hfor
      rw [hmake] at hlater ⊢
      have hmem : next ∈ (m.put next).items :=
        (Memory.mem_put (by simpa [Memory.has] using ⟨row, hrow, hnext.id.symm⟩)).2 (.inl rfl)
      obtain ⟨hok, final, hfinal⟩ := ih (hs.put_self hrow hnext.id hnext.key) hmem
        (by rwa [hnext.version]) (fun other hother => (overwrites.2 other hother).continues hnext)
        fun call hcall => (hlater call hcall).continues hnext
      exact ⟨⟨⟨next, rfl⟩, hok⟩, final, hfinal.cons_own hnext hpayload hfor⟩
    | false =>
      obtain ⟨hmake, hsound⟩ :=
        make_beside hs hrow overwrites.1 hfor hadmitted.fresh hadmitted.free
      rw [hmake] at hlater ⊢
      obtain ⟨hok, final, hfinal⟩ := ih hsound (List.mem_append_left _ hrow) hversion overwrites.2 hlater
      exact ⟨⟨⟨_, rfl⟩, hok⟩, final, hfinal.cons_beside hfor
        (Ne.symm (Memory.has_eq_false_iff.1 hadmitted.fresh row hrow))⟩

end Runs

/-- Take any reachable store, a row of it that has a version, any configuration, and any run of calls
in the overwrite mode that submit the id of the row, for its lineage. Each call gets a new id, and names
no version, the row's own, or one that no row of the lineage has by then. Then every call succeeds. The
row is rewritten in its place: it keeps its id, its lineage, its version and its creation time, and its
payload is that of the last call that named no version or the row's own. All other rows stay as they
are, and each call that named another version has added one row at that version. -/
theorem overwriting_keeps_row {m : Memory} (reachable : m.Reachable) (config : Config) {row : Item}
    (stored : row ∈ m.items) (versioned : row.version ≠ "") (attempts : List Attempt)
    (overwrites : ∀ attempt ∈ attempts, attempt.Overwrites config row)
    (admitted : ∀ call ∈ (({ config := config } : Service).persistAll m attempts).1,
      call.Admitted row) :
    let run := ({ config := config } : Service).persistAll m attempts
    (∀ call ∈ run.1, ∃ item, call.result = .ok item) ∧
      run.2.size = m.size + (attempts.filter fun attempt => !attempt.isFor row).length ∧
      ∃ final, m.Overwritten row attempts run.2 final := by
  obtain ⟨hok, final, hfinal⟩ :=
    reachable.sound.overwritten_persistAll stored versioned overwrites admitted
  exact ⟨hok, hfinal.size, final, hfinal⟩

/-- The second row of `Memory.twoVersions`. -/
def Memory.secondVersion : Item :=
  ⟨⟨2⟩, "order", none, "2", none, none, .bool false, 20, 20⟩

theorem Memory.secondVersion_mem : secondVersion ∈ twoVersions.items :=
  List.mem_cons_of_mem _ List.mem_cons_self

/-- A call in the overwrite mode with the id of the second version. -/
def Attempt.second (fresh : Uuid) (version : Option String) (payload : Json) : Attempt :=
  ⟨⟨fresh, 30⟩, some .overwrite, some ⟨2⟩, some "order", none, version, none, none, payload⟩

theorem Attempt.overwrites_second (fresh : Uuid) (version : Option String) (payload : Json) :
    (second fresh version payload).Overwrites {} Memory.secondVersion :=
  ⟨rfl, rfl, rfl, rfl⟩

/-- The second version is overwritten, then a row is added at version 3, and then the second version is
overwritten under its own number. -/
theorem overwriting_keeps_row_second :
    let attempts := [Attempt.second ⟨3⟩ none .null, .second ⟨4⟩ (some "3") (.bool true),
      .second ⟨5⟩ (some "2") (.string "last")]
    let run := Service.persistAll {} Memory.twoVersions attempts
    (∀ call ∈ run.1, ∃ item, call.result = .ok item) ∧ run.2.size = 3 ∧
      ∃ final, Memory.twoVersions.Overwritten Memory.secondVersion attempts run.2 final := by
  intro attempts run
  let first : Item := ⟨⟨1⟩, "order", none, "1", none, none, .bool true, 10, 10⟩
  let second : Item := ⟨⟨2⟩, "order", none, "2", none, none, .null, 20, 30⟩
  let third : Item := ⟨⟨4⟩, "order", none, "3", none, none, .bool true, 30, 30⟩
  have hsound : Memory.Sound ⟨[first, second]⟩ :=
    ⟨by decide, by decide, by simp [first, second, normalizeTenant]⟩
  have hsecond : Service.make {} Memory.twoVersions (.second ⟨3⟩ none .null) =
      ⟨.second ⟨3⟩ none .null, Memory.twoVersions, .ok second, ⟨[first, second]⟩⟩ := by
    rw [Service.make, Memory.reachable_twoVersions.sound.effect_persist]
    rfl
  have hthird : Service.make {} ⟨[first, second]⟩ (.second ⟨4⟩ (some "3") (.bool true)) =
      ⟨.second ⟨4⟩ (some "3") (.bool true), ⟨[first, second]⟩, .ok third,
        ⟨[first, second, third]⟩⟩ := by
    rw [Service.make, hsound.effect_persist]
    rfl
  refine overwriting_keeps_row Memory.reachable_twoVersions {} Memory.secondVersion_mem (by decide)
    attempts ?_ ?_
  · simp [attempts, Attempt.overwrites_second]
  · simp only [attempts, Service.persistAll, hsecond, hthird, List.forall_mem_cons]
    exact ⟨⟨rfl, by decide⟩, ⟨rfl, by decide⟩, ⟨rfl, by decide⟩, List.forall_mem_nil _⟩

/-- Not every run that overwrites a row leaves the number of rows: a call that names a version which
no row of the lineage has adds a row. -/
theorem not_forall_overwriting_in_place :
    ¬ ∀ (m : Memory) (config : Config) (row : Item) (attempts : List Attempt) (last : Attempt),
      m.Reachable → row ∈ m.items → row.version ≠ "" → attempts.getLast? = some last →
      (∀ attempt ∈ attempts, attempt.Overwrites config row) →
      (∀ call ∈ (({ config := config } : Service).persistAll m attempts).1, call.Admitted row) →
      let run := ({ config := config } : Service).persistAll m attempts
      (∀ call ∈ run.1, ∃ item, call.result = .ok item) ∧ run.2.size = m.size ∧
        (∀ other ∈ m.items, other.id ≠ row.id → other ∈ run.2.items) ∧
        ∃ final ∈ run.2.items, final.id = row.id ∧
          final.payload.equal last.submission.payload = true := by
  intro hall
  have hadmitted : ∀ call ∈
      (Service.persistAll {} Memory.twoVersions [.second ⟨3⟩ (some "3") .null]).1,
      call.Admitted Memory.secondVersion := by
    simp only [Service.persistAll, List.forall_mem_cons]
    exact ⟨⟨rfl, by decide⟩, List.forall_mem_nil _⟩
  obtain ⟨-, hsize, -⟩ := hall Memory.twoVersions {} Memory.secondVersion
    [.second ⟨3⟩ (some "3") .null] _ Memory.reachable_twoVersions Memory.secondVersion_mem (by decide)
    rfl (by simp [Attempt.overwrites_second]) hadmitted
  simp only [Service.persistAll, Service.make,
    Memory.reachable_twoVersions.sound.effect_persist] at hsize
  exact absurd hsize (by decide)

end Lineage
