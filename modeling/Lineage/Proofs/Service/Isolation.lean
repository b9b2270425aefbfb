/-
A persist call works within one lineage.

`Memory.only` is the store with the rows of one lineage and nothing else. A persist call on the
whole store and the same call on the lineage alone have the same result, and they leave the same
lineage (`Memory.Sound.effect_persist_only`); the rows outside of it stay as they are. So the call
can neither show nor change what other lineages and other tenants of a definition hold, which is
`persist_isolated`.
-/

import Lineage.Proofs.Service.Transition

namespace Lineage

/-- Whether an item belongs to a lineage. -/
def Item.belongsTo (item : Item) (definitionId : String) (tenantId : Option String) : Bool :=
  item.definitionId = definitionId && item.tenantId = tenantId

namespace Memory

variable {m : Memory} {item row : Item} {d : String} {t : Option String}

/-! ### One lineage of a store -/

/-- The store that holds the rows of a lineage only. -/
def only (m : Memory) (definitionId : String) (tenantId : Option String) : Memory :=
  ⟨m.lineage definitionId tenantId⟩

/-- The rows outside a lineage, in the order in which they were added. -/
def outside (m : Memory) (definitionId : String) (tenantId : Option String) : List Item :=
  m.items.filter fun item => !item.belongsTo definitionId tenantId

theorem lineage_eq_filter (m : Memory) (d : String) (t : Option String) :
    m.lineage d t = m.items.filter fun item => item.belongsTo d t := rfl

theorem belongsTo_of_mem (h : row ∈ m.lineage d t) : row.belongsTo d t = true :=
  (List.mem_filter.1 h).2

theorem lineage_only (m : Memory) (d : String) (t : Option String) :
    (m.only d t).lineage d t = m.lineage d t := by
  rw [lineage_eq_filter, only, lineage_eq_filter, List.filter_filter]
  simp only [Bool.and_self]

theorem Sound.sound_only (hs : m.Sound) (d : String) (t : Option String) : (m.only d t).Sound :=
  hs.sublist List.filter_sublist

theorem hasVersion_only (m : Memory) (d : String) (t : Option String) (version : String) :
    (m.only d t).hasVersion d t version = m.hasVersion d t version := by
  rw [hasVersion, lineage_only, hasVersion]

/-! ### Writes to a row of the lineage -/

theorem only_append (m : Memory) (h : item.belongsTo d t = true) :
    only ⟨m.items ++ [item]⟩ d t = ⟨(m.only d t).items ++ [item]⟩ := by
  simp only [only, lineage_eq_filter, List.filter_append, List.filter_cons, h, if_true,
    List.filter_nil]

theorem outside_append (m : Memory) (h : item.belongsTo d t = true) :
    outside ⟨m.items ++ [item]⟩ d t = m.outside d t := by
  simp only [outside, List.filter_append, List.filter_cons, h, Bool.not_true, Bool.false_eq_true,
    if_false, List.filter_nil, List.append_nil]

/-- Where an item takes the place of a row of its lineage, every row stays in its lineage. -/
theorem Sound.belongsTo_replaced (hs : m.Sound) (hrow : row ∈ m.lineage d t)
    (hid : item.id = row.id) (h : item.belongsTo d t = true) {other : Item}
    (hother : other ∈ m.items) :
    (if other.id = item.id then item else other).belongsTo d t = other.belongsTo d t := by
  by_cases heq : other.id = item.id
  · have hsame : other = row := hs.eq_of_id hother (mem_lineage.1 hrow).1 (heq.trans hid)
    rw [if_pos heq, h, hsame, belongsTo_of_mem hrow]
  · rw [if_neg heq]

theorem Sound.only_put (hs : m.Sound) (hrow : row ∈ m.lineage d t) (hid : item.id = row.id)
    (h : item.belongsTo d t = true) : (m.put item).only d t = (m.only d t).put item := by
  simp only [Memory.only, lineage_eq_filter, Memory.put, List.filter_map]
  congr 2
  refine List.filter_congr fun other hother => ?_
  exact hs.belongsTo_replaced hrow hid h hother

theorem Sound.outside_put (hs : m.Sound) (hrow : row ∈ m.lineage d t) (hid : item.id = row.id)
    (h : item.belongsTo d t = true) : (m.put item).outside d t = m.outside d t := by
  have hkept : (m.put item).outside d t =
      (m.outside d t).map fun other => if other.id = item.id then item else other := by
    simp only [Memory.outside, Memory.put, List.filter_map]
    congr 1
    refine List.filter_congr fun other hother => ?_
    exact congrArg not (hs.belongsTo_replaced hrow hid h hother)
  have hself : ∀ other ∈ m.outside d t, (if other.id = item.id then item else other) = other := by
    intro other hother
    obtain ⟨hmem, hout⟩ := List.mem_filter.1 hother
    refine if_neg fun heq => ?_
    -- The row with the id of the item is in the lineage.
    rw [hs.eq_of_id hmem (mem_lineage.1 hrow).1 (heq.trans hid), belongsTo_of_mem hrow] at hout
    cases hout
  rw [hkept, List.map_congr_left hself, List.map_id']

end Memory

/-! ### What a call may decide -/

/-- What a persist call may decide on: an answer, the addition of what the submission says, or the
rewriting of a row in its scope. -/
inductive Service.Decides (s : Submission) (definitionId initial : String) (rows : List Item) :
    Except ServiceError Item ⊕ Write → Prop where
  | answer (result : Except ServiceError Item) : Decides s definitionId initial rows (.inl result)
  | add (version : String) : Decides s definitionId initial rows
      (.inr (.insert { s.toCandidate definitionId initial with version := version }))
  | rewrite (row : Item) (version : String) (inScope : row ∈ rows) :
      Decides s definitionId initial rows
        (.inr (.update { (s.toCandidate definitionId initial).applyTo row with version := version }))

namespace Service

variable {service : Service} {mode : Mode} {s : Submission} {d : String} {rows : List Item}
  {row latest : Item}

/-- A plan for a changed row adds a row or rewrites the matched or the latest row. -/
theorem decides_planned (hrow : row ∈ rows) (hlatest : latest ∈ rows) (initial : String) :
    Decides s d initial rows
      (service.planned mode ⟨some row, some latest, s.toCandidate d initial, s.version⟩) := by
  let c : WriteContext := ⟨some row, some latest, s.toCandidate d initial, s.version⟩
  have hauto : ∀ field, c.plan service.incrementer mode = c.autoIncrement service.incrementer field →
      Decides s d initial rows (service.planned mode c) := by
    intro field hplan
    rw [planned, hplan]
    dsimp only [c, WriteContext.autoIncrement]
    cases service.incrementer latest.version field with
    | ok version => exact .add version
    | error cause => exact .answer _
  cases mode with
  | overwrite => exact .rewrite row _ hrow
  | overwriteLatest => exact .rewrite latest latest.version hlatest
  | manual => exact .answer _
  | autoIncrementMajor => exact hauto .major rfl
  | autoIncrementMinor => exact hauto .minor rfl

/-- In every mode a call decides on an answer, on an addition, or on the rewriting of a row in its
scope, whatever its comparator and its incrementer. -/
theorem decides_decision (service : Service) (mode : Mode) (s : Submission) (d : String)
    (rows : List Item) :
    Decides s d service.config.initialVersion rows (service.decision mode s d rows) := by
  cases hmatched : s.matched rows with
  | none =>
    rw [decision_of_unmatched hmatched]
    exact .add _
  | some row =>
    cases hsame : service.comparator row (s.toCandidate d service.config.initialVersion) with
    | true =>
      rw [decision_of_unchanged hmatched hsame]
      exact .answer _
    | false =>
      obtain ⟨latest, hlatest, hdecision⟩ := decision_of_changed service mode d hmatched hsame
      rw [hdecision]
      exact decides_planned (Submission.mem_of_matched hmatched) (isLatest_of_latestOf hlatest).mem _

end Service

/-! ### Calls on one lineage -/

namespace Memory

variable {m : Memory} {stamp : Stamp} {s : Submission} {d : String} {row : Item}

theorem belongsTo_addedRow (s : Submission) (stamp : Stamp) (d version : String) :
    (s.addedRow stamp d version).belongsTo d (normalizeTenant s.tenantId) = true := by
  simp [Item.belongsTo, Submission.addedRow]

theorem belongsTo_rewrittenRow (hrow : row ∈ m.lineage d (normalizeTenant s.tenantId))
    (stamp : Stamp) (version : String) :
    (s.rewrittenRow stamp row version).belongsTo d (normalizeTenant s.tenantId) = true := by
  obtain ⟨-, hd, ht⟩ := mem_lineage.1 hrow
  simp [Item.belongsTo, Submission.rewrittenRow, hd, ht]

theorem scope_only (m : Memory) (s : Submission) (mode : Mode) (d : String) :
    s.scope mode d (m.only d (normalizeTenant s.tenantId)) = s.scope mode d m := by
  rw [Submission.scope, lineage_only, Submission.scope]

/-- Carrying a decision out on the lineage alone gives the same result and the same lineage, and the
rows outside the lineage stay as they are. -/
theorem Sound.carryOut_only (hs : m.Sound) {initial : String} {mode : Mode}
    {decision : Except ServiceError Item ⊕ Write}
    (decides : Service.Decides s d initial (s.scope mode d m) decision) :
    carryOut backend stamp (m.only d (normalizeTenant s.tenantId)) decision =
        ((carryOut backend stamp m decision).1,
          (carryOut backend stamp m decision).2.only d (normalizeTenant s.tenantId)) ∧
      (carryOut backend stamp m decision).2.outside d (normalizeTenant s.tenantId) =
        m.outside d (normalizeTenant s.tenantId) := by
  cases decides with
  | answer result => exact ⟨rfl, rfl⟩
  | add version =>
    have hadded := belongsTo_addedRow s stamp d version
    rw [carryOut_insert_eq, carryOut_insert_eq, hasVersion_only]
    split
    · exact ⟨rfl, rfl⟩
    · exact ⟨congrArg _ (only_append m hadded).symm, outside_append m hadded⟩
  | rewrite row version inScope =>
    have hrow := mem_lineage_of_scope inScope
    have hrow' : row ∈ (m.only d (normalizeTenant s.tenantId)).lineage d
        (normalizeTenant s.tenantId) := by
      rwa [lineage_only]
    have hwritten := belongsTo_rewrittenRow hrow stamp version
    have honly : (m.put (s.rewrittenRow stamp row version)).only d (normalizeTenant s.tenantId) =
        (m.only d (normalizeTenant s.tenantId)).put (s.rewrittenRow stamp row version) :=
      hs.only_put hrow rfl hwritten
    have hs' := hs.sound_only d (normalizeTenant s.tenantId)
    rw [hs.carryOut_update_eq initial version hrow, hs'.carryOut_update_eq initial version hrow',
      lineage_only]
    split
    · exact ⟨rfl, rfl⟩
    · exact ⟨congrArg (Prod.mk _) honly.symm, hs.outside_put hrow rfl hwritten⟩

/-- A persist call on the lineage of its submission alone has the same result and leaves the same
lineage as on the whole store, where it leaves the other rows as they are. -/
theorem Sound.effect_persist_only (hs : m.Sound) (service : Service) (chosen : Option Mode)
    (hid : s.resolvedId = some d) (stamp : Stamp) :
    (service.persist chosen s).effect backend stamp (m.only d (normalizeTenant s.tenantId)) =
        (((service.persist chosen s).effect backend stamp m).1,
          ((service.persist chosen s).effect backend stamp m).2.only d
            (normalizeTenant s.tenantId)) ∧
      ((service.persist chosen s).effect backend stamp m).2.outside d (normalizeTenant s.tenantId) =
        m.outside d (normalizeTenant s.tenantId) := by
  rw [effect_persist_of_resolved lists rfl hid, effect_persist_of_resolved lists rfl hid]
  dsimp only [id]
  rw [scope_only]
  exact hs.carryOut_only (service.decides_decision _ s d _)

end Memory

/-- Lineages are isolated from each other. Take two reachable stores with the same rows, in the same
order, in the lineage that a submission resolves to, and any rows besides. With the same fresh id
and time, the same persist call has the same result on both and leaves the same lineage on both; and
it leaves every row outside the lineage of either store as it is. -/
theorem persist_isolated {m₁ m₂ : Memory} (h₁ : m₁.Reachable) (h₂ : m₂.Reachable)
    (service : Service) (chosen : Option Mode) (s : Submission) (stamp : Stamp) {d : String}
    {t : Option String} (hid : s.resolvedId = some d) (htenant : normalizeTenant s.tenantId = t)
    (hsame : m₁.lineage d t = m₂.lineage d t) :
    let after₁ := (service.persist chosen s).effect Memory.backend stamp m₁
    let after₂ := (service.persist chosen s).effect Memory.backend stamp m₂
    after₁.1 = after₂.1 ∧ after₁.2.lineage d t = after₂.2.lineage d t ∧
      after₁.2.outside d t = m₁.outside d t ∧ after₂.2.outside d t = m₂.outside d t := by
  intro after₁ after₂
  subst htenant
  obtain ⟨honly₁, houtside₁⟩ := h₁.sound.effect_persist_only service chosen hid stamp
  obtain ⟨honly₂, houtside₂⟩ := h₂.sound.effect_persist_only service chosen hid stamp
  have halike : m₁.only d (normalizeTenant s.tenantId) = m₂.only d (normalizeTenant s.tenantId) :=
    congrArg Memory.mk hsame
  rw [halike, honly₂, Prod.mk.injEq] at honly₁
  refine ⟨honly₁.1.symm, ?_, houtside₁, houtside₂⟩
  exact congrArg Memory.items honly₁.2.symm

/-- A store with version 1 of a definition and, under the id 2, a version 5 that a tenant has. -/
def Memory.withTenant (tenantId : String) : Memory :=
  (Memory.backend ⟨⟨2⟩, 20⟩ (.addItem ⟨"order", some tenantId, "5", none, none, .bool false⟩)
    (Memory.backend ⟨⟨1⟩, 10⟩ (.addItem ⟨"order", none, "1", none, none, .bool true⟩) .empty).2).2

theorem Memory.reachable_withTenant (tenantId : String) : (withTenant tenantId).Reachable :=
  .step _ _ (.step _ _ .empty fun _ _ => rfl) fun _ _ => rfl

/-- Overwriting under a blank tenant, with the id and the version of a row that a tenant has, adds
the version to the lineage without a tenant, whichever tenant has the row. -/
theorem persist_isolated_foreign_id :
    let call := Service.persist {} (some .overwrite)
      ⟨some ⟨2⟩, some "order", some " ", some "5", none, none, .null⟩
    let after₁ := call.effect Memory.backend ⟨⟨3⟩, 30⟩ (.withTenant "acme")
    let after₂ := call.effect Memory.backend ⟨⟨3⟩, 30⟩ (.withTenant "globex")
    after₁.1 = .ok ⟨⟨3⟩, "order", none, "5", none, none, .null, 30, 30⟩ ∧
      after₁.1 = after₂.1 ∧ after₁.2.lineage "order" none = after₂.2.lineage "order" none ∧
      after₁.2.outside "order" none = (Memory.withTenant "acme").outside "order" none ∧
      after₂.2.outside "order" none = (Memory.withTenant "globex").outside "order" none :=
  ⟨(congrArg Prod.fst (Memory.effect_persist_eq_transition (Memory.reachable_withTenant "acme") {}
      (some .overwrite) _ _)).trans (by rfl),
    persist_isolated (Memory.reachable_withTenant "acme") (Memory.reachable_withTenant "globex") {}
      (some .overwrite) _ _ rfl (by decide) (by rfl)⟩

end Lineage
