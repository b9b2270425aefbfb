/-
Persist calls over a store that others write to.

Between two requests of a call the store may grow: rows are added, and rows are rewritten under their
keys. `Sanctioned` says of a dialogue that whatever it still asks of a store that grows is allowed:
it reads, and at most once it adds a row or rewrites a row that is there under its own key, after
which it ends in the answer. `sanctioned_persist` says it of every persist call.
-/

import Lineage.Proofs.Service.Effect
import Lineage.Proofs.Version.Growth

namespace Lineage

/-! ### Stores that grow -/

namespace Memory

/-- Every row stays, with its id, its key and its creation time. -/
def Grows (m m' : Memory) : Prop :=
  ∀ row ∈ m.items, ∃ row' ∈ m'.items,
    row'.id = row.id ∧ row'.key = row.key ∧ row'.createdAt = row.createdAt

/-- A sound store in which no version is empty. -/
structure Versioned (m : Memory) : Prop where
  sound : m.Sound
  version_ne : ∀ row ∈ m.items, row.version ≠ ""

variable {m m' m'' : Memory} {item row : Item} {now : Int64}

theorem Grows.refl (m : Memory) : m.Grows m := fun row h => ⟨row, h, rfl, rfl, rfl⟩

theorem Grows.trans (h : m.Grows m') (h' : m'.Grows m'') : m.Grows m'' := by
  intro row hrow
  obtain ⟨row', hrow', hid, hkey, htime⟩ := h row hrow
  obtain ⟨row'', hrow'', hid', hkey', htime'⟩ := h' row' hrow'
  exact ⟨row'', hrow'', hid'.trans hid, hkey'.trans hkey, htime'.trans htime⟩

/-- A row of the store has the id and the key of an item. -/
def Holds (m : Memory) (item : Item) : Prop :=
  ∃ row ∈ m.items, row.id = item.id ∧ row.key = item.key

theorem holds_of_mem (h : item ∈ m.items) : m.Holds item :=
  ⟨item, h, rfl, rfl⟩

theorem Holds.mono (h : m.Holds item) (grows : m.Grows m') : m'.Holds item := by
  obtain ⟨row, hrow, hid, hkey⟩ := h
  obtain ⟨row', hrow', hid', hkey', -⟩ := grows row hrow
  exact ⟨row', hrow', hid'.trans hid, hkey'.trans hkey⟩

theorem grows_append (m : Memory) (item : Item) : m.Grows ⟨m.items ++ [item]⟩ := fun row h =>
  ⟨row, List.mem_append_left _ h, rfl, rfl, rfl⟩

/-- An update of a row under its own key succeeds. -/
theorem Sound.update_of_holds (hs : m.Sound) (now : Int64) (hrow : row ∈ m.items)
    (hid : row.id = item.id) (hkey : row.key = item.key) :
    m.update now item = (.ok (item.replacing row now), m.put (item.replacing row now)) ∧
      (item.replacing row now).key = row.key := by
  have hstored : m.items.find? (·.id = item.id) = some row := by
    rw [← hid]
    exact hs.find?_id hrow
  have hreplaced : (item.replacing row now).key = row.key := by
    simp only [Item.key, Prod.mk.injEq, Item.replacing] at hkey ⊢
    refine ⟨hkey.1.symm, ?_, hkey.2.2.symm⟩
    rw [← hkey.2.1, hs.tenants row hrow]
  refine ⟨update_of_free hstored fun other ho hne hsame => hne ?_, hreplaced⟩
  rw [← hid, hs.eq_of_key ho hrow (hsame.trans hreplaced)]

theorem Sound.put_self (hs : m.Sound) (hrow : row ∈ m.items) (hid : item.id = row.id)
    (hkey : item.key = row.key) : (m.put item).Sound := by
  refine hs.put (fun other ho hne hsame => hne ?_) ?_
  · rw [hid, hs.eq_of_key ho hrow (hsame.trans hkey)]
  · have htenant : item.tenantId = row.tenantId := congrArg (·.2.1) hkey
    rw [htenant, hs.tenants row hrow]

/-- Rewriting a row under its own key lets the store grow. -/
theorem Sound.grows_put (hs : m.Sound) (hrow : row ∈ m.items) (hid : item.id = row.id)
    (hkey : item.key = row.key) (htime : item.createdAt = row.createdAt) : m.Grows (m.put item) := by
  intro other ho
  have hhas : m.has item.id = true := by
    simp only [has, List.any_eq_true, decide_eq_true_eq]
    exact ⟨row, hrow, hid.symm⟩
  by_cases hother : other.id = item.id
  · have hsame : other = row := hs.eq_of_id ho hrow (hother.trans hid)
    refine ⟨item, (mem_put hhas).2 (.inl rfl), ?_⟩
    rw [hsame]
    exact ⟨hid, hkey, htime⟩
  · exact ⟨other, (mem_put hhas).2 (.inr ⟨ho, hother⟩), rfl, rfl, rfl⟩

end Memory

/-! ### Sanctioned dialogues -/

/-- What a submission says besides its lineage and its version. -/
def Submission.content (s : Submission) : Option String × Option String × Json :=
  (s.name, s.purpose, s.payload)

/-- What a candidate says besides its lineage and its version. -/
def Candidate.content (c : Candidate) : Option String × Option String × Json :=
  (c.name, c.purpose, c.payload)

/-- What an item says besides its lineage and its version. -/
def Item.content (item : Item) : Option String × Option String × Json :=
  (item.name, item.purpose, item.payload)

/-- The modes that may change a row that is there. -/
def Mode.overwrites (mode : Mode) : Prop :=
  mode = .overwrite ∨ mode = .overwriteLatest

namespace Dialogue

/-- The result of a dialogue that asks for nothing more. -/
def verdict {α : Type} : Dialogue α → Option α
  | .done result => some result
  | .note _ next => next.verdict
  | .ask _ _ => none

/-- Whatever a dialogue still asks of a store that grows is allowed to a submission in a mode. -/
def Sanctioned (mode : Mode) (s : Submission) : Service.Call Item → Memory → Prop
  | .done _, _ => True
  | .note _ next, m => next.Sanctioned mode s m
  | .ask (.getItems filter) next, m => ∀ m' : Memory, m'.Versioned → m.Grows m' →
      (next (.ok (m'.list filter))).Sanctioned mode s m'
  | .ask (.addItem c) next, _ => c.content = s.content ∧ c.version ≠ "" ∧
      ∀ answer, (next answer).verdict = some (answer.mapError .store)
  | .ask (.updateItem item) next, m => item.content = s.content ∧ mode.overwrites ∧ m.Holds item ∧
      ∀ answer, (next answer).verdict = some (answer.mapError .store)
  | .ask _ _, _ => False

variable {mode : Mode} {s : Submission} {m m' : Memory}

theorem Sanctioned.mono {call : Service.Call Item} (h : call.Sanctioned mode s m)
    (grows : m.Grows m') : call.Sanctioned mode s m' := by
  induction call with
  | done result => trivial
  | note event next ih => exact ih h
  | ask request next _ =>
    cases request with
    | getItems filter => exact fun m'' versioned grows' => h m'' versioned (grows.trans grows')
    | addItem c => exact h
    | updateItem item =>
      obtain ⟨hcontent, hmode, hholds, hend⟩ := h
      exact ⟨hcontent, hmode, hholds.mono grows, hend⟩
    | _ => exact h

end Dialogue

/-! ### Persist calls are sanctioned -/

/-- A call that makes no empty version: neither the configuration nor the submission has one, and no
increment gives one. -/
structure Service.MakesVersions (service : Service) (s : Submission) : Prop where
  initial : service.config.initialVersion ≠ ""
  explicit : s.version ≠ some ""
  increment : ∀ version field next, service.incrementer version field = .ok next → next ≠ ""

/-- A row that was looked up for a candidate, and is still there. -/
structure Candidate.Found (c : Candidate) (m : Memory) (row : Item) : Prop where
  holds : m.Holds row
  definitionId : row.definitionId = c.definitionId
  tenantId : row.tenantId = c.tenantId
  version_ne : row.version ≠ ""

/-- A context whose rows were looked up for its candidate, and are still there. -/
structure WriteContext.Current (c : WriteContext) (m : Memory) : Prop where
  existing : ∀ row, c.existing = some row → c.candidate.Found m row
  latest : ∀ row, c.latest = some row → c.candidate.Found m row
  explicit : ∀ row version, c.existing = some row → c.explicitVersion = some version →
    row.version = version

section Persist

variable {service : Service} {mode : Mode} {s : Submission} {m : Memory} {c : WriteContext}

theorem Candidate.Found.mono {c : Candidate} {row : Item} {m' : Memory} (h : c.Found m row)
    (grows : m.Grows m') : c.Found m' row :=
  { h with holds := h.holds.mono grows }

theorem verdict_written (action definitionId : String) (answer : Except StoreError Item) :
    (Service.written mode action definitionId answer).verdict = some (answer.mapError .store) := by
  cases answer <;> rfl

/-- A row that was looked up is rewritten under its key when it takes what a candidate says. -/
theorem Candidate.Found.holds_applyTo {c : Candidate} {row : Item} (h : c.Found m row) :
    m.Holds (c.applyTo row) := by
  obtain ⟨stored, hstored, hid, hkey⟩ := h.holds
  refine ⟨stored, hstored, hid, hkey.trans ?_⟩
  simp only [Item.key, Candidate.applyTo, h.definitionId, h.tenantId]

theorem WriteContext.Current.overwrittenVersion_eq (h : c.Current m) {row : Item}
    (hrow : c.existing = some row) :
    WriteContext.overwrittenVersion row c.explicitVersion = row.version := by
  cases hversion : c.explicitVersion with
  | none => exact if_neg (h.existing row hrow).version_ne
  | some version => exact (h.explicit row version hrow hversion).symm

theorem sanctioned_insert {candidate : Candidate} (definitionId : String)
    (hcontent : candidate.content = s.content) (hversion : candidate.version ≠ "") :
    (Service.write mode definitionId (.insert candidate)).Sanctioned mode s m :=
  ⟨hcontent, hversion, verdict_written _ definitionId⟩

theorem sanctioned_update {item : Item} (definitionId : String) (hmode : mode.overwrites)
    (hcontent : item.content = s.content) (hholds : m.Holds item) :
    (Service.write mode definitionId (.update item)).Sanctioned mode s m :=
  ⟨hcontent, hmode, hholds, verdict_written _ definitionId⟩

theorem sanctioned_autoIncrement (makes : service.MakesVersions s)
    (hcontent : c.candidate.content = s.content) (hversion : c.candidate.version ≠ "")
    (field : ReleaseField) {planned : Write}
    (h : c.autoIncrement service.incrementer field = .ok planned) (definitionId : String) :
    (Service.write mode definitionId planned).Sanctioned mode s m := by
  unfold WriteContext.autoIncrement at h
  split at h
  · next latest _ =>
    split at h
    · next next hnext =>
      cases h
      exact sanctioned_insert definitionId hcontent (makes.increment _ field next hnext)
    · cases h
  · cases h
    exact sanctioned_insert definitionId hcontent hversion

/-- The write that is planned from rows that are still there is allowed. -/
theorem sanctioned_planned (makes : service.MakesVersions s) (current : c.Current m)
    (hcontent : c.candidate.content = s.content) (hversion : c.candidate.version ≠ "")
    {planned : Write} (h : c.plan service.incrementer mode = .ok planned) (definitionId : String) :
    (Service.write mode definitionId planned).Sanctioned mode s m := by
  cases mode with
  | overwrite =>
    cases Except.ok.inj h
    unfold WriteContext.overwrite
    split
    · next row hrow =>
      rw [current.overwrittenVersion_eq hrow]
      exact sanctioned_update definitionId (.inl rfl) hcontent
        (current.existing row hrow).holds_applyTo
    · exact sanctioned_insert definitionId hcontent hversion
  | overwriteLatest =>
    cases Except.ok.inj h
    unfold WriteContext.overwriteLatest
    split
    · next row hrow =>
      exact sanctioned_update definitionId (.inr rfl) hcontent
        (current.latest row hrow).holds_applyTo
    · exact sanctioned_insert definitionId hcontent hversion
  | manual =>
    change c.manual = .ok planned at h
    unfold WriteContext.manual at h
    split at h
    · cases h
    · cases Except.ok.inj h
      exact sanctioned_insert definitionId hcontent hversion
  | autoIncrementMajor => exact sanctioned_autoIncrement makes hcontent hversion .major h definitionId
  | autoIncrementMinor => exact sanctioned_autoIncrement makes hcontent hversion .minor h definitionId

theorem sanctioned_reconcile (makes : service.MakesVersions s) (current : c.Current m)
    (hcontent : c.candidate.content = s.content) (hversion : c.candidate.version ≠ "") :
    (service.reconcile mode c).Sanctioned mode s m := by
  unfold Service.reconcile
  split
  · trivial
  · split
    · next planned hplan =>
      exact sanctioned_planned makes current hcontent hversion hplan c.candidate.definitionId
    · trivial

/-- A lookup is sanctioned if what follows it is, whatever the lookup finds in a store that has
grown. -/
theorem sanctioned_latestIn {clause : Clause} {tenantId : Option String}
    {next : Option Item → Service.Call Item}
    (h : ∀ m', m'.Versioned → m.Grows m' → ∀ found : Option Item,
      (∀ row, found = some row →
        row ∈ m'.items ∧ clause.holds row = true ∧ row.tenantId = tenantId) →
      (next found).Sanctioned mode s m') :
    (Service.latestIn clause tenantId next).Sanctioned mode s m := by
  intro m' versioned grows
  refine h m' versioned grows _ fun row hrow => ?_
  have hmem := List.mem_of_find?_eq_some hrow
  rw [Memory.list, mem_sortItems, List.mem_filter] at hmem
  refine ⟨hmem.1, ?_, by simpa using List.find?_some hrow⟩
  simpa [Filter.holds, Filter.single] using hmem.2

theorem Clause.definitionId_of_holds {clause : Clause} {row : Item} {definitionId : String}
    (h : clause.holds row = true) (hkey : clause.definitionId = some definitionId) :
    row.definitionId = definitionId := by
  simp only [Clause.holds, Clause.keyMatches, Bool.and_eq_true, hkey, Option.all_some,
    decide_eq_true_eq] at h
  exact h.1.1.2.symm

theorem Clause.version_of_holds {clause : Clause} {row : Item} {version : String}
    (h : clause.holds row = true) (hkey : clause.version = some version) :
    row.version = version := by
  simp only [Clause.holds, Clause.keyMatches, Bool.and_eq_true, hkey, Option.all_some,
    decide_eq_true_eq] at h
  exact h.2.symm

theorem sanctioned_persistAs (makes : service.MakesVersions s) (definitionId : String) :
    (service.persistAs mode s definitionId).Sanctioned mode s m := by
  have hversion : (s.toCandidate definitionId service.config.initialVersion).version ≠ "" := by
    have hexplicit := makes.explicit
    simp only [Submission.toCandidate]
    cases hs : s.version with
    | none => exact makes.initial
    | some version =>
      rintro rfl
      exact hexplicit hs
  unfold Service.persistAs
  refine sanctioned_latestIn fun m₁ versioned₁ _ existing hexisting => ?_
  have hfound : ∀ row, existing = some row →
      (s.toCandidate definitionId service.config.initialVersion).Found m₁ row := by
    intro row hrow
    obtain ⟨hmem, hclause, htenant⟩ := hexisting row hrow
    refine ⟨Memory.holds_of_mem hmem, ?_, htenant, versioned₁.version_ne row hmem⟩
    exact Clause.definitionId_of_holds hclause rfl
  have hexplicit : ∀ row version, existing = some row → s.version = some version →
      row.version = version := by
    intro row version hrow hs
    obtain ⟨-, hclause, -⟩ := hexisting row hrow
    exact Clause.version_of_holds hclause hs
  split
  · next row version hs =>
    -- The latest row is looked up in a store that may have grown since.
    refine sanctioned_latestIn fun m₂ versioned₂ grows latest hlatest => ?_
    refine sanctioned_reconcile makes ⟨?_, ?_, ?_⟩ rfl hversion
    · exact fun found hrow => (hfound found hrow).mono grows
    · intro found hrow
      cases latest with
      | none =>
        cases Option.some.inj hrow
        exact (hfound row rfl).mono grows
      | some top =>
        cases Option.some.inj hrow
        obtain ⟨hmem, hclause, htenant⟩ := hlatest top rfl
        refine ⟨Memory.holds_of_mem hmem, ?_, htenant, versioned₂.version_ne top hmem⟩
        exact Clause.definitionId_of_holds hclause rfl
    · exact hexplicit
  · exact sanctioned_reconcile makes ⟨hfound, hfound, hexplicit⟩ rfl hversion

/-- Every persist call is sanctioned, whatever store it is begun at. -/
theorem sanctioned_persist (makes : service.MakesVersions s) (chosen : Option Mode) :
    (service.persist chosen s).Sanctioned (chosen.getD service.config.defaultMode) s m := by
  unfold Service.persist
  split
  · trivial
  · next definitionId _ => exact sanctioned_persistAs makes definitionId

end Persist

end Lineage
