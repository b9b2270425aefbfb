/-
What a persist call asks of its store, whatever the store answers.

`Dialogue.Path` has a way through a call for each sequence of answers, so what holds of every path
holds of every store, also of one that answers nonsense or fails at any request; `path_run` says that
each backend takes one of the paths. `path_persistAs` says once what a path can be: lookups, of which
the last one may fail, and then the end that `Service.Concludes` describes. `disciplined_persistByName`
reads the rules for lookups, writes and failures off that.
-/

import Lineage.Service

namespace Lineage

/-! ### Answered requests -/

/-- A request with its answer. -/
abbrev Answered := (r : Request) × r.Answer

namespace Answered

/-- Whether a request looked for items. -/
def isLookup : Answered → Bool
  | ⟨.getItems _, _⟩ => true
  | _ => false

/-- Whether a request was to add or to change an item. -/
def isWrite (call : Answered) : Bool :=
  call.1.isWrite

/-- The items that a lookup has found. -/
def found? : Answered → Option (List Item)
  | ⟨.getItems _, .ok items⟩ => some items
  | _ => none

/-- The cause for which a request has failed. -/
def fault? : Answered → Option StoreError
  | ⟨_, .ok _⟩ => none
  | ⟨_, .error cause⟩ => some cause

/-- A lookup with a filter that has found items. -/
def ofFound (lookup : Filter × List Item) : Answered :=
  ⟨.getItems lookup.1, .ok lookup.2⟩

variable {call : Answered} {cause : StoreError}

theorem found?_eq_none_of_fault? (h : call.fault? = some cause) : call.found? = none := by
  obtain ⟨request, answer⟩ := call
  cases answer with
  | ok value => cases h
  | error fault => cases request <;> rfl

theorem found?_eq_none_of_isWrite (h : call.isWrite = true) : call.found? = none := by
  obtain ⟨request, answer⟩ := call
  cases request with
  | addItem candidate => rfl
  | updateItem item => rfl
  | hasItem | hasItems | getItem | getItems | deleteItem | deleteItems => cases h

/-- A request that has found nothing is none of the lookups that have succeeded. -/
theorem not_mem_ofFound (h : call.found? = none) (lookups : List (Filter × List Item)) :
    call ∉ lookups.map ofFound := by
  intro hcall
  obtain ⟨lookup, -, rfl⟩ := List.mem_map.1 hcall
  cases h

end Answered

namespace Dialogue

variable {σ α : Type} {calls : List Answered} {result : α}

/-- The requests that a dialogue makes of a backend, with their answers. -/
def answered (backend : Backend σ) (stamp : Stamp) : Dialogue α → σ → List Answered
  | .done _, _ => []
  | .ask request next, s =>
    let (answer, s) := backend stamp request s
    ⟨request, answer⟩ :: (next answer).answered backend stamp s
  | .note _ next, s => next.answered backend stamp s

/-- Held with a backend, a dialogue takes one of its paths. -/
theorem path_run (backend : Backend σ) (stamp : Stamp) (d : Dialogue α) (s : σ) :
    d.Path (d.answered backend stamp s) (d.run backend stamp s).result := by
  induction d generalizing s with
  | done result => exact .done result
  | ask request next ih => exact .ask _ (ih _ _)
  | note event next ih => exact .note (ih s)

theorem path_done {last : α} (path : (done last).Path calls result) :
    calls = [] ∧ result = last := by
  cases path
  exact ⟨rfl, rfl⟩

theorem path_note {event : Event} {next : Dialogue α} (path : (note event next).Path calls result) :
    next.Path calls result := by
  cases path with
  | note rest => exact rest

theorem path_ask {request : Request} {next : request.Answer → Dialogue α}
    (path : (ask request next).Path calls result) :
    ∃ answer rest, calls = ⟨request, answer⟩ :: rest ∧ (next answer).Path rest result := by
  cases path with
  | ask answer rest => exact ⟨answer, _, rfl, rest⟩

end Dialogue

/-! ### Ways through a persist call -/

/-- The item that a submission takes from those that a lookup has found: the first one of its
tenant. -/
def Submission.pick (s : Submission) (items : List Item) : Option Item :=
  items.find? (·.tenantId = normalizeTenant s.tenantId)

/-- A write as a request with its answer. -/
def Write.answered : Write → Except StoreError Item → Answered
  | .insert candidate, answer => ⟨.addItem candidate, answer⟩
  | .update item, answer => ⟨.updateItem item, answer⟩

@[simp] theorem Write.isWrite_answered (planned : Write) (answer : Except StoreError Item) :
    (planned.answered answer).isWrite = true := by
  cases planned <;> rfl

theorem Write.eq_error_of_fault? {planned : Write} {answer : Except StoreError Item}
    {cause : StoreError} (h : (planned.answered answer).fault? = some cause) :
    answer = .error cause := by
  cases answer with
  | ok item => cases planned <;> cases h
  | error fault => cases planned <;> cases h <;> rfl

namespace Service

/-- What a persist call goes by after its lookups. The first one is for the row that the submission
matches; the second one, if there is one, is for the latest row. -/
def contextAfter (service : Service) (s : Submission) (definitionId : String)
    (calls : List Answered) : WriteContext :=
  let found := calls.filterMap Answered.found?
  let existing := found[0]?.bind s.pick
  { existing := existing
    latest := (found[1]?.bind s.pick).or existing
    candidate := s.toCandidate definitionId service.config.initialVersion
    explicitVersion := s.version }

/-- How a persist call ends after its lookups: without a write, or with one and its answer. -/
inductive Concludes (service : Service) (mode : Mode) (c : WriteContext) :
    List Answered → Except ServiceError Item → Prop where
  | unchanged {row : Item} (matched : c.existing = some row)
      (same : service.comparator row c.candidate = true) : Concludes service mode c [] (.ok row)
  | rejected {cause : Rejection}
      (changed : c.existing.filter (service.comparator · c.candidate) = none)
      (plan : c.plan service.incrementer mode = .error cause) :
      Concludes service mode c [] (.error (.ofRejection cause))
  | written {planned : Write}
      (changed : c.existing.filter (service.comparator · c.candidate) = none)
      (plan : c.plan service.incrementer mode = .ok planned) (answer : Except StoreError Item) :
      Concludes service mode c [planned.answered answer] (answer.mapError .store)

variable {service : Service} {mode : Mode} {s : Submission} {d : String} {c : WriteContext}
  {calls : List Answered} {result : Except ServiceError Item}

theorem path_written {action : String} {answer : Except StoreError Item}
    (path : (written mode action d answer).Path calls result) :
    calls = [] ∧ result = answer.mapError .store := by
  cases answer with
  | ok item => exact Dialogue.path_done (Dialogue.path_note path)
  | error cause => exact Dialogue.path_done (Dialogue.path_note path)

theorem path_write {planned : Write} (path : (write mode d planned).Path calls result) :
    ∃ answer : Except StoreError Item, calls = [planned.answered answer] ∧
      result = answer.mapError .store := by
  cases planned with
  | insert candidate =>
    obtain ⟨answer, rest, rfl, hrest⟩ := Dialogue.path_ask path
    obtain ⟨rfl, rfl⟩ := path_written hrest
    exact ⟨answer, rfl, rfl⟩
  | update item =>
    obtain ⟨answer, rest, rfl, hrest⟩ := Dialogue.path_ask path
    obtain ⟨rfl, rfl⟩ := path_written hrest
    exact ⟨answer, rfl, rfl⟩

/-- After its lookups a persist call can only end so. -/
theorem path_reconcile (path : (service.reconcile mode c).Path calls result) :
    service.Concludes mode c calls result := by
  unfold reconcile at path
  split at path
  · next row hrow =>
    obtain ⟨rfl, rfl⟩ := Dialogue.path_done (Dialogue.path_note path)
    obtain ⟨hmatched, hsame⟩ := Option.filter_eq_some_iff.1 hrow
    exact .unchanged hmatched hsame
  · next hchanged =>
    split at path
    · next planned hplan =>
      obtain ⟨answer, rfl, rfl⟩ := path_write path
      exact .written hchanged hplan answer
    · next cause hplan =>
      obtain ⟨rfl, rfl⟩ := Dialogue.path_done (Dialogue.path_note path)
      exact .rejected hchanged hplan

/-- A lookup fails and ends the call, or the call goes on with what it has found. -/
theorem path_latestIn {α : Type} {result : Except ServiceError α} {clause : Clause}
    {next : Option Item → Call α}
    (path : (latestIn clause (normalizeTenant s.tenantId) next).Path calls result) :
    (∃ cause, calls = [⟨.getItems (.single clause), .error cause⟩] ∧
        result = .error (.store cause)) ∨
      ∃ items rest, calls = ⟨.getItems (.single clause), .ok items⟩ :: rest ∧
        (next (s.pick items)).Path rest result := by
  obtain ⟨answer, rest, rfl, hrest⟩ := Dialogue.path_ask path
  cases answer with
  | error cause =>
    obtain ⟨rfl, rfl⟩ := Dialogue.path_done hrest
    exact .inl ⟨cause, rfl, rfl⟩
  | ok items => exact .inr ⟨items, rest, rfl, hrest⟩

/-- A way through a persist call: lookups of which the last one fails, or lookups that succeed and the
end to which they lead. -/
inductive Conduct (service : Service) (mode : Mode) (s : Submission) (definitionId : String) :
    List Answered → Except ServiceError Item → Prop where
  | failed (lookups : List (Filter × List Item)) (few : lookups.length ≤ 1) (filter : Filter)
      (cause : StoreError) :
      Conduct service mode s definitionId
        (lookups.map Answered.ofFound ++ [⟨.getItems filter, .error cause⟩])
        (.error (.store cause))
  | found (lookups : List (Filter × List Item)) (few : lookups.length ≤ 2)
      {writes : List Answered} {result : Except ServiceError Item}
      (concludes : service.Concludes mode
        (service.contextAfter s definitionId (lookups.map Answered.ofFound)) writes result) :
      Conduct service mode s definitionId (lookups.map Answered.ofFound ++ writes) result

/-- What a call goes by after a second lookup: the row of the first one, and the latest row. -/
theorem contextAfter_two (service : Service) (d : String) (first second : Filter)
    {items : List Item} {row : Item} (hrow : s.pick items = some row) (others : List Item) :
    service.contextAfter s d ([(first, items), (second, others)].map Answered.ofFound) =
      ⟨s.pick items, some ((s.pick others).getD row),
        s.toCandidate d service.config.initialVersion, s.version⟩ := by
  change WriteContext.mk (s.pick items) ((s.pick others).or (s.pick items)) _ _ = _
  rw [hrow]
  cases s.pick others <;> rfl

/-- Each path of a persist call is one of these ways. -/
theorem path_persistAs (path : (service.persistAs mode s d).Path calls result) :
    service.Conduct mode s d calls result := by
  unfold persistAs at path
  rcases path_latestIn path with ⟨cause, rfl, rfl⟩ | ⟨items, rest, rfl, hrest⟩
  · exact .failed [] (Nat.zero_le 1) _ cause
  · split at hrest
    · next row _ hrow _ =>
      rcases path_latestIn hrest with ⟨cause, rfl, rfl⟩ | ⟨others, last, rfl, hlast⟩
      · exact .failed [(_, items)] (Nat.le_refl 1) _ cause
      · have hconcludes := path_reconcile hlast
        rw [← contextAfter_two service d _ _ hrow others] at hconcludes
        exact .found [(_, items), (_, others)] (Nat.le_refl 2) hconcludes
    · exact .found [(_, items)] (Nat.le_succ 1) (path_reconcile hrest)

/-! ### What every way keeps to -/

theorem Concludes.length_le (h : service.Concludes mode c calls result) : calls.length ≤ 1 := by
  cases h <;> simp

theorem Concludes.isWrite (h : service.Concludes mode c calls result) :
    ∀ call ∈ calls, call.isWrite = true := by
  cases h <;> simp

/-- A write is the one that is planned for what has changed. -/
theorem Concludes.planned_of_mem (h : service.Concludes mode c calls result) {call : Answered}
    (hcall : call ∈ calls) :
    c.existing.filter (service.comparator · c.candidate) = none ∧
      ∃ planned answer, c.plan service.incrementer mode = .ok planned ∧
        call = planned.answered answer ∧ result = answer.mapError .store := by
  cases h with
  | unchanged => cases hcall
  | rejected => cases hcall
  | written changed plan answer =>
    exact ⟨changed, _, answer, plan, List.mem_singleton.1 hcall, rfl⟩

/-- A write that fails is the last request, and its failure is the result. -/
theorem Concludes.failure (h : service.Concludes mode c calls result) {before after : List Answered}
    {call : Answered} {cause : StoreError} (hcalls : calls = before ++ call :: after)
    (hfault : call.fault? = some cause) : after = [] ∧ result = .error (.store cause) := by
  have hcall : call ∈ calls := by simp [hcalls]
  obtain ⟨-, planned, answer, -, rfl, rfl⟩ := h.planned_of_mem hcall
  have hlength := h.length_le
  rw [hcalls, List.length_append, List.length_cons] at hlength
  rw [Write.eq_error_of_fault? hfault]
  exact ⟨List.eq_nil_of_length_eq_zero (by omega), rfl⟩

/-- A request that is none of the lookups that have succeeded comes after them. -/
theorem exists_of_append_eq {lookups : List (Filter × List Item)} {rest before after : List Answered}
    {call : Answered} (h : lookups.map Answered.ofFound ++ rest = before ++ call :: after)
    (hcall : call ∉ lookups.map Answered.ofFound) : ∃ mid, rest = mid ++ call :: after := by
  rcases List.append_eq_append_iff.1 h with ⟨mid, -, hrest⟩ | ⟨mid, hlookups, hafter⟩
  · exact ⟨mid, hrest⟩
  · cases mid with
    | nil => exact ⟨[], hafter.symm⟩
    | cons first others =>
      rw [List.cons_append, List.cons.injEq] at hafter
      rw [hlookups, hafter.1] at hcall
      simp at hcall

/-- Requests that find nothing do not count for what a call goes by. -/
theorem contextAfter_append (lookups : List (Filter × List Item)) {rest : List Answered}
    (hrest : ∀ call ∈ rest, call.found? = none) :
    service.contextAfter s d (lookups.map Answered.ofFound ++ rest) =
      service.contextAfter s d (lookups.map Answered.ofFound) := by
  have hnone : rest.filterMap Answered.found? = [] := List.filterMap_eq_nil_iff.2 hrest
  simp only [contextAfter, List.filterMap_append, hnone, List.append_nil]

theorem Conduct.order (h : service.Conduct mode s d calls result) :
    ∃ lookups writes, calls = lookups ++ writes ∧ lookups.length ≤ 2 ∧
      (∀ call ∈ lookups, call.isLookup = true) ∧ writes.length ≤ 1 ∧
      ∀ call ∈ writes, call.isWrite = true := by
  have hfound : ∀ lookups : List (Filter × List Item),
      ∀ call ∈ lookups.map Answered.ofFound, call.isLookup = true := by
    intro lookups call hcall
    obtain ⟨lookup, -, rfl⟩ := List.mem_map.1 hcall
    rfl
  cases h with
  | failed lookups few filter cause =>
    refine ⟨_, [], (List.append_nil _).symm, ?_, ?_, Nat.zero_le 1, List.forall_mem_nil _⟩
    · rw [List.length_append, List.length_map]
      exact Nat.succ_le_succ few
    · exact List.forall_mem_append.2 ⟨hfound lookups, List.forall_mem_singleton.2 rfl⟩
  | found lookups few concludes =>
    refine ⟨_, _, rfl, ?_, hfound lookups, concludes.length_le, concludes.isWrite⟩
    rwa [List.length_map]

/-- A request that fails is the last one, and its failure is the result. -/
theorem Conduct.failure (h : service.Conduct mode s d calls result) {before after : List Answered}
    {call : Answered} {cause : StoreError} (hcalls : calls = before ++ call :: after)
    (hfault : call.fault? = some cause) : after = [] ∧ result = .error (.store cause) := by
  have hnot := Answered.not_mem_ofFound (Answered.found?_eq_none_of_fault? hfault)
  cases h with
  | failed lookups few filter fault =>
    obtain ⟨mid, hmid⟩ := exists_of_append_eq hcalls (hnot lookups)
    cases mid with
    | nil =>
      rw [List.nil_append, List.cons.injEq] at hmid
      obtain ⟨rfl, rfl⟩ := hmid
      cases hfault
      exact ⟨rfl, rfl⟩
    | cons first rest => simp at hmid
  | found lookups few concludes =>
    obtain ⟨mid, hmid⟩ := exists_of_append_eq hcalls (hnot lookups)
    exact concludes.failure hmid hfault

/-- A write is the one that is planned from what the lookups have found, for what has changed. -/
theorem Conduct.planned_of_isWrite (h : service.Conduct mode s d calls result) {call : Answered}
    (hcall : call ∈ calls) (hwrite : call.isWrite = true) :
    (service.contextAfter s d calls).existing.filter
        (service.comparator · (service.contextAfter s d calls).candidate) = none ∧
      ∃ planned answer, (service.contextAfter s d calls).plan service.incrementer mode = .ok planned ∧
        call = planned.answered answer ∧ result = answer.mapError .store := by
  have hnot := Answered.not_mem_ofFound (Answered.found?_eq_none_of_isWrite hwrite)
  cases h with
  | failed lookups few filter cause =>
    rcases List.mem_append.1 hcall with hlookup | hlast
    · exact absurd hlookup (hnot lookups)
    · rw [List.mem_singleton.1 hlast] at hwrite
      cases hwrite
  | found lookups few concludes =>
    rcases List.mem_append.1 hcall with hlookup | hlast
    · exact absurd hlookup (hnot lookups)
    · rw [contextAfter_append lookups fun other hother =>
        Answered.found?_eq_none_of_isWrite (concludes.isWrite other hother)]
      exact concludes.planned_of_mem hlast

end Service

/-- Only the two modes that overwrite plan a change of a row. -/
theorem WriteContext.exists_insert_of_plan {c : WriteContext} {increment : Incrementer} {mode : Mode}
    {planned : Write} (hmode : mode ≠ .overwrite) (hmode' : mode ≠ .overwriteLatest)
    (h : c.plan increment mode = .ok planned) : ∃ candidate, planned = .insert candidate := by
  have hauto : ∀ field, c.autoIncrement increment field = .ok planned →
      ∃ candidate, planned = .insert candidate := by
    intro field hplan
    unfold autoIncrement at hplan
    split at hplan
    · split at hplan
      · exact ⟨_, (Except.ok.inj hplan).symm⟩
      · cases hplan
    · exact ⟨_, (Except.ok.inj hplan).symm⟩
  cases mode with
  | overwrite => exact absurd rfl hmode
  | overwriteLatest => exact absurd rfl hmode'
  | manual =>
    change c.manual = .ok planned at h
    unfold manual at h
    split at h
    · cases h
    · exact ⟨_, (Except.ok.inj h).symm⟩
  | autoIncrementMajor => exact hauto .major h
  | autoIncrementMinor => exact hauto .minor h

/-! ### Calls with the name of a mode -/

theorem Mode.ofName?_eq_none_iff {text : String} :
    ofName? text = none ↔ ∀ mode : Mode, mode.name ≠ Text.trim text := by
  simp only [ofName?, List.find?_eq_none, decide_eq_true_eq]
  exact ⟨fun h mode => h mode mode.mem_all, fun h mode _ => h mode⟩

namespace Service

/-- The mode that a call chooses by a name, or leaves to the configuration. -/
def modeOf (service : Service) : Option String → Option Mode
  | none => some service.config.defaultMode
  | some text => Mode.ofName? text

/-- What a persist call keeps to, given the name of its mode, the submission, the requests that it has
made with their answers, and its result. -/
structure Disciplined (service : Service) (name : Option String) (s : Submission)
    (calls : List Answered) (result : Except ServiceError Item) : Prop where
  /-- At most two lookups come first and at most one write comes last, and nothing else. -/
  order : ∃ lookups writes, calls = lookups ++ writes ∧ lookups.length ≤ 2 ∧
    (∀ call ∈ lookups, call.isLookup = true) ∧ writes.length ≤ 1 ∧
    ∀ call ∈ writes, call.isWrite = true
  /-- A name that is no mode's, after trimming, is refused as it stands before any request. -/
  unknown : ∀ text, name = some text → (∀ mode : Mode, mode.name ≠ Text.trim text) →
    calls = [] ∧ result = .error (.invalidPolicy text)
  /-- Without a definition id there is no request. -/
  unresolved : s.resolvedId = none → calls = [] ∧
    ∀ mode, service.modeOf name = some mode → result = .error .missingDefinitionId
  /-- What leaves the matched row as it is, by the comparator, is not written. -/
  unchanged : ∀ definitionId row, s.resolvedId = some definitionId →
    (service.contextAfter s definitionId calls).existing = some row →
    service.comparator row (s.toCandidate definitionId service.config.initialVersion) = true →
    ∀ call ∈ calls, call.isWrite = false
  /-- What the plan rejects, by a conflict or for want of a next version, is not written. -/
  rejected : ∀ mode definitionId cause, service.modeOf name = some mode →
    s.resolvedId = some definitionId →
    (service.contextAfter s definitionId calls).plan service.incrementer mode = .error cause →
    ∀ call ∈ calls, call.isWrite = false
  /-- A failure that does not come from the store comes without a write. -/
  refused : ∀ cause, result = .error cause → cause.isFromStore = false →
    ∀ call ∈ calls, call.isWrite = false
  /-- The modes that increment and the manual mode change no row that is there. -/
  appends : ∀ mode, service.modeOf name = some mode → mode ≠ .overwrite → mode ≠ .overwriteLatest →
    ∀ call ∈ calls, ∀ item, call.1 ≠ .updateItem item
  /-- After a request that fails there is no other, and its failure is the result. -/
  failure : ∀ before call after cause, calls = before ++ call :: after →
    call.fault? = some cause → after = [] ∧ result = .error (.store cause)

variable {service : Service} {name : Option String} {s : Submission} {mode : Mode} {d text : String}
  {calls : List Answered} {result : Except ServiceError Item}

/-- To choose a mode is to choose it by its name. -/
theorem persistByName_name (service : Service) (chosen : Option Mode) (s : Submission) :
    service.persistByName (chosen.map Mode.name) s = service.persist chosen s := by
  cases chosen with
  | none => rfl
  | some mode => cases mode <;> rfl

theorem persistByName_of_unknown (hname : Mode.ofName? text = none) :
    service.persistByName (some text) s = .done (.error (.invalidPolicy text)) := by
  simp only [persistByName, hname]

theorem persistByName_of_modeOf (hmode : service.modeOf name = some mode) :
    service.persistByName name s =
      match s.resolvedId with
      | none => .done (.error .missingDefinitionId)
      | some definitionId => service.persistAs mode s definitionId := by
  cases name with
  | none =>
    cases hmode
    rfl
  | some text =>
    change Mode.ofName? text = some mode at hmode
    simp only [persistByName, hmode]
    rfl

/-- A call that makes no request keeps to all that is asked, if its result does. -/
theorem disciplined_nil
    (unknown : ∀ text, name = some text → (∀ mode : Mode, mode.name ≠ Text.trim text) →
      result = .error (.invalidPolicy text))
    (unresolved : ∀ mode, service.modeOf name = some mode → result = .error .missingDefinitionId) :
    service.Disciplined name s [] result where
  order := ⟨[], [], rfl, Nat.zero_le 2, List.forall_mem_nil _, Nat.zero_le 1, List.forall_mem_nil _⟩
  unknown := fun text hname hnone => ⟨rfl, unknown text hname hnone⟩
  unresolved := fun _ => ⟨rfl, unresolved⟩
  unchanged := fun _ _ _ _ _ => List.forall_mem_nil _
  rejected := fun _ _ _ _ _ _ => List.forall_mem_nil _
  refused := fun _ _ _ => List.forall_mem_nil _
  appends := fun _ _ _ _ => List.forall_mem_nil _
  failure := fun before call after _ hcalls => by simp at hcalls

/-- A way through a persist call keeps to all that is asked. -/
theorem Conduct.disciplined (h : service.Conduct mode s d calls result)
    (hmode : service.modeOf name = some mode) (hid : s.resolvedId = some d) :
    service.Disciplined name s calls result where
  order := h.order
  unknown := by
    rintro text rfl hnone
    rw [modeOf, Mode.ofName?_eq_none_iff.2 hnone] at hmode
    cases hmode
  unresolved := fun hnone => by
    rw [hid] at hnone
    cases hnone
  unchanged := by
    intro definitionId row hid' hrow hsame call hcall
    cases hid.symm.trans hid'
    rw [Bool.eq_false_iff]
    intro hwrite
    obtain ⟨hchanged, -⟩ := h.planned_of_isWrite hcall hwrite
    rw [hrow, Option.filter_some, contextAfter, hsame] at hchanged
    cases hchanged
  rejected := by
    intro mode' definitionId cause hmode' hid' hplan call hcall
    cases hid.symm.trans hid'
    cases hmode.symm.trans hmode'
    rw [Bool.eq_false_iff]
    intro hwrite
    obtain ⟨-, planned, answer, hplanned, -, -⟩ := h.planned_of_isWrite hcall hwrite
    rw [hplan] at hplanned
    cases hplanned
  refused := by
    intro cause hresult hstore call hcall
    rw [Bool.eq_false_iff]
    intro hwrite
    obtain ⟨-, planned, answer, -, -, hanswer⟩ := h.planned_of_isWrite hcall hwrite
    rw [hanswer] at hresult
    cases answer with
    | ok item => cases hresult
    | error fault =>
      cases hresult
      cases hstore
  appends := by
    intro mode' hmode' hne hne' call hcall item hupdate
    cases hmode.symm.trans hmode'
    have hwrite : call.isWrite = true := by
      rw [Answered.isWrite, hupdate]
      rfl
    obtain ⟨-, planned, answer, hplanned, rfl, -⟩ := h.planned_of_isWrite hcall hwrite
    obtain ⟨candidate, rfl⟩ := WriteContext.exists_insert_of_plan hne hne' hplanned
    cases hupdate
  failure := fun before call after cause hcalls hfault => h.failure hcalls hfault

end Service

/-- Whatever a store answers to the requests of a persist call, and whatever the comparator and the
incrementer do, the call keeps to this discipline. -/
theorem disciplined_persistByName (service : Service) (name : Option String) (s : Submission)
    {calls : List Answered} {result : Except ServiceError Item}
    (path : (service.persistByName name s).Path calls result) :
    service.Disciplined name s calls result := by
  cases hmode : service.modeOf name with
  | none =>
    cases name with
    | none => cases hmode
    | some text =>
      rw [Service.persistByName_of_unknown hmode] at path
      obtain ⟨rfl, rfl⟩ := Dialogue.path_done path
      refine Service.disciplined_nil ?_ ?_
      · rintro _ ⟨⟩ -
        rfl
      · intro mode hmode'
        rw [hmode] at hmode'
        cases hmode'
  | some mode =>
    rw [Service.persistByName_of_modeOf hmode] at path
    cases hid : s.resolvedId with
    | none =>
      rw [hid] at path
      obtain ⟨rfl, rfl⟩ := Dialogue.path_done path
      refine Service.disciplined_nil ?_ fun _ _ => rfl
      rintro text rfl hnone
      rw [Service.modeOf, Mode.ofName?_eq_none_iff.2 hnone] at hmode
      cases hmode
    | some d =>
      rw [hid] at path
      exact (Service.path_persistAs path).disciplined hmode hid

/-- A store that gives the same items for every filter, and of which every other request fails. -/
def Backend.heedless (items : List Item) (cause : StoreError) : Backend Unit := fun _ r _ =>
  match r with
  | .getItems _ => (.ok items, ())
  | _ => (.error cause, ())

/-- Two lookups that find nothing but the same two rows, of which one is of a tenant that was not asked
for, and a change that fails. -/
theorem disciplined_persistByName_heedless :
    let s : Submission := ⟨none, some "order", none, some "2", none, none, .null⟩
    let call := Service.persistByName {} (some " OverwriteLatest ") s
    let calls := call.answered (.heedless
      [⟨⟨1⟩, "order", some "acme", "2", none, none, .null, 10, 10⟩,
        ⟨⟨2⟩, "menu", none, "1", none, none, .bool true, 10, 10⟩] (.notFound ⟨2⟩)) ⟨⟨3⟩, 20⟩ ()
    calls.length = 3 ∧
      Service.Disciplined {} (some " OverwriteLatest ") s calls (.error (.store (.notFound ⟨2⟩))) :=
  ⟨rfl, disciplined_persistByName _ _ _ (Dialogue.path_run _ _ _ _)⟩

end Lineage
