/-
Rows that cannot be read are never passed over.

`Row.Listed` is what a listing of raw rows gives: every one of them, sorted, or the failure of the
first one that cannot be read. Each listing that a database takes is so, whatever texts the rows hold;
and a persist call of which a lookup meets a row that cannot be read ends with that failure, before it
writes (`lists_all_or_fails`).
-/

import Lineage.Proofs.Service.Atomicity
import Lineage.Proofs.Service.Discipline
import Lineage.Proofs.Store.Coherence
import Lineage.Proofs.Store.Decoding

namespace Lineage

/-! ### Listings of raw rows -/

/-- What a listing of rows gives. It holds every row, the highest version first and equal versions
in the order of the rows; or it fails by what is wrong with the first row that cannot be read. -/
inductive Row.Listed (rows : List Row) : Except StoreError (List Item) → Prop where
  | whole {items listed : List Item} (shows : List.Forall₂ Row.Shows rows items)
      (isListing : IsListing items .all listed) : Listed rows (.ok listed)
  | failed {before after : List Row} {row : Row} {cause : StoreError}
      (first : rows = before ++ row :: after)
      (readable : ∀ other ∈ before, ∃ item, other.Shows item) (fails : row.Fails cause) :
      Listed rows (.error cause)

variable {rows : List Row} {answer : Except StoreError (List Item)} {cause : StoreError}

/-- A listing of rows of which one cannot be read fails. -/
theorem Row.Listed.exists_error (h : Row.Listed rows answer) {row : Row} (hrow : row ∈ rows)
    (hbad : ∀ item, ¬ row.Shows item) : ∃ cause, answer = .error cause := by
  cases h with
  | whole shows isListing =>
    obtain ⟨i, hi, rfl⟩ := List.getElem_of_mem hrow
    exact absurd (shows.get hi (shows.length_eq ▸ hi)) (hbad _)
  | failed first readable fails => exact ⟨_, rfl⟩

/-- Reading rows one after the other and sorting what they say is such a listing. -/
theorem Row.listed_mapM (rows : List Row) :
    Row.Listed rows ((rows.mapM Row.decode).map sortItems) := by
  rcases mapM_decode_cases rows with ⟨items, hitems, hshows⟩ |
    ⟨before, row, after, cause, hcause, hfirst, hreadable, hfails⟩
  · have hlisting := isListing_listing items .all
    have hall : items.filter Filter.all.holds = items := List.filter_eq_self.2 fun _ _ => rfl
    rw [listing, hall] at hlisting
    rw [hitems]
    exact .whole hshows hlisting
  · rw [hcause]
    exact .failed hfirst hreadable hfails

theorem Table.listed_list (t : Table) (filter : Filter) :
    Row.Listed (t.rows.filter (filter.Admits ·)) (t.list filter) := by
  have hlist : t.list filter = ((t.select filter.condition).mapM Row.decode).map sortItems := by
    rw [list]
    cases (t.select filter.condition).mapM Row.decode <;> rfl
  rw [hlist, t.select_eq]
  exact Row.listed_mapM _

namespace Database

variable {db : Database} {stamp : Stamp} {filter : Filter}

/-- A listing that a database takes is one of its raw rows. -/
theorem listed_getItems (usable : db.tableFault? = none)
    (taken : statementFault? (.getItems filter) = none) (stamp : Stamp) :
    ∃ answer, backend stamp (.getItems filter) db = (answer, db) ∧
      Row.Listed (db.items.rows.filter (filter.Admits ·)) answer :=
  ⟨db.items.list filter, backend_of_ready usable taken, db.items.listed_list filter⟩

/-- A filter of at most 996 clauses is not too large for a listing. -/
theorem statementFault?_getItems (h : filter.clauses.length ≤ 996) :
    statementFault? (.getItems filter) = none := by
  have hheight := height_condition_le filter
  have hsmall : ¬ maxHeight < filter.condition.height := by
    rw [maxHeight]
    omega
  exact if_neg hsmall

/-- A listing of a thousand clauses without keys, or more, is too large. -/
theorem statementFault?_getItems_replicate {n : Nat} (h : 999 ≤ n) :
    statementFault? (.getItems ⟨List.replicate (n + 1) {}⟩) = some (.tooDeep maxHeight) := by
  have hheight := height_condition_replicate n
  have hlarge : maxHeight < (Filter.condition ⟨List.replicate (n + 1) {}⟩).height := by
    rw [hheight, maxHeight]
    omega
  exact if_pos hlarge

end Database

/-! ### Requests and their answers -/

namespace Dialogue

variable {σ α : Type} {backend : Backend σ} {stamp : Stamp} {s : σ} {d : Dialogue α}
  {allowed : Request → Prop}

theorem Asks.of_answered (h : d.Asks allowed) :
    ∀ call ∈ d.answered backend stamp s, allowed call.1 := by
  induction d generalizing s with
  | done result => exact List.forall_mem_nil _
  | note event next ih => exact ih h
  | ask request next ih =>
    rw [answered, List.forall_mem_cons]
    exact ⟨h.1, ih _ (h.2 _)⟩

/-- As long as a dialogue only looks for items, the state at its start answers it. -/
theorem answer_of_answered (hread : ∀ filter, (backend stamp (.getItems filter) s).2 = s)
    {before after : List Answered} {call : Answered}
    (h : d.answered backend stamp s = before ++ call :: after)
    (hbefore : ∀ other ∈ before, other.isLookup = true) :
    call.2 = (backend stamp call.1 s).1 := by
  induction d generalizing before with
  | done result => simp [answered] at h
  | note event next ih => exact ih h hbefore
  | ask request next ih =>
    cases before with
    | nil =>
      rw [answered, List.nil_append, List.cons.injEq] at h
      rw [← h.1]
    | cons first rest =>
      rw [answered, List.cons_append, List.cons.injEq] at h
      rw [List.forall_mem_cons, ← h.1] at hbefore
      cases request with
      | getItems filter =>
        rw [hread] at h
        exact ih _ h.2 hbefore.2
      | _ => cases hbefore.1

/-- A dialogue that only looks for items leaves the state as it was. -/
theorem effect_of_lookups (hread : ∀ filter, (backend stamp (.getItems filter) s).2 = s)
    (h : ∀ call ∈ d.answered backend stamp s, call.isLookup = true) :
    (d.effect backend stamp s).2 = s := by
  induction d with
  | done result => rfl
  | note event next ih => exact ih h
  | ask request next ih =>
    rw [answered, List.forall_mem_cons] at h
    cases request with
    | getItems filter =>
      rw [effect_ask]
      rw [hread] at h ⊢
      exact ih _ h.2
    | _ => cases h.1

end Dialogue

/-! ### Persist calls -/

namespace Service

variable {service : Service} {name : Option String} {s : Submission} {mode : Mode}

/-- A database takes the request. -/
def Taken (r : Request) : Prop :=
  Database.statementFault? r = none

theorem asks_latestIn {α : Type} {clause : Clause} {tenantId : Option String}
    {next : Option Item → Call α} (h : ∀ found, (next found).Asks Taken) :
    (latestIn clause tenantId next).Asks Taken := by
  refine ⟨Database.statementFault?_single clause, fun answer => ?_⟩
  cases answer with
  | ok items => exact h _
  | error cause => trivial

theorem asks_write (definitionId : String) (planned : Write) :
    (write mode definitionId planned).Asks Taken := by
  cases planned with
  | insert candidate => exact ⟨rfl, fun answer => by cases answer <;> trivial⟩
  | update item => exact ⟨rfl, fun answer => by cases answer <;> trivial⟩

theorem asks_reconcile (c : WriteContext) : (service.reconcile mode c).Asks Taken := by
  unfold reconcile
  split
  · trivial
  · split
    · exact asks_write _ _
    · trivial

/-- No request of a persist call is too large for a database. -/
theorem asks_persistByName (service : Service) (name : Option String) (s : Submission) :
    (service.persistByName name s).Asks Taken := by
  have hpersist : ∀ chosen, (service.persist chosen s).Asks Taken := by
    intro chosen
    unfold persist
    split
    · trivial
    · unfold persistAs
      apply asks_latestIn
      intro existing
      split
      · apply asks_latestIn
        intro latest
        exact asks_reconcile _
      · exact asks_reconcile _
  unfold persistByName
  split
  · exact hpersist none
  · split
    · trivial
    · exact hpersist _

/-- A persist call begins with a lookup by the id, the definition id, the tenant and the version of
its submission. -/
theorem mem_answered_persistByName {σ : Type} (backend : Backend σ) (stamp : Stamp) (state : σ)
    {definitionId : String} (hmode : service.modeOf name = some mode)
    (hid : s.resolvedId = some definitionId) :
    let lookup := Request.getItems (.single ⟨if mode = .overwrite then s.id else none,
      some definitionId, normalizeTenant s.tenantId, s.version⟩)
    ⟨lookup, (backend stamp lookup state).1⟩ ∈
      (service.persistByName name s).answered backend stamp state := by
  obtain ⟨next, hnext⟩ := exists_persistAs_eq service mode s definitionId
  rw [persistByName_of_modeOf hmode, hid]
  simp only [hnext]
  exact List.mem_cons_self

/-- What comes before a lookup is lookups. -/
theorem Disciplined.isLookup_before {calls before after : List Answered} {call : Answered}
    {result : Except ServiceError Item} (h : service.Disciplined name s calls result)
    (hcalls : calls = before ++ call :: after) (hcall : call.isLookup = true) :
    ∀ other ∈ before, other.isLookup = true := by
  obtain ⟨lookups, writes, hsplit, -, hlookups, -, hwrites⟩ := h.order
  rw [hsplit] at hcalls
  rcases List.append_eq_append_iff.1 hcalls with ⟨mid, -, hmid⟩ | ⟨mid, hbefore, -⟩
  · have hwrite : call.isWrite = true := hwrites call (by simp [hmid])
    obtain ⟨request, answer⟩ := call
    cases request <;> simp [Answered.isLookup, Answered.isWrite, Request.isWrite] at hcall hwrite
  · intro other hother
    exact hlookups other (by simp [hbefore, hother])

end Service

/-- Take any texts in the rows of a database. A listing that the database takes holds all the rows that
its filter admits, or it fails by the first of them that cannot be read; a larger one is refused. A
persist call of which a lookup meets a row that cannot be read fails with the failure of that lookup,
without a write. -/
theorem lists_all_or_fails {db : Database} (usable : db.tableFault? = none) (stamp : Stamp) :
    (∀ filter : Filter,
      (Database.statementFault? (.getItems filter) = none → ∃ answer,
        Database.backend stamp (.getItems filter) db = (answer, db) ∧
          Row.Listed (db.items.rows.filter (filter.Admits ·)) answer) ∧
      (Database.statementFault? (.getItems filter) ≠ none → ∃ fault,
        Database.backend stamp (.getItems filter) db = (.error (.database fault), db)) ∧
      (filter.clauses.length ≤ 996 → Database.statementFault? (.getItems filter) = none)) ∧
    ∀ (service : Service) (name : Option String) (s : Submission) (filter : Filter)
      (answer : Except StoreError (List Item)),
      ⟨.getItems filter, answer⟩ ∈
          (service.persistByName name s).answered Database.backend stamp db →
        ∀ row ∈ db.items.rows, filter.Admits row → (∀ item, ¬ row.Shows item) →
          ∃ cause, answer = .error cause ∧
            Row.Listed (db.items.rows.filter (filter.Admits ·)) (.error cause) ∧
            (service.persistByName name s).effect Database.backend stamp db =
              (.error (.store cause), db) ∧
            ∀ call ∈ (service.persistByName name s).answered Database.backend stamp db,
              call.isWrite = false := by
  constructor
  · intro filter
    exact ⟨fun taken => Database.listed_getItems usable taken stamp,
      Database.backend_of_fault stamp db, Database.statementFault?_getItems⟩
  · intro service name s filter answer hcall row hrow hadmits hbad
    have hread := fun filter => Database.backend_getItems stamp filter db
    have hdisciplined := disciplined_persistByName service name s
      (Dialogue.path_run Database.backend stamp (service.persistByName name s) db)
    -- The lookup is answered from the database as it was, so it fails, and it is the last request.
    obtain ⟨before, after, hsplit⟩ := List.append_of_mem hcall
    have hbefore := hdisciplined.isLookup_before hsplit rfl
    have hanswer : answer = (Database.backend stamp (.getItems filter) db).1 :=
      Dialogue.answer_of_answered hread hsplit hbefore
    have htaken : Service.Taken (.getItems filter) :=
      (Service.asks_persistByName service name s).of_answered _ hcall
    obtain ⟨listed, hbackend, hlisted⟩ := Database.listed_getItems usable htaken stamp
    rw [hbackend] at hanswer
    subst hanswer
    obtain ⟨cause, rfl⟩ := hlisted.exists_error
      (List.mem_filter.2 ⟨hrow, decide_eq_true hadmits⟩) hbad
    obtain ⟨rfl, hresult⟩ := hdisciplined.failure _ _ _ cause hsplit rfl
    have hlookups : ∀ call ∈ (service.persistByName name s).answered Database.backend stamp db,
        call.isLookup = true := by
      rw [hsplit, List.forall_mem_append]
      exact ⟨hbefore, List.forall_mem_singleton.2 rfl⟩
    refine ⟨cause, rfl, hlisted, Prod.ext hresult (Dialogue.effect_of_lookups hread hlookups), ?_⟩
    intro call hmem
    obtain ⟨request, answer⟩ := call
    have hlookup := hlookups _ hmem
    cases request with
    | getItems other => rfl
    | _ => cases hlookup

/-- A row whose payload is no JSON. -/
def tornRow : Row :=
  ⟨(Uuid.mk 2).text, "order", none, "2", none, none, "\x7b", .millis 0, .millis 0⟩

/-- A row whose id is no identifier, and which has a text for a time. -/
def namelessRow : Row :=
  ⟨"?", "order", some "acme", "3", none, none, "true", .millis 0, .text "now"⟩

/-- The database with one order, into which these rows have been put from outside. -/
def tampered : Database :=
  { ordered with items := { rows := [Row.ofItem (order.toItem ⟨⟨1⟩, 0⟩), tornRow, namelessRow] } }

theorem fails_tornRow : tornRow.Fails (.invalidPayload ⟨2⟩ .malformed) := by
  apply Row.Fails.payload
  · exact Uuid.parse?_text ⟨2⟩
  · rfl

theorem list_tampered :
    tampered.items.list (.single ⟨none, some "order", none, none⟩) =
      .error (.invalidPayload ⟨2⟩ .malformed) := by
  have hselect : tampered.items.select (Filter.single ⟨none, some "order", none, none⟩).condition =
      [Row.ofItem (order.toItem ⟨⟨1⟩, 0⟩), tornRow, namelessRow] := rfl
  have hfirst : (Row.ofItem (order.toItem ⟨⟨1⟩, 0⟩)).decode = .ok (order.toItem ⟨⟨1⟩, 0⟩) :=
    Row.decode_ofItem portable_order.storable
  rw [Table.list, hselect, List.mapM_cons, hfirst, List.mapM_cons, fails_tornRow.decode]
  rfl

/-- A call on the lineage of a row whose payload is no JSON fails by that payload. -/
theorem lists_all_or_fails_tampered :
    tampered.tableFault? = none ∧
      (Service.persistByName {} none successor).effect Database.backend ⟨⟨3⟩, 10⟩ tampered =
        (.error (.store (.invalidPayload ⟨2⟩ .malformed)), tampered) := by
  have husable : tampered.tableFault? = none := rfl
  have hmode : Service.modeOf {} none = some .autoIncrementMajor := rfl
  have hid : successor.resolvedId = some "order" := rfl
  have hcall := Service.mem_answered_persistByName Database.backend ⟨⟨3⟩, 10⟩ tampered hmode hid
  have hadmits : (Filter.single ⟨none, some "order", none, none⟩).Admits tornRow :=
    .inr ⟨_, List.mem_singleton_self _, by simp, by simp [tornRow], by simp, by simp⟩
  obtain ⟨cause, hcause, -, heffect, -⟩ := (lists_all_or_fails husable ⟨⟨3⟩, 10⟩).2 {} none successor
    _ _ hcall tornRow (by simp [tampered]) hadmits fun _ => fails_tornRow.not_shows
  have htaken := Database.statementFault?_single ⟨none, some "order", none, none⟩
  have hlookup : Database.backend ⟨⟨3⟩, 10⟩
      (.getItems (.single ⟨none, some "order", none, none⟩)) tampered =
        (.error (.invalidPayload ⟨2⟩ .malformed), tampered) := by
    rw [Database.backend_of_ready husable htaken, Table.backend, list_tampered]
  obtain rfl : .invalidPayload ⟨2⟩ .malformed = cause :=
    Except.error.inj ((congrArg Prod.fst hlookup).symm.trans hcause)
  exact ⟨husable, heffect⟩

/-- The filter of a thousand clauses without keys is refused before a row is read. -/
theorem not_forall_lists_all_or_fails :
    ¬ ∀ (db : Database) (stamp : Stamp) (filter : Filter), db.tableFault? = none → ∃ answer,
      Database.backend stamp (.getItems filter) db = (answer, db) ∧
        Row.Listed (db.items.rows.filter (filter.Admits ·)) answer := by
  intro hall
  obtain ⟨answer, hanswer, hlisted⟩ :=
    hall tampered ⟨⟨3⟩, 10⟩ ⟨List.replicate (999 + 1) {}⟩ rfl
  have hrefused := Database.statementFault?_getItems_replicate le_rfl
  rw [Database.backend, hrefused] at hanswer
  cases hanswer
  -- No row fails by the size of a statement.
  cases hlisted with
  | failed first readable fails => cases fails

end Lineage
