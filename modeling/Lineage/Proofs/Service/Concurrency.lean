/-
Many persist calls at once on one store in memory.

A `World` is a store with the calls that have been begun on it. A step begins a call or takes one on
by its next request, so a run is any interleaving of any number of calls. `Consistent` is what each
run keeps: rows stay under their keys, each acknowledged insert has a row of its own, each row says
what the last acknowledged write to it said, and a failed call has changed nothing.
-/

import Lineage.Proofs.Service.Sanction
import Lineage.Proofs.Service.Transition

namespace Lineage

/-! ### Worlds -/

/-- A persist call that has been begun: what it was asked for, and what is left of it. -/
structure Caller where
  service : Service
  chosen : Option Mode
  submission : Submission
  rest : Service.Call Item

/-- The mode of a call. -/
def Caller.mode (caller : Caller) : Mode :=
  caller.chosen.getD caller.service.config.defaultMode

/-- A request of a call, with the answer and the store before and after it. -/
structure Exchange where
  caller : Nat
  request : Request
  answer : request.Answer
  before : Memory
  after : Memory

/-- A store and the calls that have been begun on it, each known by its place. The exchanges are
kept, the last one first. -/
structure World where
  store : Memory
  callers : List Caller
  history : List Exchange

namespace Exchange

/-- The outcome of a write. -/
def outcome (e : Exchange) : Option (Except ServiceError Item) :=
  match e with
  | ⟨_, .addItem _, answer, _, _⟩ => some (answer.mapError .store)
  | ⟨_, .updateItem _, answer, _, _⟩ => some (answer.mapError .store)
  | _ => none

/-- The row of an acknowledged write. -/
def written (e : Exchange) : Option Item :=
  match e.outcome with
  | some (.ok row) => some row
  | _ => none

/-- The row of an acknowledged insert. -/
def inserted (e : Exchange) : Option Item :=
  match e.request with
  | .addItem _ => e.written
  | _ => none

/-- Whether a write to the row with an id was acknowledged. -/
def writes (id : Uuid) (e : Exchange) : Bool :=
  e.written.any (·.id = id)

end Exchange

namespace World

/-- A store on which no call has been begun. -/
def start (m : Memory) : World := ⟨m, [], []⟩

/-- Begins a call. -/
def begin (w : World) (service : Service) (chosen : Option Mode) (s : Submission) : World :=
  { w with callers := w.callers ++ [⟨service, chosen, s, service.persist chosen s⟩] }

/-- Takes a call on: by its next request, if it makes one. -/
def advance (w : World) (place : Nat) (stamp : Stamp) : World :=
  match w.callers[place]? with
  | none => w
  | some caller =>
    match caller.rest with
    | .done _ => w
    | .note _ next => { w with callers := w.callers.set place { caller with rest := next } }
    | .ask request next =>
      let (answer, store) := Memory.backend stamp request w.store
      { store := store
        callers := w.callers.set place { caller with rest := next answer }
        history := ⟨place, request, answer, w.store, store⟩ :: w.history }

/-- A step of some call; an id that the store gives is new. -/
inductive Step (w : World) : World → Prop where
  | begin (service : Service) (chosen : Option Mode) (s : Submission)
      (makes : service.MakesVersions s) : Step w (w.begin service chosen s)
  | advance (place : Nat) (stamp : Stamp) (fresh : w.store.has stamp.id = false) :
      Step w (w.advance place stamp)

/-- Any number of steps. -/
inductive Run (w : World) : World → Prop where
  | refl : Run w w
  | step {w' w'' : World} (run : Run w w') (step : Step w' w'') : Run w w''

/-- The last acknowledged write to the row with an id. -/
def lastWrite (w : World) (id : Uuid) : Option Exchange :=
  w.history.find? (·.writes id)

/-- The rows of the acknowledged inserts. -/
def insertedRows (w : World) : List Item :=
  w.history.filterMap Exchange.inserted

/-- What a run from a store keeps. -/
structure Consistent (m : Memory) (w : World) : Prop where
  /-- No two rows share a key. -/
  keys : (w.store.items.map Item.key).Nodup
  /-- There is one row more for each acknowledged insert. -/
  size : w.store.size = m.size + w.insertedRows.length
  /-- Acknowledged inserts have different rows. -/
  insertedRows_nodup : (w.insertedRows.map Item.id).Nodup
  /-- The row of an acknowledged insert is in the store, and was not there at first. -/
  insertedRows_stored : ∀ row ∈ w.insertedRows, w.store.has row.id = true ∧ m.has row.id = false
  /-- A call has at most one acknowledged write. -/
  writers_nodup : ((w.history.filter (·.written.isSome)).map Exchange.caller).Nodup
  /-- A call with an acknowledged write ends with its row. -/
  acknowledged : ∀ e ∈ w.history, ∀ row, e.written = some row →
    ∃ caller, w.callers[e.caller]? = some caller ∧ caller.rest.verdict = some (.ok row) ∧
      row.content = caller.submission.content
  /-- A row is as the last acknowledged write to it has left it. -/
  content : ∀ row ∈ w.store.items,
    match w.lastWrite row.id with
    | some e => e.written = some row
    | none => row ∈ m.items
  /-- Only the overwriting modes write to a row that is there. -/
  overwriting : ∀ e ∈ w.history, ∀ row, e.written = some row → e.before.has row.id = true →
    ∃ caller, w.callers[e.caller]? = some caller ∧ caller.mode.overwrites
  /-- A failed call has changed nothing. -/
  failed : ∀ place caller cause, w.callers[place]? = some caller →
    caller.rest.verdict = some (.error cause) →
    ∀ e ∈ w.history, e.caller = place → e.after = e.before

end World

/-! ### What an exchange does -/

/-- How the store is changed by an exchange of a caller. -/
inductive Exchange.Shape (caller : Caller) (e : Exchange) : Prop where
  | unchanged (written : e.written = none) (inserted : e.inserted = none)
      (store : e.after = e.before)
  | added (row : Item) (written : e.written = some row) (inserted : e.inserted = some row)
      (fresh : e.before.has row.id = false) (store : e.after = ⟨e.before.items ++ [row]⟩)
      (content : row.content = caller.submission.content)
  | rewritten (row : Item) (written : e.written = some row) (inserted : e.inserted = none)
      (stored : e.before.has row.id = true) (store : e.after = e.before.put row)
      (content : row.content = caller.submission.content) (mode : caller.mode.overwrites)

/-- What an exchange of a caller makes of the world: the store grows, the rest of the call is
sanctioned, and a write ends the call in its outcome. -/
structure Exchange.Kept (caller : Caller) (e : Exchange) (rest : Service.Call Item) : Prop where
  shape : e.Shape caller
  versioned : e.after.Versioned
  grows : e.before.Grows e.after
  sanctioned : rest.Sanctioned caller.mode caller.submission e.after
  verdict : ∀ outcome, e.outcome = some outcome → rest.verdict = some outcome

theorem Dialogue.sanctioned_of_verdict {mode : Mode} {s : Submission} {m : Memory}
    {call : Service.Call Item} {outcome : Except ServiceError Item}
    (h : call.verdict = some outcome) : call.Sanctioned mode s m := by
  induction call with
  | done result => trivial
  | note event next ih => exact ih h
  | ask request next _ => cases h

section Exchanges

variable {m : Memory} {place : Nat} {caller : Caller} {stamp : Stamp}

theorem kept_getItems (versioned : m.Versioned) {filter : Filter}
    {next : Except StoreError (List Item) → Service.Call Item}
    (h : (Dialogue.ask (.getItems filter) next).Sanctioned caller.mode caller.submission m) :
    (Exchange.mk place (.getItems filter) (.ok (m.list filter)) m m).Kept caller
      (next (.ok (m.list filter))) where
  shape := .unchanged rfl rfl rfl
  versioned := versioned
  grows := .refl m
  sanctioned := h m versioned (.refl m)
  verdict := fun _ h => by cases h

theorem kept_addItem (versioned : m.Versioned) (fresh : m.has stamp.id = false) {c : Candidate}
    {next : Except StoreError Item → Service.Call Item}
    (h : (Dialogue.ask (.addItem c) next).Sanctioned caller.mode caller.submission m) :
    (Exchange.mk place (.addItem c) (m.add stamp c).1 m (m.add stamp c).2).Kept caller
      (next (m.add stamp c).1) := by
  obtain ⟨hcontent, hversion, hend⟩ := h
  have hverdict : ∀ outcome,
      (Exchange.mk place (.addItem c) (m.add stamp c).1 m (m.add stamp c).2).outcome =
        some outcome → (next (m.add stamp c).1).verdict = some outcome := by
    rintro outcome heq
    cases heq
    exact hend _
  rcases Memory.add_cases m stamp c with ⟨-, hadd⟩ | ⟨hfree, hadd⟩
  · rw [hadd] at hverdict ⊢
    exact ⟨.unchanged rfl rfl rfl, versioned, .refl m, Dialogue.sanctioned_of_verdict (hend _),
      hverdict⟩
  · rw [hadd] at hverdict ⊢
    refine ⟨.added (c.toItem stamp) rfl rfl fresh rfl hcontent, ⟨?_, ?_⟩,
      m.grows_append (c.toItem stamp), Dialogue.sanctioned_of_verdict (hend _), hverdict⟩
    · exact versioned.sound.append fresh hfree (normalizeTenant_idem c.tenantId)
    · intro row hrow
      rcases List.mem_append.1 hrow with hrow | hrow
      · exact versioned.version_ne row hrow
      · rw [List.mem_singleton.1 hrow]
        exact hversion

theorem kept_updateItem (versioned : m.Versioned) {now : Int64} {item : Item}
    {next : Except StoreError Item → Service.Call Item}
    (h : (Dialogue.ask (.updateItem item) next).Sanctioned caller.mode caller.submission m) :
    (Exchange.mk place (.updateItem item) (m.update now item).1 m (m.update now item).2).Kept caller
      (next (m.update now item).1) := by
  obtain ⟨hcontent, hmode, ⟨row, hrow, hid, hkey⟩, hend⟩ := h
  obtain ⟨hupdate, hsame⟩ := versioned.sound.update_of_holds now hrow hid hkey
  have hhas : m.has (item.replacing row now).id = true := by
    simp only [Memory.has, List.any_eq_true, decide_eq_true_eq]
    exact ⟨row, hrow, hid⟩
  have hverdict : ∀ outcome,
      (Exchange.mk place (.updateItem item) (m.update now item).1 m (m.update now item).2).outcome =
        some outcome → (next (m.update now item).1).verdict = some outcome := by
    rintro outcome heq
    cases heq
    exact hend _
  rw [hupdate] at hverdict ⊢
  refine ⟨.rewritten (item.replacing row now) rfl rfl hhas rfl hcontent hmode, ⟨?_, ?_⟩,
    versioned.sound.grows_put hrow hid.symm hsame rfl, Dialogue.sanctioned_of_verdict (hend _),
    hverdict⟩
  · exact versioned.sound.put_self hrow hid.symm hsame
  · intro other ho
    rcases (Memory.mem_put hhas).1 ho with rfl | ⟨ho, -⟩
    · have hversion : (item.replacing row now).version = row.version := congrArg (·.2.2) hsame
      rw [hversion]
      exact versioned.version_ne row hrow
    · exact versioned.version_ne other ho

/-- Every request of a sanctioned call keeps the world in order. -/
theorem kept_ask (place : Nat) (versioned : m.Versioned) (fresh : m.has stamp.id = false)
    {request : Request}
    {next : request.Answer → Service.Call Item}
    (h : (Dialogue.ask request next).Sanctioned caller.mode caller.submission m) :
    (Exchange.mk place request (Memory.backend stamp request m).1 m
      (Memory.backend stamp request m).2).Kept caller
        (next (Memory.backend stamp request m).1) := by
  cases request with
  | getItems filter => exact kept_getItems versioned h
  | addItem c => exact kept_addItem versioned fresh h
  | updateItem item => exact kept_updateItem versioned h
  | _ => exact absurd h not_false

end Exchanges

/-! ### The ledger -/

theorem Memory.Grows.has {m m' : Memory} (h : m.Grows m') {id : Uuid} (hid : m.has id = true) :
    m'.has id = true := by
  simp only [Memory.has, List.any_eq_true, decide_eq_true_eq] at hid ⊢
  obtain ⟨row, hrow, rfl⟩ := hid
  obtain ⟨row', hrow', hsame, -⟩ := h row hrow
  exact ⟨row', hrow', hsame⟩

/-- How the rows of a store follow from the first store and the exchanges since. -/
structure Ledger (m store : Memory) (history : List Exchange) : Prop where
  size : store.size = m.size + (history.filterMap Exchange.inserted).length
  nodup : ((history.filterMap Exchange.inserted).map Item.id).Nodup
  stored : ∀ row ∈ history.filterMap Exchange.inserted,
    store.has row.id = true ∧ m.has row.id = false
  content : ∀ row ∈ store.items,
    match history.find? (·.writes row.id) with
    | some e => e.written = some row
    | none => row ∈ m.items

section Ledger

variable {m : Memory} {history : List Exchange} {e : Exchange} {caller : Caller} {row : Item}

theorem Ledger.start (m : Memory) : Ledger m m [] where
  size := rfl
  nodup := List.nodup_nil
  stored := fun _ h => absurd h List.not_mem_nil
  content := fun _ h => h

theorem Exchange.writes_of_written (h : e.written = some row) (id : Uuid) :
    e.writes id = decide (row.id = id) := by
  rw [Exchange.writes, h]
  rfl

/-- A row that an exchange does not write to is as the exchanges before it have left it. -/
theorem Ledger.content_of_not_writes (h : Ledger m e.before history) (hrow : row ∈ e.before.items)
    (hwrites : e.writes row.id = false) :
    match (e :: history).find? (·.writes row.id) with
    | some e => e.written = some row
    | none => row ∈ m.items := by
  rw [List.find?_cons, hwrites]
  exact h.content row hrow

theorem content_of_written (h : e.written = some row) :
    match (e :: history).find? (·.writes row.id) with
    | some e => e.written = some row
    | none => row ∈ m.items := by
  rw [List.find?_cons, Exchange.writes_of_written h, decide_eq_true rfl]
  exact h

theorem Ledger.cons (h : Ledger m e.before history) (shape : e.Shape caller)
    (before : m.Grows e.before) (after : e.before.Grows e.after) :
    Ledger m e.after (e :: history) := by
  cases shape with
  | unchanged written inserted store =>
    refine ⟨?_, ?_, ?_, ?_⟩
    · rw [List.filterMap_cons_none inserted, store]
      exact h.size
    · rw [List.filterMap_cons_none inserted]
      exact h.nodup
    · rw [List.filterMap_cons_none inserted, store]
      exact h.stored
    · rw [store]
      intro row hrow
      exact h.content_of_not_writes hrow (by rw [Exchange.writes, written]; rfl)
  | added row written inserted fresh store content =>
    have hstored : e.after.has row.id = true := by
      rw [store]
      simp [Memory.has]
    refine ⟨?_, ?_, ?_, ?_⟩
    · rw [List.filterMap_cons_some inserted, List.length_cons, store, ← Nat.add_assoc, ← h.size]
      exact List.length_append
    · rw [List.filterMap_cons_some inserted, List.map_cons, List.nodup_cons]
      refine ⟨fun hmem => ?_, h.nodup⟩
      obtain ⟨other, hother, hid⟩ := List.mem_map.1 hmem
      have hhas := (h.stored other hother).1
      rw [hid, fresh] at hhas
      cases hhas
    · rw [List.filterMap_cons_some inserted, List.forall_mem_cons]
      refine ⟨⟨hstored, ?_⟩, fun other ho => ⟨after.has (h.stored other ho).1, (h.stored other ho).2⟩⟩
      cases hm : m.has row.id with
      | false => rfl
      | true =>
        rw [before.has hm] at fresh
        cases fresh
    · rw [store]
      intro other ho
      rcases List.mem_append.1 ho with ho | ho
      · refine h.content_of_not_writes ho ?_
        rw [Exchange.writes_of_written written, decide_eq_false_iff_not]
        exact fun hid => Memory.has_eq_false_iff.1 fresh other ho hid.symm
      · rw [List.mem_singleton.1 ho]
        exact content_of_written written
  | rewritten row written inserted stored store content mode =>
    refine ⟨?_, ?_, ?_, ?_⟩
    · rw [List.filterMap_cons_none inserted, store, ← h.size]
      exact List.length_map _
    · rw [List.filterMap_cons_none inserted]
      exact h.nodup
    · rw [List.filterMap_cons_none inserted]
      exact fun other ho => ⟨after.has (h.stored other ho).1, (h.stored other ho).2⟩
    · rw [store]
      intro other ho
      rcases (Memory.mem_put stored).1 ho with rfl | ⟨ho, hne⟩
      · exact content_of_written written
      · refine h.content_of_not_writes ho ?_
        rw [Exchange.writes_of_written written, decide_eq_false_iff_not]
        exact fun hid => hne hid.symm

end Ledger

/-! ### Runs -/

/-- What each step of a run keeps. -/
structure World.Inv (m : Memory) (w : World) : Prop where
  versioned : w.store.Versioned
  grows : m.Grows w.store
  ledger : Ledger m w.store w.history
  /-- The rest of each call is sanctioned, and a call that has written ends in the outcome. -/
  progress : ∀ place caller, w.callers[place]? = some caller →
    caller.rest.Sanctioned caller.mode caller.submission w.store ∧
      ∀ e ∈ w.history, e.caller = place → ∀ outcome, e.outcome = some outcome →
        caller.rest.verdict = some outcome
  shapes : ∀ e ∈ w.history, ∃ caller, w.callers[e.caller]? = some caller ∧ e.Shape caller
  writers : ((w.history.filter (·.written.isSome)).map Exchange.caller).Nodup

section Runs

variable {m : Memory} {w w' : World} {place : Nat} {caller : Caller} {stamp : Stamp}

theorem Exchange.Shape.of_same {e : Exchange} {other : Caller} (h : e.Shape caller)
    (hmode : other.mode = caller.mode) (hsubmission : other.submission = caller.submission) :
    e.Shape other := by
  cases h with
  | unchanged written inserted store => exact .unchanged written inserted store
  | added row written inserted fresh store content =>
    exact .added row written inserted fresh store (by rw [hsubmission, content])
  | rewritten row written inserted stored store content mode =>
    exact .rewritten row written inserted stored store (by rw [hsubmission, content])
      (by rw [hmode]; exact mode)

theorem World.Inv.start (versioned : m.Versioned) : (World.start m).Inv m where
  versioned := versioned
  grows := .refl m
  ledger := .start m
  progress := fun place caller h => by cases h
  shapes := fun _ h => absurd h List.not_mem_nil
  writers := List.nodup_nil

theorem World.Inv.begin (inv : w.Inv m) {service : Service} (chosen : Option Mode) {s : Submission}
    (makes : service.MakesVersions s) : (w.begin service chosen s).Inv m := by
  refine { inv with progress := ?_, shapes := ?_ }
  · intro place caller hcaller
    rcases Nat.lt_or_ge place w.callers.length with hlt | hge
    · rw [World.begin, List.getElem?_append_left hlt] at hcaller
      exact inv.progress place caller hcaller
    · rw [World.begin, List.getElem?_append_right hge, List.getElem?_singleton] at hcaller
      split at hcaller
      · cases hcaller
        refine ⟨sanctioned_persist makes chosen, fun e he hplace => ?_⟩
        -- No exchange so far is of the new call.
        obtain ⟨old, hold, -⟩ := inv.shapes e he
        have hlt := (List.getElem?_eq_some_iff.1 hold).1
        omega
      · cases hcaller
  · intro e he
    obtain ⟨caller, hcaller, hshape⟩ := inv.shapes e he
    have hlt := (List.getElem?_eq_some_iff.1 hcaller).1
    exact ⟨caller, by rw [World.begin, List.getElem?_append_left hlt, hcaller], hshape⟩

/-- The callers after one of them has been taken on. -/
theorem caller_set {callers : List Caller} {rest : Service.Call Item} {i : Nat} {other : Caller}
    (h : (callers.set place { caller with rest := rest })[i]? = some other) :
    (i = place ∧ other = { caller with rest := rest }) ∨ (i ≠ place ∧ callers[i]? = some other) := by
  rw [List.getElem?_set] at h
  split at h
  · next heq =>
    split at h
    · exact .inl ⟨heq.symm, (Option.some.inj h).symm⟩
    · cases h
  · next hne => exact .inr ⟨fun heq => hne heq.symm, h⟩

/-- Every caller stays, with its mode and its submission. -/
theorem caller_kept {callers : List Caller} (rest : Service.Call Item) {i : Nat} {other : Caller}
    (hcaller : callers[place]? = some caller) (h : callers[i]? = some other) :
    ∃ after, (callers.set place { caller with rest := rest })[i]? = some after ∧
      after.mode = other.mode ∧ after.submission = other.submission := by
  by_cases heq : place = i
  · subst heq
    cases Option.some.inj (h.symm.trans hcaller)
    have hlt := (List.getElem?_eq_some_iff.1 hcaller).1
    exact ⟨_, List.getElem?_set_self hlt, rfl, rfl⟩
  · exact ⟨other, by rw [List.getElem?_set_ne heq, h], rfl, rfl⟩

theorem World.Inv.shapes_set (inv : w.Inv m) {rest : Service.Call Item}
    (hcaller : w.callers[place]? = some caller) {e : Exchange} (he : e ∈ w.history) :
    ∃ after, (w.callers.set place { caller with rest := rest })[e.caller]? = some after ∧
      e.Shape after := by
  obtain ⟨other, hother, hshape⟩ := inv.shapes e he
  obtain ⟨after, hafter, hmode, hsubmission⟩ := caller_kept rest hcaller hother
  exact ⟨after, hafter, hshape.of_same hmode hsubmission⟩

/-- An event that a call notes changes nothing but the call. -/
theorem World.Inv.note (inv : w.Inv m) (hcaller : w.callers[place]? = some caller) {event : Event}
    {next : Service.Call Item} (hrest : caller.rest = .note event next) :
    World.Inv m { w with callers := w.callers.set place { caller with rest := next } } := by
  refine { inv with progress := ?_, shapes := ?_ }
  · intro i other hother
    rcases caller_set hother with ⟨rfl, rfl⟩ | ⟨-, hold⟩
    · have hbefore := inv.progress i caller hcaller
      rw [hrest] at hbefore
      exact hbefore
    · exact inv.progress i other hold
  · exact fun e he => inv.shapes_set hcaller he

/-- A call that still asks for something has written nothing so far. -/
theorem World.Inv.not_written (inv : w.Inv m) (hcaller : w.callers[place]? = some caller)
    {request : Request} {next : request.Answer → Service.Call Item}
    (hrest : caller.rest = .ask request next) {e : Exchange} (he : e ∈ w.history)
    (hplace : e.caller = place) : e.outcome = none := by
  cases houtcome : e.outcome with
  | none => rfl
  | some outcome =>
    have hverdict := (inv.progress place caller hcaller).2 e he hplace outcome houtcome
    rw [hrest] at hverdict
    cases hverdict

/-- An exchange of a call with the store. -/
theorem World.Inv.ask (inv : w.Inv m) (fresh : w.store.has stamp.id = false)
    (hcaller : w.callers[place]? = some caller) {request : Request}
    {next : request.Answer → Service.Call Item} (hrest : caller.rest = .ask request next) :
    World.Inv m
      { store := (Memory.backend stamp request w.store).2
        callers := w.callers.set place
          { caller with rest := next (Memory.backend stamp request w.store).1 }
        history := ⟨place, request, (Memory.backend stamp request w.store).1, w.store,
          (Memory.backend stamp request w.store).2⟩ :: w.history } := by
  have hsanctioned := (inv.progress place caller hcaller).1
  rw [hrest] at hsanctioned
  have kept := kept_ask place inv.versioned fresh hsanctioned
  have hlt := (List.getElem?_eq_some_iff.1 hcaller).1
  refine ⟨kept.versioned, inv.grows.trans kept.grows, ?_, ?_, ?_, ?_⟩
  · exact Ledger.cons inv.ledger kept.shape inv.grows kept.grows
  · intro i other hother
    rcases caller_set hother with ⟨rfl, rfl⟩ | ⟨hne, hold⟩
    · refine ⟨kept.sanctioned, ?_⟩
      rw [List.forall_mem_cons]
      refine ⟨fun _ => kept.verdict, fun e he hplace outcome houtcome => ?_⟩
      rw [inv.not_written hcaller hrest he hplace] at houtcome
      cases houtcome
    · obtain ⟨hrest', hverdict⟩ := inv.progress i other hold
      refine ⟨hrest'.mono kept.grows, ?_⟩
      rw [List.forall_mem_cons]
      exact ⟨fun hplace => absurd hplace.symm hne, hverdict⟩
  · rw [List.forall_mem_cons]
    exact ⟨⟨_, List.getElem?_set_self hlt, kept.shape.of_same rfl rfl⟩,
      fun e he => inv.shapes_set hcaller he⟩
  · rw [List.filter_cons]
    split
    · rw [List.map_cons, List.nodup_cons]
      refine ⟨fun hmem => ?_, inv.writers⟩
      obtain ⟨e, he, hplace⟩ := List.mem_map.1 hmem
      obtain ⟨he, hwritten⟩ := List.mem_filter.1 he
      rw [Exchange.written, inv.not_written hcaller hrest he hplace] at hwritten
      cases hwritten
    · exact inv.writers

theorem World.Inv.advance (inv : w.Inv m) (place : Nat) (fresh : w.store.has stamp.id = false) :
    (w.advance place stamp).Inv m := by
  unfold World.advance
  split
  · exact inv
  · next caller hcaller =>
    split
    · exact inv
    · next event next hrest => exact inv.note hcaller hrest
    · next request next hrest => exact inv.ask fresh hcaller hrest

theorem World.Inv.step (inv : w.Inv m) (step : w.Step w') : w'.Inv m := by
  cases step with
  | begin service chosen s makes => exact inv.begin chosen makes
  | advance place stamp fresh => exact inv.advance place fresh

theorem World.Inv.run (inv : w.Inv m) (run : w.Run w') : w'.Inv m := by
  induction run with
  | refl => exact inv
  | step _ step ih => exact ih.step step

theorem World.Inv.grows_advance (inv : w.Inv m) (place : Nat)
    (fresh : w.store.has stamp.id = false) : w.store.Grows (w.advance place stamp).store := by
  unfold World.advance
  split
  · exact .refl w.store
  · next caller hcaller =>
    split
    · exact .refl w.store
    · exact .refl w.store
    · next request next hrest =>
      have hsanctioned := (inv.progress place caller hcaller).1
      rw [hrest] at hsanctioned
      exact (kept_ask place inv.versioned fresh hsanctioned).grows

theorem World.Inv.grows_run (inv : w.Inv m) (run : w.Run w') : w.store.Grows w'.store := by
  induction run with
  | refl => exact .refl w.store
  | step run step ih =>
    cases step with
    | begin service chosen s makes => exact ih
    | advance place stamp fresh => exact ih.trans ((inv.run run).grows_advance place fresh)

theorem Exchange.outcome_of_written {e : Exchange} {row : Item} (h : e.written = some row) :
    e.outcome = some (.ok row) := by
  unfold Exchange.written at h
  split at h
  · next houtcome =>
    cases h
    exact houtcome
  · cases h

theorem World.Inv.consistent (inv : w.Inv m) : w.Consistent m where
  keys := inv.versioned.sound.keys
  size := inv.ledger.size
  insertedRows_nodup := inv.ledger.nodup
  insertedRows_stored := inv.ledger.stored
  writers_nodup := inv.writers
  acknowledged := by
    intro e he row hwritten
    obtain ⟨caller, hcaller, hshape⟩ := inv.shapes e he
    refine ⟨caller, hcaller, ?_, ?_⟩
    · exact (inv.progress e.caller caller hcaller).2 e he rfl _ (Exchange.outcome_of_written hwritten)
    · cases hshape with
      | unchanged written => simp [hwritten] at written
      | added row' written _ _ _ content =>
        cases Option.some.inj (hwritten.symm.trans written)
        exact content
      | rewritten row' written _ _ _ content =>
        cases Option.some.inj (hwritten.symm.trans written)
        exact content
  content := inv.ledger.content
  overwriting := by
    intro e he row hwritten hstored
    obtain ⟨caller, hcaller, hshape⟩ := inv.shapes e he
    cases hshape with
    | unchanged written => simp [hwritten] at written
    | added row' written _ fresh =>
      cases Option.some.inj (hwritten.symm.trans written)
      rw [hstored] at fresh
      cases fresh
    | rewritten row' written _ _ _ _ mode => exact ⟨caller, hcaller, mode⟩
  failed := by
    intro place caller cause hcaller hverdict e he hplace
    obtain ⟨other, hother, hshape⟩ := inv.shapes e he
    have hnot : ∀ row, e.written ≠ some row := by
      intro row hwritten
      have hok := (inv.progress place caller hcaller).2 e he hplace _
        (Exchange.outcome_of_written hwritten)
      rw [hverdict] at hok
      cases hok
    cases hshape with
    | unchanged _ _ store => exact store
    | added row written => exact absurd written (hnot row)
    | rewritten row written => exact absurd written (hnot row)

/-- Whatever persist calls are made at once on a reachable store without empty versions, and however
their requests are interleaved, the world stays consistent and every row stays. -/
theorem consistent_run (h : m.Reachable) (hversions : ∀ row ∈ m.items, row.version ≠ "")
    (run : (World.start m).Run w) :
    w.Consistent m ∧ ∀ w', w.Run w' → w.store.Grows w'.store := by
  have inv := (World.Inv.start ⟨h.sound, hversions⟩).run run
  exact ⟨inv.consistent, fun w' later => inv.grows_run later⟩

end Runs

/-- The increment by precedence gives no empty version. -/
theorem makesVersions_of_nextRelease {config : Config} {s : Submission}
    (initial : config.initialVersion ≠ "") (explicit : s.version ≠ some "") :
    ({ config := config } : Service).MakesVersions s where
  initial := initial
  explicit := explicit
  increment := by
    rintro version field next hnext rfl
    obtain ⟨-, w, -, -, -, hw⟩ := nextRelease_eq_ok hnext
    have hempty : Version.parse? "" = none := by decide
    rw [hempty] at hw
    cases hw

/-- Two calls that have looked at the same rows, of which the first has added its row since. -/
def World.raced : World :=
  let call (name : String) : Submission := ⟨none, some "order", none, none, some name, none, .null⟩
  ((((((World.start .twoVersions).begin {} (some .autoIncrementMajor) (call "first")).begin {}
    (some .overwriteLatest) (call "second")).advance 0 ⟨⟨3⟩, 30⟩).advance 1 ⟨⟨4⟩, 40⟩).advance 0
      ⟨⟨5⟩, 50⟩)

theorem consistent_run_raced :
    Memory.twoVersions.Reachable ∧ (∀ row ∈ Memory.twoVersions.items, row.version ≠ "") ∧
      (World.start .twoVersions).Run .raced ∧ World.raced.Consistent .twoVersions := by
  have hversions : ∀ row ∈ Memory.twoVersions.items, row.version ≠ "" := by decide
  have makes : ∀ name, ({} : Service).MakesVersions
      ⟨none, some "order", none, none, some name, none, .null⟩ := fun name =>
    makesVersions_of_nextRelease (by decide) (by simp)
  have run : (World.start .twoVersions).Run .raced := by
    have begun := ((World.Run.refl (w := World.start .twoVersions)).step
      (.begin {} (some .autoIncrementMajor) _ (makes "first"))).step
      (.begin {} (some .overwriteLatest) _ (makes "second"))
    have looked := (begun.step (.advance 0 ⟨⟨3⟩, 30⟩ rfl)).step (.advance 1 ⟨⟨4⟩, 40⟩ rfl)
    exact looked.step (.advance 0 ⟨⟨5⟩, 50⟩ rfl)
  exact ⟨Memory.reachable_twoVersions, hversions, run,
    (consistent_run Memory.reachable_twoVersions hversions run).1⟩

end Lineage
