/-
Logging is set up once.

A request asks for settings: a level, by one of its names in any case, and an absolute directory, either
with blank characters around it (`LogRequest.Asks`). An attempt starts with settings if they are what it
asks for, the directory can be made and the recorder starts (`Log.Attempt.Starts`). The first attempt of a
process that starts decides the settings, and no later one changes them; later requests succeed if they
ask for that level and for another spelling of that directory (`Log.writtenOnce_afterAll`).
-/

import Lineage.Logging
import Lineage.Proofs.Path
import Lineage.Proofs.Text.Blank

namespace Lineage

/-! ### What a request asks for -/

/-- A text is a name of a level: its own name, or `warning` for warnings, in any case and with blank
characters around it or not. -/
def Level.Spells (text : String) (level : Level) : Prop :=
  ∃ word, Text.Trimmed text.toList word ∧
    (word.map Char.toLower = level.name.toList ∨
      level = .warn ∧ word.map Char.toLower = "warning".toList)

namespace LogRequest

/-- The level that a request asks for. A configuration without a level asks for that of the build. -/
inductive AsksLevel (build : Build) : LogRequest → Level → Prop where
  | named {text directory : String} {level : Level} (spells : level.Spells text) :
      AsksLevel build (.named text directory) level
  | configured {text directory : String} {level : Level} (spells : level.Spells text) :
      AsksLevel build (.configured ⟨some text, directory⟩) level
  | unset {directory : String} :
      AsksLevel build (.configured ⟨none, directory⟩) (.defaultOf build)

/-- The settings that a request asks for. Its directory is an absolute path with blank characters around
it or not. -/
structure Asks (build : Build) (request : LogRequest) (wanted : LogSettings) : Prop where
  level : request.AsksLevel build wanted.level
  directory : Text.Trimmed request.directory.toList wanted.directory.toList
  absolute : Path.isAbsolute wanted.directory = true

end LogRequest

namespace Log

/-- A call that sets up logging: its request, the files that are there at that time, and the recorder. -/
structure Attempt where
  request : LogRequest
  files : Files
  recorder : Recorder

/-- An attempt that gets as far as a recorder that starts. -/
structure Attempt.Starts (build : Build) (a : Attempt) (wanted : LogSettings) : Prop where
  asks : a.request.Asks build wanted
  directory : (a.files.makeDirectories [] wanted.directory).1 = .ok ()
  recorder : a.recorder wanted = .ok ()

/-- What an attempt answers. -/
def answer (build : Build) (log : Log) (a : Attempt) : Except LoggingError Unit :=
  (log.setUp build a.recorder a.files a.request).1

/-- The log after an attempt, whether or not it succeeds. -/
def after (build : Build) (log : Log) (a : Attempt) : Log :=
  (log.setUp build a.recorder a.files a.request).2.1

/-- The log after attempts. -/
def afterAll (build : Build) (log : Log) (attempts : List Attempt) : Log :=
  attempts.foldl (after build) log

end Log

/-! ### Names of levels and directories -/

namespace Level

theorem lookup_spellings {word : String} {level : Level} :
    spellings.lookup word = some level ↔ word = level.name ∨ level = .warn ∧ word = "warning" := by
  constructor
  · intro h
    obtain ⟨before, after, hsplit, -⟩ := List.lookup_eq_some_iff.1 h
    have hmem : (word, level) ∈ spellings := by simp [hsplit]
    have hall : ∀ entry ∈ spellings,
        entry.1 = entry.2.name ∨ entry.2 = .warn ∧ entry.1 = "warning" := by decide
    exact hall _ hmem
  · rintro (rfl | ⟨rfl, rfl⟩)
    · cases level <;> rfl
    · rfl

theorem normalize_eq_ok_iff {text : String} {level : Level} :
    normalize text = .ok level ↔ level.Spells text := by
  have hspells : level.Spells text ↔ spellings.lookup
      (String.ofList ((Text.trimChars text.toList).map Char.toLower)) = some level := by
    rw [lookup_spellings, ← String.toList_inj, ← String.toList_inj, String.toList_ofList]
    constructor
    · rintro ⟨word, htrimmed, hword⟩
      rwa [Text.trimChars_eq_iff.2 htrimmed]
    · intro hword
      exact ⟨_, Text.trimmed_trimChars text.toList, hword⟩
  rw [hspells, normalize]
  split
  · next found hfound => rw [hfound, Except.ok.injEq, Option.some.injEq]
  · next hnone => simp [hnone]

/-- The name of a level is a name of no other. -/
theorem spells_name {level other : Level} : other.Spells level.name ↔ other = level := by
  rw [← normalize_eq_ok_iff]
  cases level <;> cases other <;> decide

end Level

namespace Log

theorem normalizeDirectory_eq_ok_iff {text path : String} :
    normalizeDirectory text = .ok path ↔
      Text.Trimmed text.toList path.toList ∧ Path.isAbsolute path = true := by
  have htrimmed : Text.Trimmed text.toList path.toList ↔ Text.trim text = path := by
    rw [← Text.trimChars_eq_iff, ← Text.toList_trim, String.toList_inj]
  rw [htrimmed, normalizeDirectory]
  constructor
  · intro h
    split at h
    · cases h
    · split at h
      · next habsolute =>
        cases h
        exact ⟨rfl, habsolute⟩
      · cases h
  · rintro ⟨rfl, habsolute⟩
    have hnonempty : Text.trim text ≠ "" := by
      intro hempty
      rw [hempty] at habsolute
      cases habsolute
    simp only [if_neg hnonempty, if_pos habsolute]

theorem requested_eq_ok_iff {level directory : String} {wanted : LogSettings} :
    requested level directory = .ok wanted ↔ wanted.level.Spells level ∧
      Text.Trimmed directory.toList wanted.directory.toList ∧
        Path.isAbsolute wanted.directory = true := by
  rw [← Level.normalize_eq_ok_iff, ← normalizeDirectory_eq_ok_iff, requested]
  obtain ⟨wantedLevel, wantedDirectory⟩ := wanted
  cases Level.normalize level with
  | error cause => simp [bind, Except.bind]
  | ok found =>
    cases normalizeDirectory directory with
    | error cause => simp [bind, Except.bind]
    | ok path => simp [bind, Except.bind, pure, Except.pure]

end Log

namespace LogRequest

variable {build : Build} {request : LogRequest} {wanted : LogSettings}

theorem asksLevel_iff {level : Level} :
    request.AsksLevel build level ↔ level.Spells (request.level build) := by
  constructor
  · rintro (spells | spells | _)
    · exact spells
    · exact spells
    · exact Level.spells_name.2 rfl
  · intro h
    obtain ⟨text, directory⟩ | ⟨_ | text, directory⟩ := request
    · exact .named h
    · rw [Level.spells_name.1 h]
      exact .unset
    · exact .configured h

theorem asks_iff :
    request.Asks build wanted ↔ Log.requested (request.level build) request.directory = .ok wanted := by
  rw [Log.requested_eq_ok_iff, ← asksLevel_iff]
  exact ⟨fun h => ⟨h.level, h.directory, h.absolute⟩, fun h => ⟨h.1, h.2.1, h.2.2⟩⟩

/-- A request asks for one thing at most. -/
theorem Asks.unique {other : LogSettings} (h : request.Asks build wanted)
    (hother : request.Asks build other) : wanted = other :=
  Except.ok.inj ((asks_iff.1 h).symm.trans (asks_iff.1 hother))

end LogRequest

namespace Log

variable {build : Build} {log : Log} {a : Attempt} {attempts : List Attempt}
  {active wanted : LogSettings} {files : Files} {recorder : Recorder}

/-! ### One attempt -/

/-- Later requests have to agree on the level and on the path. -/
theorem agree_eq_ok_iff (hactive : Path.isAbsolute active.directory = true)
    (hwanted : Path.isAbsolute wanted.directory = true) :
    agree active wanted = .ok () ↔
      wanted.level = active.level ∧ Path.Alike wanted.directory.toList active.directory.toList := by
  have hsame : Path.same active.directory wanted.directory = true ↔
      Path.Alike wanted.directory.toList active.directory.toList := by
    rw [Path.same_iff_alike hactive hwanted]
    exact ⟨Path.Alike.symm, Path.Alike.symm⟩
  rw [← hsame, agree, and_comm, eq_comm (a := wanted.level)]
  split
  · next hother => simp [by simpa using hother]
  · next hpath =>
    have hpath : Path.same active.directory wanted.directory = true := by simpa using hpath
    split
    · next hlevel => simp [hlevel]
    · next hlevel => simp [hpath, not_not.1 hlevel]

theorem start_eq_ok_iff : (start recorder files wanted).1 = .ok () ↔
    (files.makeDirectories [] wanted.directory).1 = .ok () ∧ recorder wanted = .ok () := by
  rw [start]
  split
  · next hmade => simp [hmade]
  · next hmade =>
    rw [hmade]
    split
    all_goals
      next hrecorder =>
      simp [hrecorder]

/-- What an attempt does to a log, and what it answers. -/
inductive Outcome (build : Build) (log : Log) (a : Attempt) : Except LoggingError Unit → Log → Prop where
  /-- Nothing is asked for. -/
  | refused {cause : LoggingError} (asks : ∀ wanted, ¬ a.request.Asks build wanted) :
      Outcome build log a (.error cause) log
  /-- The log is set up, and the attempt asks for settings. -/
  | compared {active wanted : LogSettings} (set : log.settings = some active)
      (asks : a.request.Asks build wanted) : Outcome build log a (agree active wanted) log
  /-- The log is not set up, and the attempt does not start. -/
  | failed {cause : LoggingError} (unset : log.settings = none)
      (starts : ∀ wanted, ¬ a.Starts build wanted) : Outcome build log a (.error cause) log
  | started {wanted : LogSettings} {after : Log} (unset : log.settings = none)
      (starts : a.Starts build wanted) (set : after.settings = some wanted) :
      Outcome build log a (.ok ()) after

theorem agree_self (settings : LogSettings) : agree settings settings = .ok () := by
  simp [agree, Path.same]

theorem settings_record (log : Log) (r : LogRecord) : (log.record r).settings = log.settings := by
  unfold record
  split
  · split <;> rfl
  · rfl

theorem outcome_setUp (build : Build) (log : Log) (a : Attempt) :
    Outcome build log a (log.answer build a) (log.after build a) := by
  unfold answer after setUp
  split
  · next hrequested =>
    apply Outcome.refused
    intro wanted hasks
    rw [LogRequest.asks_iff, hrequested] at hasks
    cases hasks
  · next wanted hrequested =>
    have hasks := LogRequest.asks_iff.2 hrequested
    split
    · next hset => exact .compared hset hasks
    · next hunset =>
      have hstart : (start a.recorder a.files wanted).1 = .ok () ↔ _ := start_eq_ok_iff
      split
      · next hfailed =>
        rw [hfailed] at hstart
        refine .failed hunset fun other hstarts => ?_
        obtain rfl := hasks.unique hstarts.asks
        cases hstart.2 ⟨hstarts.directory, hstarts.recorder⟩
      · next hstarted =>
        rw [hstarted] at hstart
        obtain ⟨hdirectory, hrecorder⟩ := hstart.1 rfl
        dsimp only
        rw [agree_self]
        exact .started hunset ⟨hasks, hdirectory, hrecorder⟩ (settings_record _ _)

/-- An attempt that fails leaves the log as it was. -/
theorem after_of_failed (h : log.answer build a ≠ .ok ()) : log.after build a = log := by
  have houtcome := outcome_setUp build log a
  generalize log.answer build a = answer, log.after build a = next at h houtcome ⊢
  cases houtcome with
  | refused _ => rfl
  | compared _ _ => rfl
  | failed _ _ => rfl
  | started _ _ _ => exact absurd rfl h

/-- An attempt that does not start leaves the log as it was. -/
theorem after_of_not_starts (h : ∀ wanted, ¬ a.Starts build wanted) : log.after build a = log := by
  have houtcome := outcome_setUp build log a
  generalize log.answer build a = answer, log.after build a = next at houtcome ⊢
  cases houtcome with
  | refused _ => rfl
  | compared _ _ => rfl
  | failed _ _ => rfl
  | started _ starts _ => exact absurd starts (h _)

/-- An attempt leaves a log that is set up as it was. -/
theorem after_of_set (h : log.settings = some active) : log.after build a = log := by
  have houtcome := outcome_setUp build log a
  generalize log.answer build a = answer, log.after build a = next at houtcome ⊢
  cases houtcome with
  | refused _ => rfl
  | compared _ _ => rfl
  | failed unset _ => cases h.symm.trans unset
  | started unset _ _ => cases h.symm.trans unset

/-- An attempt that starts sets up a log that is not set up. -/
theorem settings_after_of_starts (h : log.settings = none) (hstarts : a.Starts build wanted) :
    (log.after build a).settings = some wanted := by
  have houtcome := outcome_setUp build log a
  generalize log.answer build a = answer, log.after build a = next at houtcome ⊢
  cases houtcome with
  | refused asks => exact absurd hstarts.asks (asks wanted)
  | compared set _ => cases h.symm.trans set
  | failed _ starts => exact absurd hstarts (starts wanted)
  | started _ starts set => rw [set, starts.asks.unique hstarts.asks]

/-- As long as the log is not set up, an attempt succeeds if it starts. -/
theorem answer_eq_ok_iff_of_unset (h : log.settings = none) :
    log.answer build a = .ok () ↔ ∃ wanted, a.Starts build wanted := by
  have houtcome := outcome_setUp build log a
  generalize log.answer build a = answer, log.after build a = next at houtcome ⊢
  cases houtcome with
  | refused asks => simpa using fun wanted starts => asks wanted starts.asks
  | compared set _ => cases h.symm.trans set
  | failed _ starts => simpa using starts
  | started _ starts _ => simpa using ⟨_, starts⟩

/-- Once the log is set up, an attempt succeeds if it asks for the same level and the same path. -/
theorem answer_eq_ok_iff_of_set (h : log.settings = some active)
    (hactive : Path.isAbsolute active.directory = true) :
    log.answer build a = .ok () ↔ ∃ wanted, a.request.Asks build wanted ∧
      wanted.level = active.level ∧ Path.Alike wanted.directory.toList active.directory.toList := by
  have houtcome := outcome_setUp build log a
  generalize log.answer build a = answer, log.after build a = next at houtcome ⊢
  cases houtcome with
  | refused asks => simpa using fun wanted hasks => absurd hasks (asks wanted)
  | failed unset _ => cases h.symm.trans unset
  | started unset _ _ => cases h.symm.trans unset
  | compared set asks =>
    obtain rfl : active = _ := Option.some.inj (h.symm.trans set)
    rw [agree_eq_ok_iff hactive asks.absolute]
    constructor
    · intro hagree
      exact ⟨_, asks, hagree⟩
    · rintro ⟨other, hother, hagree⟩
      rwa [asks.unique hother]

/-! ### All attempts -/

theorem afterAll_append (build : Build) (log : Log) (attempts later : List Attempt) :
    log.afterAll build (attempts ++ later) = (log.afterAll build attempts).afterAll build later :=
  List.foldl_append

/-- Attempts that do not start leave the log as it was. -/
theorem afterAll_of_not_starts (h : ∀ a ∈ attempts, ∀ wanted, ¬ a.Starts build wanted) :
    log.afterAll build attempts = log := by
  induction attempts with
  | nil => rfl
  | cons a attempts ih =>
    rw [List.forall_mem_cons] at h
    rw [afterAll, List.foldl_cons, after_of_not_starts h.1]
    exact ih h.2

/-- Attempts leave a log that is set up as it was. -/
theorem afterAll_of_set (h : log.settings = some active) : log.afterAll build attempts = log := by
  induction attempts with
  | nil => rfl
  | cons a attempts ih =>
    rw [afterAll, List.foldl_cons, after_of_set h]
    exact ih

/-- The settings are those of the first attempt that starts. -/
theorem settings_afterAll_of_starts {before later : List Attempt} {first : Attempt}
    (h : log.settings = none) (hbefore : ∀ a ∈ before, ∀ wanted, ¬ a.Starts build wanted)
    (hfirst : first.Starts build wanted) :
    (log.afterAll build (before ++ first :: later)).settings = some wanted := by
  have hset := settings_after_of_starts h hfirst
  rw [afterAll_append, afterAll_of_not_starts hbefore, afterAll, List.foldl_cons]
  exact (congrArg settings (afterAll_of_set hset)).trans hset

/-- No attempt starts, or one of them is the first that does. -/
theorem exists_first (build : Build) (attempts : List Attempt) :
    (∀ a ∈ attempts, ∀ wanted, ¬ a.Starts build wanted) ∨
      ∃ before first later wanted, attempts = before ++ first :: later ∧
        (∀ a ∈ before, ∀ other, ¬ a.Starts build other) ∧ first.Starts build wanted := by
  induction attempts with
  | nil => exact .inl (List.forall_mem_nil _)
  | cons a attempts ih =>
    by_cases hstarts : ∃ wanted, a.Starts build wanted
    · obtain ⟨wanted, hwanted⟩ := hstarts
      exact .inr ⟨[], a, attempts, wanted, rfl, List.forall_mem_nil _, hwanted⟩
    · rw [not_exists] at hstarts
      rcases ih with hnone | ⟨before, first, later, wanted, rfl, hbefore, hfirst⟩
      · exact .inl (List.forall_mem_cons.2 ⟨hstarts, hnone⟩)
      · exact .inr ⟨a :: before, first, later, wanted, rfl,
          List.forall_mem_cons.2 ⟨hstarts, hbefore⟩, hfirst⟩

/-- What the attempts of a process have made of its log, and what a further one makes of it. -/
structure WrittenOnce (build : Build) (attempts : List Attempt) (log : Log) : Prop where
  /-- The log is not set up as long as no attempt has started. -/
  unset_iff : log.settings = none ↔ ∀ a ∈ attempts, ∀ wanted, ¬ a.Starts build wanted
  /-- The settings are those with which the first attempt that starts does so. -/
  set_iff : ∀ active, log.settings = some active ↔ ∃ before first later,
    attempts = before ++ first :: later ∧ (∀ a ∈ before, ∀ wanted, ¬ a.Starts build wanted) ∧
      first.Starts build active
  /-- No attempt changes the settings. -/
  forever : ∀ active, log.settings = some active →
    ∀ later, (log.afterAll build later).settings = some active
  /-- An attempt that fails changes nothing. -/
  failed : ∀ a, log.answer build a ≠ .ok () → log.after build a = log
  /-- Before that, an attempt succeeds if it starts. -/
  first_iff : log.settings = none →
    ∀ a, log.answer build a = .ok () ↔ ∃ wanted, a.Starts build wanted
  /-- After that, it succeeds if it asks for the same level and for the same path. -/
  later_iff : ∀ active, log.settings = some active → ∀ a, log.answer build a = .ok () ↔
    ∃ wanted, a.request.Asks build wanted ∧ wanted.level = active.level ∧
      Path.Alike wanted.directory.toList active.directory.toList

/-- The log of a process is set up once, by the first attempt that starts. -/
theorem writtenOnce_afterAll (build : Build) (attempts : List Attempt) :
    WrittenOnce build attempts (silent.afterAll build attempts) := by
  have hset : ∀ active, (silent.afterAll build attempts).settings = some active →
      ∃ before first later, attempts = before ++ first :: later ∧
        (∀ a ∈ before, ∀ wanted, ¬ a.Starts build wanted) ∧ first.Starts build active := by
    intro active hactive
    rcases exists_first build attempts with
      hnone | ⟨before, first, later, wanted, rfl, hbefore, hfirst⟩
    · rw [afterAll_of_not_starts hnone] at hactive
      cases hactive
    · obtain rfl : wanted = active := Option.some.inj
        ((settings_afterAll_of_starts rfl hbefore hfirst).symm.trans hactive)
      exact ⟨before, first, later, rfl, hbefore, hfirst⟩
  constructor
  case unset_iff =>
    constructor
    · intro hunset
      rcases exists_first build attempts with
        hnone | ⟨before, first, later, wanted, rfl, hbefore, hfirst⟩
      · exact hnone
      · cases (settings_afterAll_of_starts rfl hbefore hfirst).symm.trans hunset
    · intro hnone
      rw [afterAll_of_not_starts hnone]
      rfl
  case set_iff =>
    intro active
    constructor
    · exact hset active
    · rintro ⟨before, first, later, rfl, hbefore, hfirst⟩
      exact settings_afterAll_of_starts rfl hbefore hfirst
  case forever =>
    intro active hactive later
    rw [afterAll_of_set hactive]
    exact hactive
  case failed => exact fun _ => after_of_failed
  case first_iff => exact fun hunset _ => answer_eq_ok_iff_of_unset hunset
  case later_iff =>
    intro active hactive a
    obtain ⟨_, first, _, _, _, hfirst⟩ := hset active hactive
    exact answer_eq_ok_iff_of_set hactive hfirst.asks.absolute

/-- An attempt with a name that is no level comes to nothing; the next one sets up the log, and a
configuration that writes the same level and directory in another way is accepted. -/
theorem writtenOnce_warning :
    let log := silent.afterAll .release
      [⟨.named "verbose" "/logs", .empty, .ready⟩, ⟨.named " WARNING " "/logs//", .empty, .ready⟩]
    log.settings = some ⟨.warn, "/logs//"⟩ ∧
      log.answer .release ⟨.configured ⟨some "warn", "/./logs "⟩, .empty, .ready⟩ = .ok () := by
  have honce := writtenOnce_afterAll .release
    [⟨.named "verbose" "/logs", .empty, .ready⟩, ⟨.named " WARNING " "/logs//", .empty, .ready⟩]
  have hverbose : ∀ wanted, ¬ Attempt.Starts .release
      ⟨.named "verbose" "/logs", .empty, .ready⟩ wanted := by
    intro wanted hstarts
    cases LogRequest.asks_iff.1 hstarts.asks
  have hwarning : Attempt.Starts .release
      ⟨.named " WARNING " "/logs//", .empty, .ready⟩ ⟨.warn, "/logs//"⟩ :=
    ⟨LogRequest.asks_iff.2 rfl, rfl, rfl⟩
  have hset := (honce.set_iff _).2
    ⟨[_], _, [], rfl, List.forall_mem_singleton.2 hverbose, hwarning⟩
  refine ⟨hset, (honce.later_iff _ hset _).2 ⟨⟨.warn, "/./logs"⟩, LogRequest.asks_iff.2 rfl, rfl, ?_⟩⟩
  exact (Path.same_iff_alike rfl rfl).1 (by decide)

end Log

end Lineage
