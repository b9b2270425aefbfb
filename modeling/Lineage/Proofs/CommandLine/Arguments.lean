/-
Which arguments ask for which command.

`Invocation.Spells` says by rules how the arguments of an invocation may be written: the options in any
order and in either form, those of the program also after the name of the command. `request_eq_iff` says
that the reader accepts these arguments, and no others.
-/

import Lineage.Proofs.CommandLine.Levels

namespace Lineage.CommandLine

/-! ### Spelling -/

/-- Options that hold the values of some names, each name once, and hold nothing else. -/
structure Holds (options : List (String × String)) (values : List (String × Option String)) : Prop where
  once : (options.map Prod.fst).Nodup
  mem_iff : ∀ name value, (name, value) ∈ options ↔ (name, some value) ∈ values

/-- The name of a command, the values of its options, and its operands. -/
inductive Command.Takes : Command → String → List (String × Option String) → List String → Prop where
  | ping : Takes .ping "ping" [] []
  | persist {file : String} {mode : Option String} (hfile : file ≠ "") :
      Takes (.persist file mode) "persist" [("mode", mode)] [file]
  | get {id : Uuid} {text : String} (hid : Uuid.parse? text = some id) :
      Takes (.get id) "get" [] [text]
  | list {definitionId tenantId version : Option String} :
      Takes (.list definitionId tenantId version) "list"
        [("definition-id", definitionId), ("tenant-id", tenantId), ("version", version)] []
  | deleteOne {id : Uuid} {text : String} (hid : Uuid.parse? text = some id) :
      Takes (.deleteOne id) "delete"
        [("id", some text), ("definition-id", none), ("tenant-id", none)] []
  | deleteMany {definitionId : String} {tenantId : Option String} :
      Takes (.deleteMany definitionId tenantId) "delete"
        [("id", none), ("definition-id", some definitionId), ("tenant-id", tenantId)] []

/-- Arguments that ask for an invocation. The options of the program stand in front of the name of the
command or after it, where they count first. -/
inductive Invocation.Spells : Invocation → List String → Prop where
  | mk {command : Command} {config database config' database' : Option String} {name : String}
      {values : List (String × Option String)} {before after : List (String × String)}
      {operands rest args : List String} (takes : command.Takes name values operands)
      (hbefore : Holds before [("config", config), ("db", database)])
      (hafter : Holds after (("config", config') :: ("db", database') :: values))
      (paths : some "" ∉ [config, database, config', database'])
      (first : Gives (name :: rest) before [] args) (second : GivesAll after operands rest) :
      Spells ⟨config'.or config, database'.or database, command⟩ args

/-! ### Options -/

section Requests

variable {g : Grammar} {s : Scanned} {name : String} {command : Command}
  {values : List (String × Option String)} {options : List (String × String)} {operands : List String}
  {config database : Option String}

/-- Each name has the value that it should have. -/
theorem Holds.lookup (h : Holds options values) (hvalues : (values.map Prod.fst).Nodup)
    {value : Option String} (hmem : (name, value) ∈ values) : options.lookup name = value := by
  ext held
  rw [lookup_eq_some_iff_mem h.once, h.mem_iff]
  constructor
  · intro hheld
    exact congrArg Prod.snd (List.inj_on_of_nodup_map hvalues hheld hmem rfl).symm
  · rintro rfl
    exact hmem

/-- Options that fit hold the values that are found for the names of the level. -/
theorem holds_of_fits (h : g.Fits s) :
    Holds s.options (g.options.map fun o => (o.1, s.options.lookup o.1)) where
  once := h.once
  mem_iff name value := by
    rw [← lookup_eq_some_iff_mem h.once, List.mem_map]
    constructor
    · intro hlookup
      have haccepted := h.accepted _ ((lookup_eq_some_iff_mem h.once).1 hlookup)
      cases hkind : g.options.lookup name with
      | none =>
        rw [hkind] at haccepted
        cases haccepted
      | some kind => exact ⟨(name, kind), mem_of_lookup hkind, by rw [hlookup]⟩
    · rintro ⟨o, -, ho⟩
      obtain ⟨rfl, hvalue⟩ := Prod.mk.inj ho
      exact hvalue

theorem fits_of_holds (h : Holds s.options values)
    (hvalues : ∀ name value, (name, some value) ∈ values →
      (g.options.lookup name).any (·.accepts value) = true)
    (hoperands : ∀ (k : Nat) value, s.operands[k]? = some value →
      (g.operands[k]?).any (·.accepts value) = true) : g.Fits s where
  accepted o ho := hvalues o.1 o.2 ((h.mem_iff _ _).1 ho)
  once := h.once
  operands := hoperands

theorem lookup_ne_empty (hfits : g.Fits s) (h : (g.options.lookup name).any (·.accepts "") = false) :
    s.options.lookup name ≠ some "" := by
  intro hempty
  have haccepted := hfits.accepted _ ((lookup_eq_some_iff_mem hfits.once).1 hempty)
  rw [h] at haccepted
  cases haccepted

/-! ### Commands -/

theorem clear_programGrammar : programGrammar.Clear where
  names := by decide
  once := by decide
  commands command h := by
    have hcommands : ∀ command ∈ programGrammar.commands, looksLikeOption command = false := by decide
    exact looksLikeOption_eq_false_iff.1 (hcommands command h)
  apart := .inr rfl

theorem clear_commandGrammar (name : String) : (commandGrammar name).Clear := by
  have hoptions : (∀ o ∈ (commandGrammar name).options, o.1 ≠ "" ∧ o.1 ≠ "help" ∧ '=' ∉ o.1.toList) ∧
      ((commandGrammar name).options.map Prod.fst).Nodup := by
    unfold commandGrammar
    split
    next heq => split at heq <;> (cases heq; decide)
  exact ⟨hoptions.1, hoptions.2, List.forall_mem_nil _, .inl rfl⟩

/-- What is read after the name of a command gives the command its options and operands. -/
theorem takes_of_command? (hfits : (commandGrammar name).Fits s) (h : command? name s = some command) :
    ∃ values, command.Takes name values s.operands ∧
      Holds s.options (("config", s.options.lookup "config") ::
        ("db", s.options.lookup "db") :: values) := by
  have hholds := holds_of_fits hfits
  unfold command? at h
  split at h
  · next hoperands =>
    obtain rfl := Option.some.inj h
    exact ⟨_, hoperands ▸ .ping, hholds⟩
  · next file hoperands =>
    obtain rfl := Option.some.inj h
    have hfile : ValueKind.path.accepts file = true := hfits.operands 0 file (by rw [hoperands]; rfl)
    exact ⟨_, hoperands ▸ .persist (by simpa [ValueKind.accepts] using hfile), hholds⟩
  · next text hoperands =>
    obtain ⟨id, hid, rfl⟩ := Option.map_eq_some_iff.1 h
    exact ⟨_, hoperands ▸ .get hid, hholds⟩
  · next hoperands =>
    obtain rfl := Option.some.inj h
    exact ⟨_, hoperands ▸ .list, hholds⟩
  · next hoperands =>
    have hvalues : Holds s.options [("config", s.options.lookup "config"),
      ("db", s.options.lookup "db"), ("id", s.options.lookup "id"),
      ("definition-id", s.options.lookup "definition-id"),
      ("tenant-id", s.options.lookup "tenant-id")] := hholds
    dsimp only at h
    generalize s.options.lookup "id" = text at h hvalues
    generalize s.options.lookup "definition-id" = definitionId at h hvalues
    generalize s.options.lookup "tenant-id" = tenantId at h hvalues
    split at h
    · obtain ⟨id, hid, rfl⟩ := Option.map_eq_some_iff.1 h
      exact ⟨_, hoperands ▸ .deleteOne hid, hvalues⟩
    · obtain rfl := Option.some.inj h
      exact ⟨_, hoperands ▸ .deleteMany, hvalues⟩
    · cases h
  · cases h

namespace Command.Takes

theorem names (takes : command.Takes name values operands) :
    (("config", config) :: ("db", database) :: values).map Prod.fst =
      (commandGrammar name).options.map Prod.fst := by
  cases takes <;> rfl

theorem accepts_global (takes : command.Takes name values operands) (value : String) :
    ((commandGrammar name).options.lookup "config").any (·.accepts value) = decide (value ≠ "") ∧
      ((commandGrammar name).options.lookup "db").any (·.accepts value) = decide (value ≠ "") := by
  cases takes <;> exact ⟨rfl, rfl⟩

theorem accepts_own (takes : command.Takes name values operands) {o value : String}
    (h : (o, some value) ∈ values) :
    ((commandGrammar name).options.lookup o).any (·.accepts value) = true := by
  cases takes with
  | ping => cases h
  | persist =>
    obtain rfl : o = "mode" := (by simpa using h : o = "mode" ∧ _).1
    rfl
  | get => cases h
  | list =>
    simp only [List.mem_cons, Prod.mk.injEq, List.not_mem_nil, or_false] at h
    rcases h with ⟨rfl, -⟩ | ⟨rfl, -⟩ | ⟨rfl, -⟩ <;> rfl
  | deleteOne hid =>
    obtain ⟨rfl, rfl⟩ := (by simpa using h : o = "id" ∧ value = _)
    exact Option.isSome_iff_exists.2 ⟨_, hid⟩
  | deleteMany =>
    simp only [List.mem_cons, Prod.mk.injEq, List.not_mem_nil, or_false, reduceCtorEq, and_false,
      false_or] at h
    rcases h with ⟨rfl, -⟩ | ⟨rfl, -⟩ <;> rfl

theorem accepts_operand (takes : command.Takes name values operands) (k : Nat) (value : String)
    (h : operands[k]? = some value) :
    ((commandGrammar name).operands[k]?).any (·.accepts value) = true := by
  cases takes with
  | ping | list | deleteOne | deleteMany => cases h
  | persist hfile =>
    rw [List.getElem?_singleton, Option.ite_none_right_eq_some] at h
    obtain ⟨rfl, ⟨⟩⟩ := h
    exact decide_eq_true hfile
  | get hid =>
    rw [List.getElem?_singleton, Option.ite_none_right_eq_some] at h
    obtain ⟨rfl, ⟨⟩⟩ := h
    exact Option.isSome_iff_exists.2 ⟨_, hid⟩

theorem fits (takes : command.Takes name values operands)
    (hholds : Holds options (("config", config) :: ("db", database) :: values))
    (hconfig : config ≠ some "") (hdatabase : database ≠ some "") :
    (commandGrammar name).Fits ⟨options, operands, none⟩ := by
  refine fits_of_holds hholds (fun o value h => ?_) takes.accepts_operand
  simp only [List.mem_cons, Prod.mk.injEq] at h
  rcases h with ⟨rfl, rfl⟩ | ⟨rfl, rfl⟩ | h
  · exact (takes.accepts_global value).1.trans (decide_eq_true fun h => hconfig (congrArg some h))
  · exact (takes.accepts_global value).2.trans (decide_eq_true fun h => hdatabase (congrArg some h))
  · exact takes.accepts_own h

theorem lookup (takes : command.Takes name values operands)
    (hholds : Holds options (("config", config) :: ("db", database) :: values)) {o : String}
    {value : Option String} (h : (o, value) ∈ ("config", config) :: ("db", database) :: values) :
    options.lookup o = value :=
  hholds.lookup (takes.names ▸ (clear_commandGrammar name).once) h

/-- A command is read from its options and operands. -/
theorem command?_eq (takes : command.Takes name values operands)
    (hholds : Holds options (("config", config) :: ("db", database) :: values)) :
    command? name ⟨options, operands, none⟩ = some command := by
  have hlookup {o : String} {value : Option String} (h : (o, value) ∈ values) :
      options.lookup o = value :=
    takes.lookup hholds (List.mem_cons_of_mem _ (List.mem_cons_of_mem _ h))
  cases takes with
  | ping => rfl
  | persist => simp only [command?, hlookup List.mem_cons_self]
  | get hid => simp only [command?, hid, Option.map_some]
  | list =>
    have hdefinition := hlookup List.mem_cons_self
    have htenant := hlookup (List.mem_cons_of_mem _ List.mem_cons_self)
    have hversion := hlookup (List.mem_cons_of_mem _ (List.mem_cons_of_mem _ List.mem_cons_self))
    simp only [command?, hdefinition, htenant, hversion]
  | deleteOne hid =>
    have hone := hlookup List.mem_cons_self
    have hdefinition := hlookup (List.mem_cons_of_mem _ List.mem_cons_self)
    have htenant := hlookup (List.mem_cons_of_mem _ (List.mem_cons_of_mem _ List.mem_cons_self))
    simp only [command?, hone, hdefinition, htenant, hid, Option.map_some]
  | deleteMany =>
    have hone := hlookup List.mem_cons_self
    have hdefinition := hlookup (List.mem_cons_of_mem _ List.mem_cons_self)
    have htenant := hlookup (List.mem_cons_of_mem _ (List.mem_cons_of_mem _ List.mem_cons_self))
    simp only [command?, hone, hdefinition, htenant]

end Command.Takes

/-! ### Requests -/

theorem fits_program {before : Scanned}
    (hbefore : Holds before.options [("config", config), ("db", database)])
    (hoperands : before.operands = []) (hconfig : config ≠ some "") (hdatabase : database ≠ some "") :
    programGrammar.Fits before := by
  refine fits_of_holds hbefore (fun o value h => ?_) (by rw [hoperands]; nofun)
  simp only [List.mem_cons, Prod.mk.injEq, List.not_mem_nil, or_false] at h
  rcases h with ⟨rfl, rfl⟩ | ⟨rfl, rfl⟩
  · exact decide_eq_true fun (h : value = "") => hconfig (congrArg some h)
  · exact decide_eq_true fun (h : value = "") => hdatabase (congrArg some h)

theorem gives_of_scan_program {args rest : List String} {program before : Scanned}
    (hprogram : scan programGrammar .empty args = .command program name rest)
    (hbefore : program.settle programGrammar = some before) :
    Gives (name :: rest) before.options [] args ∧ programGrammar.Fits before := by
  have hreads := reads_of_empty ((congrArg (Scan.settled? programGrammar) hprogram).trans hbefore)
  rw [hprogram] at hreads
  obtain @⟨options, operands, more, _, gives, ends, rfl, fits⟩ := hreads
  cases ends with
  | command =>
    have hoperands : operands = [] := by
      cases operands with
      | nil => rfl
      | cons value operands => cases fits.operands 0 value rfl
    subst hoperands
    exact ⟨gives, fits⟩

theorem spells_of_request {i : Invocation} {args : List String} (h : request args = .invoke i) :
    i.Spells args := by
  unfold request at h
  split at h
  · cases h
  · cases h
  · cases h
  · cases h
  next program name rest hprogram =>
  split at h
  · unfold helpRequest at h
    split at h
    · cases h
    · split at h <;> cases h
    · cases h
  split at h
  · next after hafter =>
    split at h
    · next before command hbefore hcommand =>
      obtain rfl := Request.invoke.inj h
      obtain ⟨first, hfirst⟩ := gives_of_scan_program hprogram hbefore
      obtain ⟨second, hsecond⟩ := givesAll_of_scan hafter
      obtain ⟨values, takes, hholds⟩ := takes_of_command? hsecond hcommand
      have haccepts := takes.accepts_global ""
      have paths : some "" ∉ [before.options.lookup "config", before.options.lookup "db",
          after.options.lookup "config", after.options.lookup "db"] := by
        simp only [List.mem_cons, List.not_mem_nil, or_false, not_or]
        exact ⟨(lookup_ne_empty hfirst rfl).symm, (lookup_ne_empty hfirst rfl).symm,
          (lookup_ne_empty hsecond haccepts.1).symm, (lookup_ne_empty hsecond haccepts.2).symm⟩
      exact .mk takes (holds_of_fits hfirst) hholds paths first second
    · cases h
  · cases h
  · cases h

theorem request_of_spells {i : Invocation} {args : List String} (h : i.Spells args) :
    request args = .invoke i := by
  obtain @⟨command, config, database, config', database', name, values, before, after, operands, rest,
    _, takes, hbefore, hafter, paths, first, second⟩ := h
  simp only [List.mem_cons, List.not_mem_nil, or_false, not_or, eq_comm (a := some "")] at paths
  obtain ⟨hconfig, hdatabase, hconfig', hdatabase'⟩ := paths
  have hname : name ∈ programGrammar.commands := by cases takes <;> decide
  have hhelp : name ≠ "help" := by cases takes <;> decide
  have hfirst : programGrammar.Fits ⟨before, [], none⟩ := fits_program hbefore rfl hconfig hdatabase
  obtain ⟨program, hsettle, hprogram⟩ :=
    scan_of_gives clear_programGrammar first (settle_empty _) hfirst
  rw [scan, if_pos (List.contains_iff_mem.2 hname)] at hprogram
  replace hsettle : program.settle programGrammar = some ⟨before, [], none⟩ := hsettle
  have hsecond := takes.fits hafter hconfig' hdatabase'
  have hrest := scan_of_givesAll (clear_commandGrammar name) second hsecond
  have hglobal : before.lookup "config" = config ∧ before.lookup "db" = database :=
    ⟨hbefore.lookup clear_programGrammar.once List.mem_cons_self,
      hbefore.lookup clear_programGrammar.once (List.mem_cons_of_mem _ List.mem_cons_self)⟩
  have hlocal : after.lookup "config" = config' ∧ after.lookup "db" = database' :=
    ⟨takes.lookup hafter List.mem_cons_self,
      takes.lookup hafter (List.mem_cons_of_mem _ List.mem_cons_self)⟩
  simp only [request, hprogram, if_neg hhelp, hrest, hsettle, takes.command?_eq hafter, global, hglobal,
    hlocal]

/-- The reader accepts the arguments that spell an invocation, and no others. -/
theorem request_eq_iff {i : Invocation} {args : List String} :
    request args = .invoke i ↔ i.Spells args :=
  ⟨spells_of_request, request_of_spells⟩

end Requests

end Lineage.CommandLine
