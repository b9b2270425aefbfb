/-
How one level of the command line is read.

`Gives` says how options and operands may be written one after the other, and `GivesAll` how they make up
a whole level. What a level is read from is what gives it (`scan_of_gives`), and whatever is read of a
level is given by its arguments (`reads_of_scan`). The value that has been taken last need not be checked
yet, so both speak of what is read once it is (`Scanned.settle`).
-/

import Lineage.CommandLine.Arguments
import Mathlib.Data.List.Nodup
import Mathlib.Data.List.TakeWhile

namespace Lineage.CommandLine

/-! ### Spelling -/

/-- An argument that is not taken for an option. -/
def Plain (arg : String) : Prop :=
  ∀ c cs, arg.toList ≠ '-' :: c :: cs

/-- Arguments that give options and operands, and what is left after them. -/
inductive Gives (rest : List String) :
    List (String × String) → List String → List String → Prop where
  | done : Gives rest [] [] rest
  | joined {name value : String} {options : List (String × String)} {operands args : List String}
      (next : Gives rest options operands args) :
      Gives rest ((name, value) :: options) operands (("--" ++ name ++ "=" ++ value) :: args)
  | apart {name value : String} {options : List (String × String)} {operands args : List String}
      (plain : Plain value) (next : Gives rest options operands args) :
      Gives rest ((name, value) :: options) operands (("--" ++ name) :: value :: args)
  | operand {value : String} {options : List (String × String)} {operands args : List String}
      (plain : Plain value) (next : Gives rest options operands args) :
      Gives rest options (value :: operands) (value :: args)

/-- Arguments that give options and operands. After two hyphens all of them are operands. -/
inductive GivesAll (options : List (String × String)) : List String → List String → Prop where
  | plain {operands args : List String} (h : Gives [] options operands args) :
      GivesAll options operands args
  | closed {operands more args : List String} (h : Gives ("--" :: more) options operands args) :
      GivesAll options (operands ++ more) args

/-! ### Levels -/

theorem mem_of_lookup {β : Type} {l : List (String × β)} {name : String} {v : β}
    (h : l.lookup name = some v) : (name, v) ∈ l := by
  obtain ⟨before, after, rfl, -⟩ := List.lookup_eq_some_iff.1 h
  exact List.mem_append_right _ List.mem_cons_self

/-- Where no name occurs twice, a lookup finds whatever is there. -/
theorem lookup_eq_some_iff_mem {options : List (String × String)}
    (h : (options.map Prod.fst).Nodup) {name value : String} :
    options.lookup name = some value ↔ (name, value) ∈ options := by
  refine ⟨mem_of_lookup, fun hvalue => ?_⟩
  obtain ⟨v, hv⟩ := Option.isSome_iff_exists.1 (List.lookup_isSome_iff.2 ⟨_, hvalue, beq_self_eq_true _⟩)
  rw [hv]
  exact congrArg (some ∘ Prod.snd) (List.inj_on_of_nodup_map h (mem_of_lookup hv) hvalue rfl)

/-- Options and operands that fit on a level. -/
structure Grammar.Fits (g : Grammar) (s : Scanned) : Prop where
  accepted : ∀ o ∈ s.options, (g.options.lookup o.1).any (·.accepts o.2) = true
  once : (s.options.map Prod.fst).Nodup
  operands : ∀ (k : Nat) value, s.operands[k]? = some value →
    (g.operands[k]?).any (·.accepts value) = true

/-- A level whose options and commands are not taken for each other, nor its operands for commands. -/
structure Grammar.Clear (g : Grammar) : Prop where
  names : ∀ o ∈ g.options, o.1 ≠ "" ∧ o.1 ≠ "help" ∧ '=' ∉ o.1.toList
  once : (g.options.map Prod.fst).Nodup
  commands : ∀ command ∈ g.commands, Plain command
  apart : g.commands = [] ∨ g.operands = []

/-- What has been read with options and operands after it. -/
def Scanned.add (s : Scanned) (options : List (String × String)) (operands : List String) : Scanned :=
  ⟨s.options ++ options, s.operands ++ operands, none⟩

namespace Scanned

variable {g : Grammar} {s t : Scanned} {name value : String}

theorem add_nil (h : s.pending = none) : s.add [] [] = s := by
  obtain ⟨options, operands, pending⟩ := s
  subst h
  simp [add]

theorem add_option (s : Scanned) (o : String × String) (options : List (String × String))
    (operands : List String) : (s.add [o] []).add options operands = s.add (o :: options) operands := by
  simp [add]

theorem add_operand (s : Scanned) (value : String) (options : List (String × String))
    (operands : List String) :
    (s.add [] [value]).add options operands = s.add options (value :: operands) := by
  simp [add]

theorem settle_of_none (h : s.pending = none) : s.settle g = some s := by
  obtain ⟨options, operands, pending⟩ := s
  subst h
  rfl

/-- What fits still fits without what was read last. -/
theorem fits_of_add {options : List (String × String)} {operands : List String}
    (h : g.Fits (s.add options operands)) : g.Fits s where
  accepted o ho := h.accepted o (List.mem_append_left _ ho)
  once := by
    have honce := h.once
    rw [add, List.map_append] at honce
    exact honce.of_append_left
  operands k value hvalue := by
    obtain ⟨hk, -⟩ := List.getElem?_eq_some_iff.1 hvalue
    exact h.operands k value ((List.getElem?_append_left hk).trans hvalue)

theorem fits_option :
    g.Fits (s.add [(name, value)] []) ↔
      g.Fits s ∧ (g.options.lookup name).any (·.accepts value) = true ∧ s.options.lookup name = none := by
  have hfresh : s.options.lookup name = none ↔ ∀ o ∈ s.options, o.1 ≠ name := by
    simp only [List.lookup_eq_none_iff, bne_iff_ne, ne_comm]
  have honce : ((s.options ++ [(name, value)]).map Prod.fst).Nodup ↔
      (s.options.map Prod.fst).Nodup ∧ ∀ o ∈ s.options, o.1 ≠ name := by
    simp [List.nodup_append]
  rw [hfresh]
  constructor
  · rintro ⟨accepted, once, operands⟩
    simp only [add, List.forall_mem_append, List.forall_mem_singleton, List.append_nil]
      at accepted once operands
    exact ⟨⟨accepted.1, (honce.1 once).1, operands⟩, accepted.2, (honce.1 once).2⟩
  · rintro ⟨⟨accepted, once, operands⟩, haccepts, hfresh⟩
    refine ⟨?_, honce.2 ⟨once, hfresh⟩, ?_⟩
    · simpa only [add, List.forall_mem_append, List.forall_mem_singleton] using ⟨accepted, haccepts⟩
    · simpa only [add, List.append_nil] using operands

theorem fits_operand :
    g.Fits (s.add [] [value]) ↔
      g.Fits s ∧ (g.operands[s.operands.length]?).any (·.accepts value) = true := by
  have hoperands : (∀ (k : Nat) v, (s.operands ++ [value])[k]? = some v →
      (g.operands[k]?).any (·.accepts v) = true) ↔
        (∀ (k : Nat) v, s.operands[k]? = some v → (g.operands[k]?).any (·.accepts v) = true) ∧
          (g.operands[s.operands.length]?).any (·.accepts value) = true := by
    constructor
    · intro h
      refine ⟨fun k v hv => ?_, h _ _ List.getElem?_concat_length⟩
      obtain ⟨hk, -⟩ := List.getElem?_eq_some_iff.1 hv
      exact h k v ((List.getElem?_append_left hk).trans hv)
    · rintro ⟨h, hlast⟩ k v hv
      obtain ⟨hk, -⟩ := List.getElem?_eq_some_iff.1 hv
      rw [List.length_append, List.length_singleton] at hk
      rcases Nat.lt_succ_iff_lt_or_eq.1 hk with hk | rfl
      · exact h k v ((List.getElem?_append_left hk).symm.trans hv)
      · rw [List.getElem?_concat_length] at hv
        exact Option.some.inj hv ▸ hlast
  constructor
  · rintro ⟨accepted, once, operands⟩
    rw [add, List.append_nil] at accepted once
    exact ⟨⟨accepted, once, (hoperands.1 operands).1⟩, (hoperands.1 operands).2⟩
  · rintro ⟨⟨accepted, once, operands⟩, haccepts⟩
    refine ⟨?_, ?_, hoperands.2 ⟨operands, haccepts⟩⟩
    · rwa [add, List.append_nil]
    · rwa [add, List.append_nil]

theorem addOption_eq_some_iff (hpending : s.pending = none) (h : g.Fits s) :
    s.addOption g name value = some t ↔ t = s.add [(name, value)] [] ∧ g.Fits t := by
  have hadd : s.add [(name, value)] [] = { s with options := s.options ++ [(name, value)] } := by
    simp [add, hpending]
  rw [addOption, Option.ite_none_right_eq_some, Option.isNone_iff_eq_none, ← hadd, Option.some.injEq,
    eq_comm (b := t)]
  constructor
  · rintro ⟨haccepts, rfl⟩
    exact ⟨rfl, fits_option.2 ⟨h, haccepts⟩⟩
  · rintro ⟨rfl, hfits⟩
    exact ⟨(fits_option.1 hfits).2, rfl⟩

theorem addOperand_eq_some_iff (hpending : s.pending = none) (h : g.Fits s) :
    s.addOperand g value = some t ↔ t = s.add [] [value] ∧ g.Fits t := by
  have hadd : s.add [] [value] = { s with operands := s.operands ++ [value] } := by
    simp [add, hpending]
  rw [addOperand, Option.ite_none_right_eq_some, ← hadd, Option.some.injEq, eq_comm (b := t)]
  constructor
  · rintro ⟨haccepts, rfl⟩
    exact ⟨rfl, fits_operand.2 ⟨h, haccepts⟩⟩
  · rintro ⟨rfl, hfits⟩
    exact ⟨(fits_operand.1 hfits).2, rfl⟩

theorem addOption_of_fits (hpending : s.pending = none) (h : g.Fits (s.add [(name, value)] [])) :
    s.addOption g name value = some (s.add [(name, value)] []) :=
  (addOption_eq_some_iff hpending (fits_of_add h)).2 ⟨rfl, h⟩

theorem addOperand_of_fits (hpending : s.pending = none) (h : g.Fits (s.add [] [value])) :
    s.addOperand g value = some (s.add [] [value]) :=
  (addOperand_eq_some_iff hpending (fits_of_add h)).2 ⟨rfl, h⟩

theorem settle_option (h : s.pending = none) (name value : String) :
    settle g { s with pending := some (some name, value) } = s.addOption g name value := by
  obtain ⟨options, operands, pending⟩ := s
  subst h
  rfl

theorem settle_operand (h : s.pending = none) (value : String) :
    settle g { s with pending := some (none, value) } = s.addOperand g value := by
  obtain ⟨options, operands, pending⟩ := s
  subst h
  rfl

theorem pending_of_settle (h : s.settle g = some t) : t.pending = none := by
  obtain ⟨options, operands, pending⟩ := s
  match pending with
  | none =>
    obtain rfl := Option.some.inj h
    rfl
  | some (some name, value) =>
    simp only [settle, addOption, Option.ite_none_right_eq_some, Option.some.injEq] at h
    exact h.2 ▸ rfl
  | some (none, value) =>
    simp only [settle, addOperand, Option.ite_none_right_eq_some, Option.some.injEq] at h
    exact h.2 ▸ rfl

end Scanned

/-! ### Reading a level -/

section Reading

variable {g : Grammar} {s t u : Scanned} {name value : String} {options : List (String × String)}
  {operands args rest : List String}

theorem forall_ne_of_notMem (h : '=' ∉ name.toList) :
    ∀ c ∈ name.toList, decide (c ≠ '=') = true := by
  intro c hc
  refine decide_eq_true ?_
  rintro rfl
  exact h hc

theorem splitOption_of_name (h : '=' ∉ name.toList) : splitOption name.toList = (name, none) := by
  have hname := forall_ne_of_notMem h
  rw [splitOption, List.takeWhile_eq_self_iff.2 hname, List.dropWhile_eq_nil_iff.2 hname,
    String.ofList_toList]

theorem splitOption_of_value (h : '=' ∉ name.toList) :
    splitOption (name.toList ++ '=' :: value.toList) = (name, some value) := by
  have hname := forall_ne_of_notMem h
  rw [splitOption, List.takeWhile_append_of_pos hname, List.dropWhile_append_of_pos hname]
  simp

theorem Grammar.Clear.contains_eq_false (hg : g.Clear) {arg : String} {c : Char} {cs : List Char}
    (h : arg.toList = '-' :: c :: cs) : g.commands.contains arg = false := by
  rw [Bool.eq_false_iff, ne_eq, List.contains_iff_mem]
  exact fun hmem => hg.commands _ hmem _ _ h

theorem looksLikeOption_eq_false_iff : looksLikeOption value = false ↔ Plain value := by
  unfold looksLikeOption Plain
  split
  · next c cs h => simp [h]
  · next h => simpa using h

/-- The name of an option that fits is read as it is written. -/
theorem Grammar.Clear.name_of_accepted (hg : g.Clear)
    (h : (g.options.lookup name).any (·.accepts value) = true) :
    (g.options.lookup name).isSome = true ∧ name ≠ "" ∧ name ≠ "help" ∧ '=' ∉ name.toList := by
  cases hlookup : g.options.lookup name with
  | none =>
    rw [hlookup] at h
    cases h
  | some kind => exact ⟨rfl, hg.names _ (mem_of_lookup hlookup)⟩

theorem scan_joined (hg : g.Clear) (hs : s.settle g = some t) (hfits : g.Fits (t.add [(name, value)] []))
    (args : List String) :
    ∃ s', s'.settle g = some (t.add [(name, value)] []) ∧
      scan g s (("--" ++ name ++ "=" ++ value) :: args) = scan g s' args := by
  refine ⟨_, Scanned.settle_of_none rfl, ?_⟩
  have hadd := Scanned.addOption_of_fits (Scanned.pending_of_settle hs) hfits
  obtain ⟨-, -, -, hname⟩ := hg.name_of_accepted (Scanned.fits_option.1 hfits).2.1
  have harg : ("--" ++ name ++ "=" ++ value).toList =
      '-' :: '-' :: (name.toList ++ '=' :: value.toList) := by simp
  obtain ⟨c, cs, hcs⟩ : ∃ c cs, name.toList ++ '=' :: value.toList = c :: cs := by
    cases name.toList <;> exact ⟨_, _, rfl⟩
  have hsplit : splitOption (name.toList ++ '=' :: value.toList) = (name, some value) :=
    splitOption_of_value hname
  rw [hcs] at hsplit harg
  rw [scan, hg.contains_eq_false harg, hs, harg]
  simp only [Bool.false_eq_true, if_false, hsplit, hadd]

theorem scan_apart (hg : g.Clear) (hs : s.settle g = some t) (hfits : g.Fits (t.add [(name, value)] []))
    (plain : Plain value) (args : List String) :
    ∃ s', s'.settle g = some (t.add [(name, value)] []) ∧
      scan g s (("--" ++ name) :: value :: args) = scan g s' args := by
  have hadd := Scanned.addOption_of_fits (Scanned.pending_of_settle hs) hfits
  obtain ⟨hknown, hne, hhelp, hname⟩ := hg.name_of_accepted (Scanned.fits_option.1 hfits).2.1
  refine ⟨{ t with pending := some (some name, value) }, ?_, ?_⟩
  · rw [Scanned.settle_option (Scanned.pending_of_settle hs), hadd]
  · have harg : ("--" ++ name).toList = '-' :: '-' :: name.toList := by simp
    obtain ⟨c, cs, hcs⟩ : ∃ c cs, name.toList = c :: cs :=
      List.exists_cons_of_ne_nil fun h => hne (String.toList_eq_nil_iff.1 h)
    have hsplit := splitOption_of_name hname
    rw [hcs] at hsplit harg
    rw [scan, hg.contains_eq_false harg, hs, harg]
    simp only [Bool.false_eq_true, if_false, hsplit, hknown, if_true,
      looksLikeOption_eq_false_iff.2 plain]

theorem scan_plain (hg : g.Clear) (hs : s.settle g = some t) (hfits : g.Fits (t.add [] [value]))
    (plain : Plain value) (args : List String) :
    ∃ s', s'.settle g = some (t.add [] [value]) ∧ scan g s (value :: args) = scan g s' args := by
  have hadd := Scanned.addOperand_of_fits (Scanned.pending_of_settle hs) hfits
  have haccepts := (Scanned.fits_operand.1 hfits).2
  have hlength : t.operands.length < g.operands.length := by
    by_contra hlong
    rw [List.getElem?_eq_none (not_lt.1 hlong)] at haccepts
    cases haccepts
  have hcommands : g.commands = [] := hg.apart.resolve_right (by rintro h; simp [h] at hlength)
  refine ⟨{ t with pending := some (none, value) }, ?_, ?_⟩
  · rw [Scanned.settle_operand (Scanned.pending_of_settle hs), hadd]
  · rw [scan, hcommands, hs]
    simp only [List.contains_nil, Bool.false_eq_true, if_false]
    split
    · next h => exact absurd h (plain _ _)
    · next h => exact absurd h (plain _ _)
    · next h => exact absurd h (plain _ _)
    · next h => exact absurd h (plain _ _)
    · next h => exact absurd h (plain _ _)
    · rw [if_pos hlength]

/-- Options and operands are read up to what is left after them. -/
theorem scan_of_gives (hg : g.Clear) (h : Gives rest options operands args)
    (hs : s.settle g = some t) (hfits : g.Fits (t.add options operands)) :
    ∃ s', s'.settle g = some (t.add options operands) ∧ scan g s args = scan g s' rest := by
  induction h generalizing s t with
  | done => exact ⟨s, by rw [Scanned.add_nil (Scanned.pending_of_settle hs), hs], rfl⟩
  | @joined name value options operands args _ ih =>
    rw [← Scanned.add_option] at hfits ⊢
    obtain ⟨s₁, hs₁, hone⟩ := scan_joined hg hs (Scanned.fits_of_add hfits) args
    obtain ⟨s₂, hs₂, hscan⟩ := ih hs₁ hfits
    exact ⟨s₂, hs₂, hone.trans hscan⟩
  | @apart name value options operands args plain _ ih =>
    rw [← Scanned.add_option] at hfits ⊢
    obtain ⟨s₁, hs₁, hone⟩ := scan_apart hg hs (Scanned.fits_of_add hfits) plain args
    obtain ⟨s₂, hs₂, hscan⟩ := ih hs₁ hfits
    exact ⟨s₂, hs₂, hone.trans hscan⟩
  | @operand value options operands args plain _ ih =>
    rw [← Scanned.add_operand] at hfits ⊢
    obtain ⟨s₁, hs₁, hone⟩ := scan_plain hg hs (Scanned.fits_of_add hfits) plain args
    obtain ⟨s₂, hs₂, hscan⟩ := ih hs₁ hfits
    exact ⟨s₂, hs₂, hone.trans hscan⟩

theorem foldlM_addOperand_eq_some_iff (hpending : t.pending = none) (h : g.Fits t) :
    args.foldlM (fun s value => s.addOperand g value) t = some u ↔ u = t.add [] args ∧ g.Fits u := by
  induction args generalizing t with
  | nil =>
    rw [Scanned.add_nil hpending]
    constructor
    · rintro ⟨⟩
      exact ⟨rfl, h⟩
    · rintro ⟨rfl, -⟩
      rfl
  | cons value args ih =>
    rw [List.foldlM_cons, Option.bind_eq_bind, Option.bind_eq_some_iff, ← Scanned.add_operand]
    constructor
    · rintro ⟨t', ht', hu⟩
      obtain ⟨rfl, hfits⟩ := (Scanned.addOperand_eq_some_iff hpending h).1 ht'
      exact (ih rfl hfits).1 hu
    · rintro ⟨rfl, hfits⟩
      have hone := Scanned.fits_of_add hfits
      exact ⟨_, Scanned.addOperand_of_fits hpending hone, (ih rfl hone).2 ⟨rfl, hfits⟩⟩

theorem eq_of_splitOption_none {cs : List Char} (h : splitOption cs = (name, none)) :
    cs = name.toList := by
  rw [splitOption, Prod.mk.injEq] at h
  obtain ⟨rfl, hvalue⟩ := h
  split at hvalue
  · next hrest =>
    rw [String.toList_ofList]
    exact (List.takeWhile_eq_self_iff.2 (List.dropWhile_eq_nil_iff.1 hrest)).symm
  · cases hvalue

theorem eq_of_splitOption_some {cs : List Char} (h : splitOption cs = (name, some value)) :
    cs = name.toList ++ '=' :: value.toList := by
  rw [splitOption, Prod.mk.injEq] at h
  obtain ⟨rfl, hvalue⟩ := h
  split at hvalue
  · cases hvalue
  · next c after hrest =>
    obtain rfl := Option.some.inj hvalue
    have hc : c = '=' := by
      have hstops := List.head?_dropWhile_not (fun c : Char => decide (c ≠ '=')) cs
      rw [hrest] at hstops
      simpa using hstops
    subst hc
    rw [String.toList_ofList, String.toList_ofList, ← hrest, List.takeWhile_append_dropWhile]

/-- What a level has come to, if it fits. -/
def Scan.settled? (g : Grammar) : Scan → Option Scanned
  | .finished s => some s
  | .command s _ _ => s.settle g
  | _ => none

/-- What is left of the arguments of a level where the reading of options ends, and the operands in it. -/
inductive Ends : Scan → List String → List String → Prop where
  | finished {s : Scanned} : Ends (.finished s) [] []
  | closed {s : Scanned} {more : List String} : Ends (.finished s) ("--" :: more) more
  | command {s : Scanned} {name : String} {rest : List String} :
      Ends (.command s name rest) (name :: rest) []

/-- What a level comes to from what has been read of it before. -/
inductive Reads (g : Grammar) (t : Scanned) (args : List String) (r : Scan) (u : Scanned) : Prop where
  | mk {options : List (String × String)} {operands more rest : List String}
      (gives : Gives rest options operands args) (ends : Ends r rest more)
      (eq : u = t.add options (operands ++ more)) (fits : g.Fits u)

theorem Reads.option {r : Scan} {args' : List String}
    (h : Reads g (t.add [(name, value)] []) args r u)
    (hargs : ∀ {rest options operands}, Gives rest options operands args →
      Gives rest ((name, value) :: options) operands args') : Reads g t args' r u := by
  obtain ⟨gives, ends, eq, fits⟩ := h
  rw [Scanned.add_option] at eq
  exact ⟨hargs gives, ends, eq, fits⟩

theorem Reads.operand {r : Scan} (h : Reads g (t.add [] [value]) args r u) (plain : Plain value) :
    Reads g t (value :: args) r u := by
  obtain ⟨gives, ends, eq, fits⟩ := h
  rw [Scanned.add_operand] at eq
  exact ⟨.operand plain gives, ends, eq, fits⟩

theorem settle_ofScanned? {o : Option Scanned} (h : (Scan.ofScanned? o).settled? g = some u) :
    o = some u := by
  cases o with
  | none => cases h
  | some s => exact h

/-- Whatever is read of a level is given by its arguments. -/
theorem reads_of_scan (hu : (scan g s args).settled? g = some u) :
    ∃ t, s.settle g = some t ∧ (g.Fits t → Reads g t args (scan g s args) u) := by
  fun_induction scan g s args
  case case1 s =>
    -- The arguments are at an end.
    have hs := settle_ofScanned? hu
    refine ⟨u, hs, fun hfits => ?_⟩
    rw [hs]
    exact ⟨.done, .finished, (Scanned.add_nil (Scanned.pending_of_settle hs)).symm, hfits⟩
  case case2 s name rest _ =>
    -- The next argument names a command.
    have hs : s.settle g = some u := hu
    exact ⟨u, hs, fun hfits =>
      ⟨.done, .command, (Scanned.add_nil (Scanned.pending_of_settle hs)).symm, hfits⟩⟩
  case case4 s arg args _ t hs harg =>
    -- The next argument is two hyphens.
    have hmore := settle_ofScanned? hu
    refine ⟨t, hs, fun hfits => ?_⟩
    obtain ⟨heq, hfits⟩ :=
      (foldlM_addOperand_eq_some_iff (Scanned.pending_of_settle hs) hfits).1 hmore
    obtain rfl : arg = "--" := String.toList_inj.1 harg
    rw [hmore]
    exact ⟨.done, .closed, heq, hfits⟩
  case case6 s arg _ t hs cs _ harg name value args hsplit t' hadd ih =>
    -- An option has its value after an equals sign.
    refine ⟨t, hs, fun hfits => ?_⟩
    obtain ⟨rfl, hfits⟩ := (Scanned.addOption_eq_some_iff (Scanned.pending_of_settle hs) hfits).1 hadd
    obtain ⟨t', ht', hreads⟩ := ih hu
    obtain rfl : t.add [(name, value)] [] = t' :=
      Option.some.inj ((Scanned.settle_of_none rfl).symm.trans ht')
    obtain rfl : arg = "--" ++ name ++ "=" ++ value := by
      rw [← String.toList_inj, harg, eq_of_splitOption_some hsplit]
      simp
    exact (hreads hfits).option .joined
  case case9 s arg _ t hs cs _ harg name _ hsplit _ value args hvalue ih =>
    -- The value of an option is the argument after it, which is checked later.
    have hpending := Scanned.pending_of_settle hs
    obtain ⟨t', ht', hreads⟩ := ih hu
    rw [Scanned.settle_option hpending] at ht'
    refine ⟨t, hs, fun hfits => ?_⟩
    obtain ⟨rfl, hfits⟩ := (Scanned.addOption_eq_some_iff hpending hfits).1 ht'
    obtain rfl : arg = "--" ++ name := by
      rw [← String.toList_inj, harg, eq_of_splitOption_none hsplit]
      simp
    have plain := looksLikeOption_eq_false_iff.1 (Bool.eq_false_iff.2 hvalue)
    exact (hreads hfits).option (.apart plain)
  case case17 s value args _ t hs _ _ _ _ _ plain ih =>
    -- An operand is checked later, too.
    have hpending := Scanned.pending_of_settle hs
    obtain ⟨t', ht', hreads⟩ := ih hu
    rw [Scanned.settle_operand hpending] at ht'
    refine ⟨t, hs, fun hfits => ?_⟩
    obtain ⟨rfl, hfits⟩ := (Scanned.addOperand_eq_some_iff hpending hfits).1 ht'
    exact (hreads hfits).operand plain
  -- In all other cases the level does not fit.
  all_goals cases hu

/-! ### Whole levels -/

theorem settle_empty (g : Grammar) : Scanned.empty.settle g = some .empty := rfl

theorem fits_empty (g : Grammar) : g.Fits .empty :=
  ⟨nofun, .nil, nofun⟩

/-- The whole level is read from its beginning. -/
theorem reads_of_empty {args : List String} {u : Scanned} (hu : (scan g .empty args).settled? g = some u) :
    Reads g .empty args (scan g .empty args) u := by
  obtain ⟨t, ht, hreads⟩ := reads_of_scan hu
  obtain rfl : Scanned.empty = t := Option.some.inj ((Scanned.settle_of_none rfl).symm.trans ht)
  exact hreads (fits_empty g)

theorem givesAll_of_scan {rest : List String} {after : Scanned}
    (h : scan g .empty rest = .finished after) :
    GivesAll after.options after.operands rest ∧ g.Fits after := by
  have hreads := reads_of_empty (congrArg (Scan.settled? g) h)
  rw [h] at hreads
  obtain @⟨options, operands, more, _, gives, ends, rfl, fits⟩ := hreads
  refine ⟨?_, fits⟩
  cases ends with
  | finished =>
    rw [List.append_nil]
    exact .plain gives
  | closed => exact (GivesAll.closed gives : GivesAll options (operands ++ more) rest)

/-- All arguments of a level are read. -/
theorem scan_of_givesAll {rest : List String} (hg : g.Clear) (h : GivesAll options operands rest)
    (hfits : g.Fits ⟨options, operands, none⟩) :
    scan g .empty rest = .finished ⟨options, operands, none⟩ := by
  cases h with
  | plain gives =>
    obtain ⟨s', hs', hscan⟩ := scan_of_gives hg gives (settle_empty g) hfits
    rw [hscan, scan, hs']
    rfl
  | @closed operands more _ gives =>
    have hsplit : ⟨options, operands ++ more, none⟩ =
        (Scanned.empty.add options operands).add [] more := by
      simp [Scanned.add, Scanned.empty]
    rw [hsplit] at hfits ⊢
    have hfirst := Scanned.fits_of_add hfits
    obtain ⟨s', hs', hscan⟩ := scan_of_gives hg gives (settle_empty g) hfirst
    have hmore := (foldlM_addOperand_eq_some_iff rfl hfirst).2 ⟨rfl, hfits⟩
    rw [hscan, scan, hg.contains_eq_false rfl, hs']
    simp [hmore, Scan.ofScanned?]

end Reading

end Lineage.CommandLine
