/-
A configuration is read from its documents.

The members of a configuration may stand in any order, and each of them may be left out if it has the
value that is taken without it. `Config.decode_documents` says that the configuration is read from every
text of such an object.
-/

import Lineage.Config
import Lineage.Proofs.Definition.Export

namespace Lineage

open Json (Decoder Field Record)

/-! ### Documents -/

/-- The members of one name: the one that holds a document, or none where it may be left out. -/
inductive Json.Member (name : String) (x : Json) (mayBeLeft : Prop) : List (String × Json) → Prop where
  | given : Member name x mayBeLeft [(name, x)]
  | left (may : mayBeLeft) : Member name x mayBeLeft []

/-- The documents of a logging section. -/
inductive LoggingConfig.Documents (logging : LoggingConfig) : Json → Prop where
  | members {level ms : List (String × Json)}
      (hlevel : Json.Member "level" (Json.ofText? logging.level) (logging.level = none) level)
      (order : ms.Perm (level ++ [("logDir", .string logging.logDir)])) :
      Documents logging (.object ms)

/-- The documents of a logging section, if there is one. -/
inductive LoggingConfig.OptionDocuments : Option LoggingConfig → Json → Prop where
  | none : OptionDocuments none .null
  | some {logging : LoggingConfig} {x : Json} (h : logging.Documents x) :
      OptionDocuments (some logging) x

/-- The documents of a configuration. -/
inductive Config.Documents (config : Config) : Json → Prop where
  | members {mode version logging ms : List (String × Json)} {x : Json}
      (hmode : Json.Member "defaultMode" (.string config.defaultMode.name)
        (config.defaultMode = .autoIncrementMajor) mode)
      (hversion : Json.Member "initialVersion" (.string config.initialVersion)
        (config.initialVersion = "1") version)
      (hx : LoggingConfig.OptionDocuments config.logging x)
      (hlogging : Json.Member "logging" x (config.logging = none) logging)
      (order : ms.Perm (mode ++ (version ++ logging))) : Documents config (.object ms)

/-! ### Members -/

/-- A member that may be left out fills in its field, or what has been read stays as it is. -/
theorem Json.Member.fillMembers {σ α : Type} {levels : Nat} {name : String} {x : Json}
    {mayBeLeft : Prop} {ms : List (String × Json)} (h : Json.Member name x mayBeLeft ms)
    (record : Record σ) (s : σ) (rest : List (String × Json)) {get : σ → Option α}
    {set : σ → α → σ} {read : Decoder α} {v : α}
    (hfield : record.fields.find? (·.name = name) = some (.of name get set read))
    (hopen : get s = none) (hread : read levels x.outlined = .ok v) :
    ∃ s', (s' = set s v ∨ mayBeLeft ∧ s' = s) ∧
      record.fillMembers levels s (outlinedMembers (ms ++ rest)) =
        record.fillMembers levels s' (outlinedMembers rest) := by
  cases h with
  | given => exact ⟨_, .inl rfl, Record.fillMembers_of hfield hopen hread rfl⟩
  | left may => exact ⟨s, .inr ⟨may, rfl⟩, rfl⟩

theorem Mode.decoder_name (levels : Nat) (mode : Mode) :
    Mode.decoder levels (Json.string mode.name).outlined = .ok mode := by
  cases mode <;> rfl

/-! ### Records -/

theorem LoggingConfig.orderly_record : LoggingConfig.record.Orderly where
  apart := by
    simp only [record, List.pairwise_pair]
    exact ⟨Field.apart_of (fun _ _ => rfl) fun _ _ _ => rfl,
      Field.apart_of (fun _ _ => rfl) fun _ _ _ => rfl⟩
  fills := by
    simp only [record, List.forall_mem_cons]
    exact ⟨Field.fills_of fun _ _ => rfl, Field.fills_of fun _ _ => rfl, List.forall_mem_nil _⟩

theorem Config.orderly_record : Config.record.Orderly where
  apart := by
    simp only [record, List.pairwise_cons, List.forall_mem_cons]
    refine ⟨⟨?_, ?_, List.forall_mem_nil _⟩, ⟨?_, List.forall_mem_nil _⟩, List.forall_mem_nil _, .nil⟩
    all_goals
      exact ⟨Field.apart_of (fun _ _ => rfl) fun _ _ _ => rfl,
        Field.apart_of (fun _ _ => rfl) fun _ _ _ => rfl⟩
  fills := by
    simp only [record, List.forall_mem_cons]
    exact ⟨Field.fills_of fun _ _ => rfl, Field.fills_of fun _ _ => rfl,
      Field.fills_of fun _ _ => rfl, List.forall_mem_nil _⟩

/-- A logging section is read from its documents, also inside others. -/
theorem LoggingConfig.decoder_documents {logging : LoggingConfig} {x : Json}
    (h : logging.Documents x) (levels : Nat) :
    LoggingConfig.decoder (levels + 2) x.outlined = .ok logging := by
  obtain ⟨hlevel, order⟩ := h
  obtain ⟨s, hs, hread⟩ := hlevel.fillMembers record {} [("logDir", .string logging.logDir)] rfl rfl
    (Decoder.optional_text (levels + 1) _)
  have hdir : record.fillMembers (levels + 1) s
      (Json.outlinedMembers [("logDir", .string logging.logDir)]) =
        .ok { s with logDir := some logging.logDir } := by
    refine Record.fillMembers_of rfl ?_ rfl rfl
    rcases hs with rfl | ⟨-, rfl⟩ <;> rfl
  refine orderly_record.decoder_perm order (hread.trans hdir) ?_
  rcases hs with rfl | ⟨hlevel, rfl⟩
  · rfl
  · obtain ⟨level, logDir⟩ := logging
    cases hlevel
    rfl

theorem LoggingConfig.optional_documents {logging : Option LoggingConfig} {x : Json}
    (h : OptionDocuments logging x) (levels : Nat) :
    Decoder.optional LoggingConfig.decoder (levels + 2) x.outlined = .ok logging := by
  cases h with
  | none => rfl
  | some h =>
    have hread := decoder_documents h levels
    obtain ⟨_, order⟩ := h
    exact congrArg (Except.map some) hread

/-- A configuration is read from its documents. -/
theorem Config.decoder_documents {config : Config} {x : Json} (h : config.Documents x) :
    Config.decoder Json.maxDepth x.outlined = .ok config := by
  obtain @⟨mode, version, logging, ms, x, hmode, hversion, hx, hlogging, order⟩ := h
  obtain ⟨s₁, hs₁, hread₁⟩ := hmode.fillMembers record {} (version ++ logging) rfl rfl
    (Mode.decoder_name 127 _)
  have hopen₁ : s₁.initialVersion = none ∧ s₁.logging = none := by
    rcases hs₁ with rfl | ⟨-, rfl⟩ <;> exact ⟨rfl, rfl⟩
  obtain ⟨s₂, hs₂, hread₂⟩ := hversion.fillMembers record s₁ logging rfl hopen₁.1
    (show Decoder.text 127 _ = .ok _ from rfl)
  have hopen₂ : s₂.logging = none := by
    rcases hs₂ with rfl | ⟨-, rfl⟩ <;> exact hopen₁.2
  obtain ⟨s₃, hs₃, hread₃⟩ := hlogging.fillMembers record s₂ [] rfl hopen₂
    (LoggingConfig.optional_documents hx 125)
  rw [List.append_nil] at hread₃
  have hread := hread₁.trans (hread₂.trans hread₃)
  refine orderly_record.decoder_perm order hread ?_
  -- Each member that was left out has its default.
  obtain ⟨defaultMode, initialVersion, logging⟩ := config
  rcases hs₁ with rfl | ⟨rfl, rfl⟩
  all_goals rcases hs₂ with rfl | ⟨rfl, rfl⟩
  all_goals rcases hs₃ with rfl | ⟨rfl, rfl⟩
  all_goals rfl

/-- A configuration is read from the texts of its documents. -/
theorem Config.decode_documents {config : Config} {x : Json} {text : String}
    (h : config.Documents x) (htext : x.Prints text) : Json.decode Config.decoder text = .ok config :=
  htext.decode (Config.decoder_documents h)

end Lineage
