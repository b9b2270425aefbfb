/-
The printed form of an item reads as a submission.

An item and a submission are different records: the item has times, which a submission passes over,
and a submission may leave out what an item always has. `decode_printed` says that the submission
which is read from a printed item holds every other field of the item, in whichever of the two orders
the members stand, and over one line or many.
-/

import Lineage.Proofs.Json.Record
import Lineage.Proofs.Uuid
import Lineage.Definition.Wire

namespace Lineage

open Json (Outline Decoder Record Field)

/-! ### Values -/

namespace Json.Decoder

theorem optional_text (levels : Nat) (t : Option String) :
    optional text levels (Json.ofText? t).outlined = .ok t := by
  cases t <;> rfl

theorem optional_uuid (levels : Nat) (id : Uuid) :
    optional uuid levels (Json.string id.text).outlined = .ok (some id) := by
  simp only [optional, uuid, outlined, Uuid.parse?_text]
  rfl

theorem json_outlined {levels : Nat} {x : Json} (h : x.Legible) (hdepth : x.depth < levels) :
    json levels x.outlined = .ok x := by
  rw [json, Json.json?_outlined x h hdepth]

end Json.Decoder

theorem Json.intact_ofTime (t : Int64) : (Json.ofTime t).outlined.intact = true := rfl

namespace Item

/-- The members of an item in the order of their names. -/
def sortedMembers (item : Item) : List (String × Json) :=
  [("createdAt", Json.ofTime item.createdAt), ("definitionId", .string item.definitionId),
    ("definitionPayload", item.payload), ("id", .string item.id.text),
    ("lastUpdatedAt", Json.ofTime item.lastUpdatedAt), ("name", Json.ofText? item.name),
    ("purpose", Json.ofText? item.purpose), ("tenantId", Json.ofText? item.tenantId),
    ("version", .string item.version)]

theorem toJson_eq (item : Item) : item.toJson = .object item.sortedMembers := by
  simp only [toJson, members, Json.ofMembers, List.foldl_cons, List.foldl_nil, Json.insertMember]
  rfl

/-- What an item says, as a submission: everything but its times. -/
def toSubmission (item : Item) : Submission where
  id := some item.id
  definitionId := some item.definitionId
  tenantId := item.tenantId
  version := some item.version
  name := item.name
  purpose := item.purpose
  payload := item.payload

/-- The fields of a submission that the members of an item fill in. -/
def filledFields (item : Item) : Fields where
  id := some (some item.id)
  definitionId := some (some item.definitionId)
  tenantId := some item.tenantId
  version := some (some item.version)
  name := some item.name
  purpose := some item.purpose
  payload := some item.payload

section Reading

variable {item : Item} {levels : Nat}

theorem fillMembers_members (h : item.payload.Legible) (hdepth : item.payload.depth < levels) :
    Submission.record.fillMembers levels {} (Json.outlinedMembers item.members) =
      .ok item.filledFields := by
  have htext := Decoder.optional_text levels
  refine Record.fillMembers_of rfl rfl (Decoder.optional_uuid levels item.id) ?_
  refine Record.fillMembers_of rfl rfl (htext (some item.definitionId)) ?_
  refine Record.fillMembers_of rfl rfl (htext item.tenantId) ?_
  refine Record.fillMembers_of rfl rfl (htext (some item.version)) ?_
  refine Record.fillMembers_of rfl rfl (htext item.name) ?_
  refine Record.fillMembers_of rfl rfl (htext item.purpose) ?_
  refine Record.fillMembers_of rfl rfl (Decoder.json_outlined h hdepth) ?_
  refine Record.fillMembers_of_unknown rfl (Json.intact_ofTime item.createdAt) ?_
  exact Record.fillMembers_of_unknown rfl (Json.intact_ofTime item.lastUpdatedAt) rfl

theorem fillMembers_sortedMembers (h : item.payload.Legible)
    (hdepth : item.payload.depth < levels) :
    Submission.record.fillMembers levels {} (Json.outlinedMembers item.sortedMembers) =
      .ok item.filledFields := by
  have htext := Decoder.optional_text levels
  refine Record.fillMembers_of_unknown rfl (Json.intact_ofTime item.createdAt) ?_
  refine Record.fillMembers_of rfl rfl (htext (some item.definitionId)) ?_
  refine Record.fillMembers_of rfl rfl (Decoder.json_outlined h hdepth) ?_
  refine Record.fillMembers_of rfl rfl (Decoder.optional_uuid levels item.id) ?_
  refine Record.fillMembers_of_unknown rfl (Json.intact_ofTime item.lastUpdatedAt) ?_
  refine Record.fillMembers_of rfl rfl (htext item.name) ?_
  refine Record.fillMembers_of rfl rfl (htext item.purpose) ?_
  refine Record.fillMembers_of rfl rfl (htext item.tenantId) ?_
  exact Record.fillMembers_of rfl rfl (htext (some item.version)) rfl

end Reading

/-! ### Printed items -/

/-- The documents that an item is printed as: its members in the order of its fields, or in the order
of their names. -/
inductive IsDocument (item : Item) : Json → Prop where
  | fields : IsDocument item (.object item.members)
  | names : IsDocument item item.toJson

/-- The texts that an item is printed as: over one line or over many. -/
inductive PrintedAs (item : Item) : String → Prop where
  | line {x : Json} (document : item.IsDocument x) : PrintedAs item x.text
  | lines {x : Json} (document : item.IsDocument x) : PrintedAs item x.pretty

theorem PrintedAs.exists_outline {item : Item} {text : String} (h : item.PrintedAs text) :
    ∃ x, item.IsDocument x ∧ Json.outline text = (x.outlined, true) := by
  cases h with
  | line document => exact ⟨_, document, Json.outline_text _⟩
  | lines document => exact ⟨_, document, Json.outline_pretty _⟩

theorem IsDocument.decoder {item : Item} {x : Json} (h : item.IsDocument x)
    (hp : item.payload.Portable) :
    Submission.decoder Json.maxDepth x.outlined = .ok item.toSubmission := by
  have hdepth : item.payload.depth < 126 + 1 := Nat.lt_of_add_lt_add_right hp.shallow
  cases h with
  | fields => exact Record.decoder_object (fillMembers_members hp.legible hdepth)
  | names =>
    rw [toJson_eq]
    exact Record.decoder_object (fillMembers_sortedMembers hp.legible hdepth)

/-- From a printed item everything but its times is read back. -/
theorem decode_printed {item : Item} {text : String} (h : item.PrintedAs text)
    (hp : item.payload.Portable) :
    Json.decode Submission.decoder text = .ok item.toSubmission := by
  obtain ⟨x, hx, houtline⟩ := h.exists_outline
  rw [Json.decode, houtline]
  change (Submission.decoder Json.maxDepth x.outlined).bind _ = _
  rw [hx.decoder hp]
  rfl

end Item

end Lineage
