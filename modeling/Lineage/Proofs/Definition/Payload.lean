/-
The payload of a submission that has been read can be read back.

A payload is read inside a record, so it nests less deep than a text may, and its integers are in the
range of integers. Storing it and reading it back therefore cannot fail, from whichever of its forms the
submission is read.
-/

import Lineage.Definition.Wire
import Lineage.Proofs.Json.Range

namespace Lineage

open Json (Decoder Field)

/-- The payload that has been read so far, if there is one, can be read back. -/
def Fields.Readable (s : Fields) : Prop :=
  ∀ payload ∈ s.payload, payload.Readable

theorem Fields.maintains_payloadField : Fields.payloadField.Maintains Fields.Readable := by
  intro s levels x s' hx hlevels hmax _ hfill
  change (Decoder.json levels x).map _ = .ok s' at hfill
  rw [Decoder.json] at hfill
  cases hread : x.json? levels with
  | none =>
    rw [hread] at hfill
    cases hfill
  | some payload =>
    rw [hread] at hfill
    cases hfill
    obtain ⟨hrange, hdepth⟩ := Json.json?_within hx hlevels hread
    intro read hread
    obtain rfl := Option.some.inj hread
    exact ⟨hrange, Nat.lt_of_lt_of_le hdepth hmax⟩

/-- The payload of a submission that has been read from a text can be read back. -/
theorem Submission.readable_of_decode {text : String} {s : Submission}
    (h : Json.decode Submission.decoder text = .ok s) : s.payload.Readable := by
  have hkept : ∀ {name : String} {α : Type} {get : Fields → Option α} {set : Fields → α → Fields}
      {read : Decoder α}, (∀ s v, (set s v).payload = s.payload) →
      (Field.of name get set read).Maintains Fields.Readable := by
    intro name α get set read hset
    exact Json.Field.maintains_of fun s v hs payload hpayload => hs payload (hset s v ▸ hpayload)
  have hfields : ∀ field ∈ record.fields, field.Maintains Fields.Readable := by
    simp only [record, List.forall_mem_cons]
    exact ⟨hkept fun _ _ => rfl, hkept fun _ _ => rfl, hkept fun _ _ => rfl, hkept fun _ _ => rfl,
      hkept fun _ _ => rfl, hkept fun _ _ => rfl, Fields.maintains_payloadField, nofun⟩
  obtain ⟨fields, hreadable, hsubmission⟩ :=
    Json.Record.decoder_maintains (Json.Outline.inRange_outline text) (Nat.le_refl _)
      (show Fields.Readable {} from nofun) hfields (Json.decode_ok h)
  obtain ⟨payload, hpayload, hsubmission⟩ := Json.exists_of_bind_ok hsubmission
  cases hsubmission
  refine hreadable payload ?_
  cases hread : fields.payload with
  | none =>
    rw [hread] at hpayload
    cases hpayload
  | some read =>
    rw [hread] at hpayload
    cases hpayload
    rfl

end Lineage
