/-
What has been read from a text can be read back.

A numeral is taken for an integer only inside the range of integers, so every number of an outline is in
range (`inRange_ofChars`), and so is every number of a document that is made of it; and a document that
is read with some levels of nesting left nests less deep than that (`json?_within`). What every field of a
record maintains holds of the whole record, from whichever of its forms it is read
(`Record.decoder_maintains`).
-/

import Lineage.Json.Decoder
import Lineage.Proofs.Json.Reading

namespace Lineage

open Json (Outline Decoder Field Record)

/-- A numeral is an integer only inside the range of integers. -/
theorem Json.Numeral.inRange_number? {numeral : Json.Numeral} {n : Number}
    (h : numeral.number? = some n) : n.InRange := by
  have hreal : ∀ x : Option Binary64, x.map Number.real = some n → n.InRange := by
    intro x hx
    obtain ⟨w, -, rfl⟩ := Option.map_eq_some_iff.1 hx
    trivial
  unfold number? at h
  dsimp only at h
  split at h
  · exact hreal _ h
  · split at h
    · split at h
      · next hsize =>
        cases h
        constructor <;> omega
      · exact hreal _ h
    · split at h
      · next hsize =>
        cases h
        constructor <;> omega
      · exact hreal _ h

namespace Json.Outline

/-! ### Outlines -/

mutual

/-- An outline whose integers are in range. -/
def InRange : Outline → Prop
  | .number n => ∀ k ∈ n, k.InRange
  | .array xs _ => InRangeElements xs
  | .object ms _ => InRangeMembers ms
  | _ => True
termination_by structural x => x

/-- Elements whose integers are in range. -/
def InRangeElements : List Outline → Prop
  | [] => True
  | x :: xs => InRange x ∧ InRangeElements xs
termination_by structural x => x

/-- Members whose integers are in range. -/
def InRangeMembers : List (Option String × Outline) → Prop
  | [] => True
  | (_, x) :: ms => InRange x ∧ InRangeMembers ms
termination_by structural x => x

end

theorem inRange_ofToken (cs : List Char) : (ofToken cs).1.InRange := by
  unfold ofToken
  split
  · split <;> trivial
  · split <;> trivial
  · split <;> trivial
  · split <;> trivial
  · split
    · exact fun k hk => Numeral.inRange_number? hk
    · trivial

/-- The integers of every outline are in range, whether or not the text is broken somewhere. -/
theorem inRange_ofChars (fuel : Nat) :
    (∀ cs, (ofChars fuel cs).1.InRange) ∧ (∀ cs, InRangeElements (elements fuel cs).1) ∧
      ∀ cs, InRangeMembers (members fuel cs).1 := by
  induction fuel with
  | zero => exact ⟨fun _ => trivial, fun _ => trivial, fun _ => trivial⟩
  | succ fuel ih =>
    obtain ⟨hvalue, helements, hmembers⟩ := ih
    refine ⟨fun cs => ?_, fun cs => ?_, fun cs => ?_⟩
    · rw [ofChars]
      split
      · next rest _ =>
        split
        · trivial
        · have h := helements (skipSpace rest)
          split
          · next heq =>
            rw [heq] at h
            exact h
          · next heq =>
            rw [heq] at h
            exact h
      · next rest _ =>
        split
        · trivial
        · have h := hmembers (skipSpace rest)
          split
          · next heq =>
            rw [heq] at h
            exact h
          · next heq =>
            rw [heq] at h
            exact h
      · exact inRange_ofToken _
    · rw [elements]
      have h := hvalue cs
      split
      · next heq =>
        rw [heq] at h
        exact ⟨h, trivial⟩
      · next rest heq =>
        rw [heq] at h
        split
        · exact ⟨h, trivial⟩
        · exact ⟨h, helements _⟩
        · exact ⟨h, trivial⟩
    · rw [members]
      split
      · split
        · trivial
        · split
          · next rest _ =>
            have h := hvalue rest
            split
            · next heq =>
              rw [heq] at h
              exact ⟨h, trivial⟩
            · next heq =>
              rw [heq] at h
              split
              · exact ⟨h, trivial⟩
              · exact ⟨h, hmembers _⟩
              · exact ⟨h, trivial⟩
          · exact ⟨trivial, trivial⟩
      · trivial

/-- The outline of a text has its integers in range. -/
theorem inRange_outline (s : String) : (outline s).1.InRange := by
  have h := (inRange_ofChars (2 * s.toList.length + 1)).1 s.toList
  unfold outline
  dsimp only
  split
  · next heq =>
    rw [heq] at h
    exact h
  · next heq =>
    rw [heq] at h
    exact h

/-! ### Documents -/

end Json.Outline

namespace Json

/-- A document whose integers are in range, and that nests less deep than a number of levels. -/
structure Within (levels : Nat) (x : Json) : Prop where
  inRange : x.InRange
  shallow : x.depth < levels

variable {levels : Nat}

theorem within_array {xs : List Json} (hlevels : 0 < levels) (h : ∀ x ∈ xs, Within levels x) :
    Within (levels + 1) (.array xs) := by
  have hxs : InRangeElements xs ∧ depthElements xs < levels := by
    induction xs with
    | nil => exact ⟨trivial, hlevels⟩
    | cons x xs ih =>
      rw [List.forall_mem_cons] at h
      obtain ⟨hrange, hdepth⟩ := ih h.2
      rw [depthElements, Nat.max_lt]
      exact ⟨⟨h.1.inRange, hrange⟩, h.1.shallow, hdepth⟩
  exact ⟨hxs.1, Nat.succ_lt_succ hxs.2⟩

theorem within_object {ms : List (String × Json)} (hlevels : 0 < levels)
    (h : ∀ m ∈ ms, Within levels m.2) : Within (levels + 1) (.object ms) := by
  have hms : InRangeMembers ms ∧ depthMembers ms < levels := by
    induction ms with
    | nil => exact ⟨trivial, hlevels⟩
    | cons m ms ih =>
      rw [List.forall_mem_cons] at h
      obtain ⟨hrange, hdepth⟩ := ih h.2
      rw [depthMembers, Nat.max_lt]
      exact ⟨⟨h.1.inRange, hrange⟩, h.1.shallow, hdepth⟩
  exact ⟨hms.1, Nat.succ_lt_succ hms.2⟩

/-- The members of an object are among those that it is built from. -/
theorem exists_ofMembers (ms : List (String × Json)) :
    ∃ sorted, ofMembers ms = .object sorted ∧ ∀ m ∈ sorted, m ∈ ms := by
  have hfold : ∀ ms before : List (String × Json),
      ∀ m ∈ ms.foldl (fun sorted m => insertMember m.1 m.2 sorted) before, m ∈ before ∨ m ∈ ms := by
    intro ms
    induction ms with
    | nil => exact fun _ _ hm => .inl hm
    | cons first rest ih =>
      intro before m hm
      rcases ih _ m hm with hm | hm
      · rcases mem_insertMember hm with rfl | hm
        · exact .inr List.mem_cons_self
        · exact .inl hm
      · exact .inr (List.mem_cons_of_mem _ hm)
  refine ⟨_, rfl, fun m hm => ?_⟩
  rcases hfold ms [] m hm with hm | hm
  · cases hm
  · exact hm

/-- A property of documents, and of the levels that are left for them, that passes from parts that are
read to the whole. -/
structure Inherited (P : Nat → Json → Prop) : Prop where
  leaf : ∀ {levels : Nat} {x : Json}, 0 < levels → x.InRange → x.depth = 0 → P levels x
  array : ∀ {levels : Nat} {xs : List Json}, 0 < levels → (∀ x ∈ xs, P levels x) →
    P (levels + 1) (.array xs)
  object : ∀ {levels : Nat} {ms : List (String × Json)}, 0 < levels → (∀ m ∈ ms, P levels m.2) →
    P (levels + 1) (ofMembers ms)

section Inherited

variable {P : Nat → Json → Prop}

mutual

/-- Every document that is read has a property that passes from parts to the whole. -/
theorem Inherited.json? (h : Inherited P) : (x : Outline) → x.InRange → ∀ {levels : Nat} {y : Json},
    0 < levels → x.json? levels = some y → P levels y
  | .broken, _, _, _, _, hread => by cases hread
  | .null, _, _, _, hlevels, hread => by
    cases hread
    exact h.leaf hlevels trivial rfl
  | .bool b, _, _, _, hlevels, hread => by
    cases hread
    exact h.leaf hlevels trivial rfl
  | .number n, hx, _, _, hlevels, hread => by
    obtain ⟨k, hk, rfl⟩ := Option.map_eq_some_iff.1 hread
    exact h.leaf hlevels (hx k hk) rfl
  | .string s, _, _, _, hlevels, hread => by
    obtain ⟨t, -, rfl⟩ := Option.map_eq_some_iff.1 hread
    exact h.leaf hlevels trivial rfl
  | .array xs closed, hx, levels, _, hlevels, hread => by
    rw [Outline.json?] at hread
    split at hread
    · cases hread
    · next hopen =>
      obtain ⟨ys, hys, rfl⟩ := Option.map_eq_some_iff.1 hread
      obtain ⟨deeper, rfl⟩ : ∃ deeper, levels = deeper + 1 := ⟨levels - 1, by omega⟩
      have hdeeper : 0 < deeper := by omega
      exact h.array hdeeper (h.jsons? xs hx hdeeper hys)
  | .object ms closed, hx, levels, _, hlevels, hread => by
    rw [Outline.json?] at hread
    split at hread
    · cases hread
    · next hopen =>
      obtain ⟨ys, hys, rfl⟩ := Option.map_eq_some_iff.1 hread
      obtain ⟨deeper, rfl⟩ : ∃ deeper, levels = deeper + 1 := ⟨levels - 1, by omega⟩
      have hdeeper : 0 < deeper := by omega
      exact h.object hdeeper (h.jsonMembers? ms hx hdeeper hys)

theorem Inherited.jsons? (h : Inherited P) : (xs : List Outline) → Outline.InRangeElements xs →
    ∀ {levels : Nat} {ys : List Json}, 0 < levels → Outline.jsons? levels xs = some ys →
      ∀ y ∈ ys, P levels y
  | [], _, _, _, _, hread => by
    cases hread
    nofun
  | x :: xs, hx, levels, _, hlevels, hread => by
    rw [Outline.jsons?] at hread
    obtain ⟨y, hy, hread⟩ := Option.bind_eq_some_iff.1 hread
    obtain ⟨ys, hys, hread⟩ := Option.bind_eq_some_iff.1 hread
    cases hread
    rw [List.forall_mem_cons]
    exact ⟨h.json? x hx.1 hlevels hy, h.jsons? xs hx.2 hlevels hys⟩

theorem Inherited.jsonMembers? (h : Inherited P) : (ms : List (Option String × Outline)) →
    Outline.InRangeMembers ms → ∀ {levels : Nat} {ys : List (String × Json)}, 0 < levels →
      Outline.jsonMembers? levels ms = some ys → ∀ m ∈ ys, P levels m.2
  | [], _, _, _, _, hread => by
    cases hread
    nofun
  | (name, x) :: ms, hx, levels, _, hlevels, hread => by
    rw [Outline.jsonMembers?] at hread
    obtain ⟨_, -, hread⟩ := Option.bind_eq_some_iff.1 hread
    obtain ⟨y, hy, hread⟩ := Option.bind_eq_some_iff.1 hread
    obtain ⟨ys, hys, hread⟩ := Option.bind_eq_some_iff.1 hread
    cases hread
    rw [List.forall_mem_cons]
    exact ⟨h.json? x hx.1 hlevels hy, h.jsonMembers? ms hx.2 hlevels hys⟩

end

end Inherited

theorem inherited_within : Inherited Within where
  leaf := fun hlevels hrange hdepth => ⟨hrange, hdepth ▸ hlevels⟩
  array := within_array
  object := by
    intro levels ms hlevels h
    obtain ⟨sorted, hsorted, hmem⟩ := exists_ofMembers ms
    rw [hsorted]
    exact within_object hlevels fun m hm => h m (hmem m hm)

/-- A document that is read with some levels left has its integers in range and nests less deep. -/
theorem json?_within {x : Outline} (hx : x.InRange) {levels : Nat} {y : Json} (hlevels : 0 < levels)
    (h : x.json? levels = some y) : Within levels y :=
  inherited_within.json? x hx hlevels h

end Json

/-! ### Records -/

namespace Json

variable {σ α : Type} {P : σ → Prop} {levels : Nat}

/-- Whether filling in a field, from an outline with its integers in range, maintains what has been read
so far. -/
def Field.Maintains (field : Field σ) (P : σ → Prop) : Prop :=
  ∀ ⦃s : σ⦄ ⦃levels : Nat⦄ ⦃x : Outline⦄ ⦃s' : σ⦄, x.InRange → 0 < levels → levels ≤ maxDepth → P s →
    field.fill s levels x = .ok s' → P s'

theorem Field.maintains_of {name : String} {get : σ → Option α} {set : σ → α → σ}
    {read : Decoder α} (h : ∀ s v, P s → P (set s v)) : (Field.of name get set read).Maintains P := by
  intro s levels x s' _ _ _ hs hfill
  change (read levels x).map (set s) = .ok s' at hfill
  cases hread : read levels x with
  | error cause =>
    rw [hread] at hfill
    cases hfill
  | ok v =>
    rw [hread] at hfill
    cases hfill
    exact h s v hs

theorem exists_of_bind_ok {β : Type} {x : Except ReadError α} {next : α → Except ReadError β} {v : β}
    (h : x >>= next = .ok v) : ∃ a, x = .ok a ∧ next a = .ok v := by
  cases x with
  | error cause => cases h
  | ok a => exact ⟨a, rfl, h⟩

theorem Decoder.nested_ok {read : Nat → Except ReadError α} {v : α}
    (h : Decoder.nested levels read = .ok v) :
    ∃ deeper, 0 < deeper ∧ levels = deeper + 1 ∧ read deeper = .ok v := by
  unfold Decoder.nested at h
  split at h
  · cases h
  · cases h
  · next deeper hne =>
    exact ⟨deeper, Nat.pos_of_ne_zero fun hzero => hne (by rw [hzero]), rfl, h⟩

theorem decode_ok {read : Decoder α} {text : String} {v : α} (h : decode read text = .ok v) :
    read maxDepth (outline text).1 = .ok v := by
  obtain ⟨value, hread, h⟩ := exists_of_bind_ok h
  change (if (outline text).2 then Except.ok value else .error ReadError.malformed) = .ok v at h
  cases hcomplete : (outline text).2 with
  | false =>
    rw [hcomplete] at h
    cases h
  | true =>
    rw [hcomplete] at h
    cases h
    exact hread

namespace Record

variable {record : Record σ}

theorem fillMembers_maintains (hlevels : 0 < levels) (hmax : levels ≤ maxDepth)
    (hfields : ∀ field ∈ record.fields, field.Maintains P) {ms : List (Option String × Outline)}
    (hms : Outline.InRangeMembers ms) {s s' : σ} (hs : P s)
    (h : record.fillMembers levels s ms = .ok s') : P s' := by
  induction ms generalizing s with
  | nil =>
    cases h
    exact hs
  | cons m ms ih =>
    obtain ⟨name, x⟩ := m
    cases name with
    | none => cases h
    | some name =>
      rw [fillMembers] at h
      split at h
      · split at h
        · exact ih hms.2 hs h
        · cases h
      · next field hfield =>
        split at h
        · cases h
        · obtain ⟨next, hfill, h⟩ := exists_of_bind_ok h
          have hmem := List.mem_of_find?_eq_some hfield
          exact ih hms.2 (hfields field hmem hms.1 hlevels hmax hs hfill) h

theorem fillElements_maintains (hlevels : 0 < levels) (hmax : levels ≤ maxDepth) {closed : Bool}
    {fields : List (Field σ)} (hfields : ∀ field ∈ fields, field.Maintains P) {xs : List Outline}
    (hxs : Outline.InRangeElements xs) {s s' : σ} (hs : P s)
    (h : record.fillElements levels closed s fields xs = .ok s') : P s' := by
  induction fields generalizing s xs with
  | nil =>
    cases xs with
    | nil =>
      rw [fillElements] at h
      split at h
      · cases h
        exact hs
      · cases h
    | cons x xs => cases h
  | cons field fields ih =>
    rw [List.forall_mem_cons] at hfields
    cases xs with
    | nil =>
      rw [fillElements] at h
      split at h
      · cases h
      · split at h
        · cases h
          exact hs
        · cases h
    | cons x xs =>
      rw [fillElements] at h
      obtain ⟨next, hfill, h⟩ := exists_of_bind_ok h
      exact ih hfields.2 hxs.2 (hfields.1 hxs.1 hlevels hmax hs hfill) h

/-- A record that has been read is completed from what its fields maintain. -/
theorem decoder_maintains {start : σ} {complete : σ → Except ReadError α} {x : Outline} {v : α}
    (hx : x.InRange) (hmax : levels ≤ maxDepth) (hstart : P start)
    (hfields : ∀ field ∈ record.fields, field.Maintains P)
    (h : record.decoder start complete levels x = .ok v) : ∃ s, P s ∧ complete s = .ok v := by
  unfold decoder at h
  split at h
  · obtain ⟨deeper, hdeeper, rfl, hread⟩ := Decoder.nested_ok h
    obtain ⟨s, hfill, hread⟩ := exists_of_bind_ok hread
    have hs := fillMembers_maintains hdeeper (Nat.le_of_succ_le hmax) hfields hx hstart hfill
    split at hread
    · exact ⟨s, hs, hread⟩
    · cases hread
  · obtain ⟨deeper, hdeeper, rfl, hread⟩ := Decoder.nested_ok h
    obtain ⟨s, hfill, hread⟩ := exists_of_bind_ok hread
    exact ⟨s, fillElements_maintains hdeeper (Nat.le_of_succ_le hmax) hfields hx hstart hfill, hread⟩
  · cases h

end Record

end Json

end Lineage
