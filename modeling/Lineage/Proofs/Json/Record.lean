/-
A record does not depend on the order of its members.

The fields of a record are apart if filling in one of them neither fills in another nor matters for what
fills in the other. Then members that make up a record do so in any order (`fillMembers_perm`), and the
record is read from every text of an object with these members.
-/

import Mathlib.Data.List.Pairwise
import Lineage.Json.Decoder
import Lineage.Proofs.Json.Layout
import Lineage.Proofs.Json.Members

namespace Lineage.Json

variable {σ : Type} {levels : Nat} {s s₁ s₂ : σ}

/-! ### Fields -/

/-- Filling in the first field does not fill in the second, and can as well come after it. -/
structure Field.Apart (field other : Field σ) : Prop where
  isFilled : ∀ {s levels x s'}, field.fill s levels x = .ok s' → other.isFilled s' = other.isFilled s
  swap : ∀ {s levels x y s₁ s₂}, field.fill s levels x = .ok s₁ → other.fill s₁ levels y = .ok s₂ →
    ∃ s₁', other.fill s levels y = .ok s₁' ∧ field.fill s₁' levels x = .ok s₂

/-- A field that has been filled in is filled in. -/
def Field.Fills (field : Field σ) : Prop :=
  ∀ s levels x s', field.fill s levels x = .ok s' → field.isFilled s' = true

section Lenses

variable {α β : Type} {name name' : String} {get : σ → Option α} {set : σ → α → σ}
  {read : Decoder α} {get' : σ → Option β} {set' : σ → β → σ} {read' : Decoder β}

theorem Field.fill_of_eq_ok_iff {x : Outline} :
    (Field.of name get set read).fill s levels x = .ok s₁ ↔
      ∃ v, read levels x = .ok v ∧ set s v = s₁ := by
  change (read levels x).map (set s) = .ok s₁ ↔ _
  cases read levels x with
  | error cause => simp [Except.map]
  | ok v => simp [Except.map]

theorem Field.apart_of (hget : ∀ s v, get' (set s v) = get' s)
    (hset : ∀ s v w, set' (set s v) w = set (set' s w) v) :
    (Field.of name get set read).Apart (Field.of name' get' set' read') := by
  constructor
  · intro s levels x s' hfill
    obtain ⟨v, -, rfl⟩ := Field.fill_of_eq_ok_iff.1 hfill
    exact congrArg Option.isSome (hget s v)
  · intro s levels x y s₁ s₂ hfill hother
    obtain ⟨v, hv, rfl⟩ := Field.fill_of_eq_ok_iff.1 hfill
    obtain ⟨w, hw, rfl⟩ := Field.fill_of_eq_ok_iff.1 hother
    rw [hset]
    exact ⟨_, Field.fill_of_eq_ok_iff.2 ⟨w, hw, rfl⟩, Field.fill_of_eq_ok_iff.2 ⟨v, hv, rfl⟩⟩

theorem Field.fills_of (h : ∀ s v, get (set s v) = some v) : (Field.of name get set read).Fills := by
  intro s levels x s' hfill
  obtain ⟨v, -, rfl⟩ := Field.fill_of_eq_ok_iff.1 hfill
  change (get (set s v)).isSome = true
  rw [h, Option.isSome_some]

end Lenses

/-! ### Members one by one -/

section Members

variable {record : Record σ} {name : String} {x : Outline}

/-- A member that names a field which is not filled in yet fills it in. -/
theorem Record.fillMembers_of {α : Type} {get : σ → Option α} {set : σ → α → σ} {read : Decoder α}
    {v : α} {ms : List (Option String × Outline)} {done : Except ReadError σ}
    (hfield : record.fields.find? (·.name = name) = some (.of name get set read))
    (hopen : get s = none) (hread : read levels x = .ok v)
    (hrest : record.fillMembers levels (set s v) ms = done) :
    record.fillMembers levels s ((some name, x) :: ms) = done := by
  simp only [fillMembers, hfield, Field.of, hopen, hread]
  exact hrest

/-- A member that names no field is passed over. -/
theorem Record.fillMembers_of_unknown {ms : List (Option String × Outline)}
    {done : Except ReadError σ} (hfield : record.fields.find? (·.name = name) = none)
    (hx : x.intact = true) (hrest : record.fillMembers levels s ms = done) :
    record.fillMembers levels s ((some name, x) :: ms) = done := by
  simp only [fillMembers, hfield, hx, if_true]
  exact hrest

/-- An object is read member by member, one level deeper. -/
theorem Record.decoder_object {α : Type} {start : σ} {complete : σ → Except ReadError α}
    {ms : List (Option String × Outline)}
    (hread : record.fillMembers (levels + 1) start ms = .ok s) :
    record.decoder start complete (levels + 2) (.object ms true) = complete s := by
  have hnested : record.decoder start complete (levels + 2) (.object ms true) =
      (record.fillMembers (levels + 1) start ms).bind complete := rfl
  rw [hnested, hread, Except.bind]

end Members

/-! ### Orders of members -/

namespace Record

variable {record : Record σ} {m m' : Option String × Outline}
  {ms ms' : List (Option String × Outline)}

/-- The fields of a record do not get into each other's way. -/
structure Orderly (record : Record σ) : Prop where
  apart : record.fields.Pairwise fun field other => field.Apart other ∧ other.Apart field
  fills : ∀ field ∈ record.fields, field.Fills

/-- What a member does: it names no field and is passed over, or it fills in a field. -/
inductive Takes (record : Record σ) (levels : Nat) : σ → Option String × Outline → σ → Prop where
  | unknown {s : σ} {name : String} {x : Outline}
      (find : record.fields.find? (·.name = name) = none) (intact : x.intact = true) :
      Takes record levels s (some name, x) s
  | field {s s' : σ} {name : String} {x : Outline} {field : Field σ}
      (find : record.fields.find? (·.name = name) = some field) (unfilled : field.isFilled s = false)
      (fill : field.fill s levels x = .ok s') : Takes record levels s (some name, x) s'

theorem fillMembers_cons_eq_ok_iff : record.fillMembers levels s (m :: ms) = .ok s₂ ↔
    ∃ s₁, record.Takes levels s m s₁ ∧ record.fillMembers levels s₁ ms = .ok s₂ := by
  constructor
  · intro h
    obtain ⟨_ | name, x⟩ := m
    · cases h
    · rw [fillMembers] at h
      split at h
      · next find =>
        split at h
        · next intact => exact ⟨s, .unknown find intact, h⟩
        · cases h
      · next field find =>
        split at h
        · cases h
        · next unfilled =>
          rw [Bool.not_eq_true] at unfilled
          cases hfill : field.fill s levels x with
          | error cause =>
            rw [hfill] at h
            cases h
          | ok s₁ =>
            rw [hfill] at h
            exact ⟨s₁, .field find unfilled hfill, h⟩
  · rintro ⟨s₁, hm, hrest⟩
    cases hm with
    | unknown find intact => simpa only [fillMembers, find, intact, if_true] using hrest
    | field find unfilled fill =>
      simp only [fillMembers, find, unfilled, fill]
      exact hrest

theorem Orderly.apart_of_ne (h : record.Orderly) {field other : Field σ}
    (hfield : field ∈ record.fields) (hother : other ∈ record.fields) (hne : field ≠ other) :
    field.Apart other ∧ other.Apart field := by
  have : Std.Symm fun field other : Field σ => field.Apart other ∧ other.Apart field :=
    ⟨fun _ _ hboth => hboth.symm⟩
  exact h.apart.forall hfield hother hne

/-- Two members can as well come in the other order. -/
theorem Takes.swap (h : record.Orderly) (hm : record.Takes levels s m s₁)
    (hm' : record.Takes levels s₁ m' s₂) :
    ∃ s₁', record.Takes levels s m' s₁' ∧ record.Takes levels s₁' m s₂ := by
  cases hm with
  | unknown find intact => exact ⟨s₂, hm', .unknown find intact⟩
  | @field _ _ _ field find unfilled fill =>
    cases hm' with
    | unknown find' intact' => exact ⟨s, .unknown find' intact', .field find unfilled fill⟩
    | @field _ _ _ other find' unfilled' fill' =>
      have hfield := List.mem_of_find?_eq_some find
      have hne : field ≠ other := by
        rintro rfl
        cases unfilled'.symm.trans (h.fills field hfield _ _ _ _ fill)
      obtain ⟨hapart, hback⟩ := h.apart_of_ne hfield (List.mem_of_find?_eq_some find') hne
      obtain ⟨s₁', hother, hfill⟩ := hapart.swap fill fill'
      refine ⟨s₁', .field find' ?_ hother, .field find ?_ hfill⟩
      · rw [← hapart.isFilled fill, unfilled']
      · rw [hback.isFilled hother, unfilled]

/-- Members fill in the same fields in any order. -/
theorem fillMembers_perm (h : record.Orderly) (hperm : ms.Perm ms')
    (hread : record.fillMembers levels s ms = .ok s₂) : record.fillMembers levels s ms' = .ok s₂ := by
  induction hperm generalizing s with
  | nil => exact hread
  | cons m _ ih =>
    obtain ⟨s₁, hm, hrest⟩ := fillMembers_cons_eq_ok_iff.1 hread
    exact fillMembers_cons_eq_ok_iff.2 ⟨s₁, hm, ih hrest⟩
  | swap m m' ms =>
    obtain ⟨s₁, hm', hread⟩ := fillMembers_cons_eq_ok_iff.1 hread
    obtain ⟨s₃, hm, hrest⟩ := fillMembers_cons_eq_ok_iff.1 hread
    obtain ⟨s₁', hfirst, hsecond⟩ := hm'.swap h hm
    exact fillMembers_cons_eq_ok_iff.2
      ⟨s₁', hfirst, fillMembers_cons_eq_ok_iff.2 ⟨s₃, hsecond, hrest⟩⟩
  | trans _ _ ih ih' => exact ih' (ih hread)

end Record

/-! ### Documents -/

/-- The documents of a record: the one it is turned into, and the objects with its members in any
order. -/
inductive Documents (value : Json) (members : List (String × Json)) : Json → Prop where
  | value : Documents value members value
  | members {ms : List (String × Json)} (order : ms.Perm members) :
      Documents value members (.object ms)

/-- The texts of a document: on one line, or over many. -/
inductive Prints (x : Json) : String → Prop where
  | line : Prints x x.text
  | lines : Prints x x.pretty

section Documents

variable {α : Type} {x : Json} {ms members : List (String × Json)} {v : α}

theorem Prints.outline {text : String} (h : x.Prints text) : outline text = (x.outlined, true) := by
  cases h with
  | line => exact outline_text x
  | lines => exact outline_pretty x

/-- A value that is read from the outline of a document is read from its texts. -/
theorem Prints.decode {read : Decoder α} {text : String} (h : x.Prints text)
    (hread : read maxDepth x.outlined = .ok v) : Json.decode read text = .ok v := by
  rw [Json.decode, h.outline]
  change (read maxDepth x.outlined).bind _ = _
  rw [hread]
  rfl

theorem outlinedMembers_eq_map (ms : List (String × Json)) :
    outlinedMembers ms = ms.map fun m => (some m.1, m.2.outlined) := by
  induction ms with
  | nil => rfl
  | cons m ms ih => rw [outlinedMembers, ih, List.map_cons]

/-- Members that fill in a record do so in any order. -/
theorem Record.Orderly.decoder_perm {record : Record σ} (h : record.Orderly) {start s : σ}
    {complete : σ → Except ReadError α} (hperm : ms.Perm members)
    (hread : record.fillMembers (levels + 1) start (outlinedMembers members) = .ok s)
    (hcomplete : complete s = .ok v) :
    record.decoder start complete (levels + 2) (Json.object ms).outlined = .ok v := by
  have hms : record.fillMembers (levels + 1) start (outlinedMembers ms) = .ok s := by
    rw [outlinedMembers_eq_map] at hread ⊢
    exact Record.fillMembers_perm h (hperm.symm.map _) hread
  exact (Record.decoder_object hms).trans hcomplete

/-- Members that fill in a record do so from each of its documents. -/
theorem Documents.decoder {record : Record σ} {start s : σ} {complete : σ → Except ReadError α}
    (h : Documents (ofMembers members) members x) (horderly : record.Orderly)
    (hdistinct : Distinct members)
    (hread : record.fillMembers (levels + 1) start (outlinedMembers members) = .ok s)
    (hcomplete : complete s = .ok v) : record.decoder start complete (levels + 2) x.outlined = .ok v := by
  cases h with
  | value =>
    obtain ⟨sorted, hsorted, hperm, -⟩ := exists_perm_ofMembers hdistinct
    rw [hsorted]
    exact horderly.decoder_perm hperm hread hcomplete
  | members order => exact horderly.decoder_perm order hread hcomplete

end Documents

end Lineage.Json
