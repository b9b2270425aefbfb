/-
A printed document reads back.

`Json.outlined` is the outline that the text of a document has, because the text is written by the
grammar (`written_chars`). Reading a document from the outline gives the document itself if it is
`Legible` and does not nest too deep. If its integers are in range it gives some document, exactly as
long as it does not nest too deep.
-/

import Lineage.Proofs.Json.Acceptance

namespace Lineage

/-- A number that reads back: an integer in the range of integers, or a floating-point number whose
text denotes it. -/
def Number.Legible : Number → Prop
  | .integer n => -Json.maxNegative ≤ n ∧ n ≤ Json.maxSignificand
  | .real x => Json.ReadsBack (.real x)

theorem Number.Legible.readsBack {n : Number} (h : n.Legible) : Json.ReadsBack n := by
  cases n with
  | integer n => exact Json.readsBack_integer h.1 h.2
  | real x => exact h

/-- The number that the text of a number denotes, if there is one. A floating-point number may
come back as a neighbour. -/
def Number.denoted? (n : Number) : Option Number :=
  (Json.numeral? n.chars).bind fun read => read.1.number?

theorem Number.Legible.denoted? {n : Number} (h : n.Legible) : n.denoted? = some n := by
  obtain ⟨numeral, hread, hn⟩ := h.readsBack
  rw [Number.denoted?, hread]
  exact hn

/-- An integer between -2⁶³ and 2⁶⁴ - 1, or a floating-point number. -/
def Number.InRange : Number → Prop
  | .integer n => -Json.maxNegative ≤ n ∧ n ≤ Json.maxSignificand
  | .real _ => True

theorem Number.InRange.isSome_denoted? {n : Number} (h : n.InRange) : n.denoted?.isSome := by
  cases n with
  | integer n => exact Option.isSome_of_eq_some (Number.Legible.denoted? (n := .integer n) h)
  | real x =>
    obtain ⟨numeral, hread, hn⟩ := Json.exists_numeral_real x
    rw [Number.denoted?, hread]
    exact hn

namespace Json

mutual

/-- A document whose integers are in range. -/
def InRange : Json → Prop
  | .number n => n.InRange
  | .array xs => InRangeElements xs
  | .object ms => InRangeMembers ms
  | _ => True
termination_by structural x => x

/-- Elements whose integers are in range. -/
def InRangeElements : List Json → Prop
  | [] => True
  | x :: xs => InRange x ∧ InRangeElements xs
termination_by structural x => x

/-- Members whose integers are in range. -/
def InRangeMembers : List (String × Json) → Prop
  | [] => True
  | (_, x) :: ms => InRange x ∧ InRangeMembers ms
termination_by structural x => x

end

mutual

/-- A document whose numbers read back, and whose objects have their members in order, each name
once, as `ofMembers` builds them. -/
def Legible : Json → Prop
  | .number n => n.Legible
  | .array xs => LegibleElements xs
  | .object ms => (ms.map Prod.fst).Pairwise (Text.compareText · · = .lt) ∧ LegibleMembers ms
  | _ => True
termination_by structural x => x

/-- Elements that are all legible. -/
def LegibleElements : List Json → Prop
  | [] => True
  | x :: xs => Legible x ∧ LegibleElements xs
termination_by structural x => x

/-- Members that are all legible. -/
def LegibleMembers : List (String × Json) → Prop
  | [] => True
  | (_, x) :: ms => Legible x ∧ LegibleMembers ms
termination_by structural x => x

end

mutual

/-- The outline of the text of a document. -/
def outlined : Json → Outline
  | .null => .null
  | .bool b => .bool b
  | .number n => .number n.denoted?
  | .string s => .string (some s)
  | .array xs => .array (outlinedElements xs) true
  | .object ms => .object (outlinedMembers ms) true
termination_by structural x => x

/-- The outlines of elements. -/
def outlinedElements : List Json → List Outline
  | [] => []
  | x :: xs => outlined x :: outlinedElements xs
termination_by structural x => x

/-- The names and outlines of members. -/
def outlinedMembers : List (String × Json) → List (Option String × Outline)
  | [] => []
  | (name, x) :: ms => (some name, outlined x) :: outlinedMembers ms
termination_by structural x => x

end

/-! ### Documents -/

mutual

/-- A document as it is printed. -/
def draft : Json → Draft
  | .null => .null
  | .bool b => .bool b
  | .number n => .numeral n.chars
  | .string s => .string s
  | .array xs => .array (draftElements xs)
  | .object ms => .object (draftMembers ms)
termination_by structural x => x

/-- Elements as they are printed. -/
def draftElements : List Json → List Draft
  | [] => []
  | x :: xs => draft x :: draftElements xs
termination_by structural x => x

/-- Members as they are printed. -/
def draftMembers : List (String × Json) → List (String × Draft)
  | [] => []
  | (name, x) :: ms => (name, draft x) :: draftMembers ms
termination_by structural x => x

end

mutual

theorem outlined_draft : (x : Json) → x.draft.outlined = x.outlined
  | .null => rfl
  | .bool _ => rfl
  | .number _ => rfl
  | .string _ => rfl
  | .array xs => by rw [draft, Draft.outlined, outlinedElements_draft xs, outlined]
  | .object ms => by rw [draft, Draft.outlined, outlinedMembers_draft ms, outlined]
termination_by structural x => x

theorem outlinedElements_draft :
    (xs : List Json) → Draft.outlinedElements (draftElements xs) = outlinedElements xs
  | [] => rfl
  | x :: xs => by
    rw [draftElements, Draft.outlinedElements, outlined_draft x, outlinedElements_draft xs,
      outlinedElements]
termination_by structural xs => xs

theorem outlinedMembers_draft : (ms : List (String × Json)) →
    Draft.outlinedMembers (draftMembers ms) = outlinedMembers ms
  | [] => rfl
  | (name, x) :: ms => by
    rw [draftMembers, Draft.outlinedMembers, outlined_draft x, outlinedMembers_draft ms,
      outlinedMembers]
termination_by structural ms => ms

end

theorem written_numeral (n : Number) : Draft.Written (.numeral n.chars) n.chars := by
  obtain ⟨numeral, hread⟩ := exists_numeral_chars n
  obtain ⟨front, hfront, hchars⟩ := exists_writtenNumeral hread
  rw [hchars, List.append_nil]
  exact .numeral hfront

theorem written_string (s : String) : Draft.Written (.string s) (stringChars s) :=
  .string (writtenChars_escaped s.toList)

theorem writtenName_stringChars (name : String) : WrittenName name (stringChars name) :=
  .quoted spaces_nil (writtenChars_escaped name.toList) spaces_nil

theorem Draft.Written.padded {d : Draft} {cs : List Char} (h : d.Written cs) : d.Padded cs := by
  have hspaces := Draft.Padded.spaces spaces_nil h spaces_nil
  rwa [List.nil_append, List.append_nil] at hspaces

mutual

/-- A document is printed by the grammar. -/
theorem written_chars : (x : Json) → x.draft.Written x.chars
  | .null => .null
  | .bool true => .wordTrue
  | .bool false => .wordFalse
  | .number n => written_numeral n
  | .string s => written_string s
  | .array [] => .emptyArray spaces_nil
  | .array (x :: xs) => .array (written_elementChars (x :: xs) (List.cons_ne_nil x xs))
  | .object [] => .emptyObject spaces_nil
  | .object (m :: ms) => .object (written_memberChars (m :: ms) (List.cons_ne_nil m ms))
termination_by structural x => x

theorem written_elementChars : (xs : List Json) → xs ≠ [] →
    Draft.WrittenElements (draftElements xs) (elementChars xs)
  | [], hne => absurd rfl hne
  | [x], _ => .last (written_chars x).padded
  | x :: y :: ys, _ =>
    .more (written_chars x).padded (written_elementChars (y :: ys) (List.cons_ne_nil y ys))
termination_by structural xs => xs

theorem written_memberChars : (ms : List (String × Json)) → ms ≠ [] →
    Draft.WrittenMembers (draftMembers ms) (memberChars ms)
  | [], hne => absurd rfl hne
  | [(name, x)], _ => .last (writtenName_stringChars name) (written_chars x).padded
  | (name, x) :: m :: ms, _ => by
    have hmore := written_memberChars (m :: ms) (List.cons_ne_nil m ms)
    rw [memberChars, List.append_assoc, List.cons_append]
    · exact .more (writtenName_stringChars name) (written_chars x).padded hmore
    · nofun
termination_by structural ms => ms

end

/-! ### The document of an outline -/

theorem insertMember_of_last {name : String} {ms : List (String × Json)} (x : Json)
    (h : ∀ m ∈ ms, Text.compareText m.1 name = .lt) :
    insertMember name x ms = ms ++ [(name, x)] := by
  induction ms with
  | nil => rfl
  | cons m ms ih =>
    rw [List.forall_mem_cons] at h
    have hswap : Text.compareText name m.1 = .gt := by
      rw [Text.compareText_swap, h.1]
      rfl
    rw [insertMember, hswap, ih h.2]
    rfl

theorem mem_insertMember {name : String} {x : Json} {ms : List (String × Json)}
    {m : String × Json} (h : m ∈ insertMember name x ms) : m = (name, x) ∨ m ∈ ms := by
  induction ms with
  | nil => exact .inl (List.mem_singleton.1 h)
  | cons other rest ih =>
    rw [insertMember] at h
    split at h
    · exact List.mem_cons.1 h
    · rcases List.mem_cons.1 h with rfl | hm
      · exact .inl rfl
      · exact .inr (List.mem_cons_of_mem _ hm)
    · rcases List.mem_cons.1 h with rfl | hm
      · exact .inr List.mem_cons_self
      · exact (ih hm).imp_right (List.mem_cons_of_mem _)

theorem sorted_insertMember (name : String) (x : Json) {ms : List (String × Json)}
    (h : (ms.map Prod.fst).Pairwise (Text.compareText · · = .lt)) :
    ((insertMember name x ms).map Prod.fst).Pairwise (Text.compareText · · = .lt) := by
  induction ms with
  | nil => exact List.pairwise_singleton ..
  | cons other rest ih =>
    rw [List.map_cons, List.pairwise_cons] at h
    rw [insertMember]
    split
    · next hlt =>
      rw [List.map_cons, List.pairwise_cons, List.map_cons, List.pairwise_cons]
      refine ⟨?_, h⟩
      rw [List.forall_mem_cons]
      exact ⟨hlt, fun later hm => Std.TransCmp.lt_trans hlt (h.1 later hm)⟩
    · next heq =>
      rw [Text.compareText_eq_iff.1 heq]
      exact List.pairwise_cons.2 h
    · next hgt =>
      rw [List.map_cons, List.pairwise_cons]
      refine ⟨?_, ih h.2⟩
      intro later hlater
      obtain ⟨m, hm, rfl⟩ := List.mem_map.1 hlater
      rcases mem_insertMember hm with rfl | hm
      · rw [Text.compareText_swap, hgt]
        rfl
      · exact h.1 m.1 (List.mem_map_of_mem hm)

theorem legibleMembers_iff {ms : List (String × Json)} :
    LegibleMembers ms ↔ ∀ m ∈ ms, m.2.Legible := by
  induction ms with
  | nil => simp [LegibleMembers]
  | cons m ms ih => rw [LegibleMembers, ih, List.forall_mem_cons]

/-- An object that is built from legible members is legible, in whatever order they come. -/
theorem legible_ofMembers {ms : List (String × Json)} (h : ∀ m ∈ ms, m.2.Legible) :
    (ofMembers ms).Legible := by
  have hfold : ∀ (ms before : List (String × Json)), Legible (.object before) →
      (∀ m ∈ ms, m.2.Legible) →
        Legible (.object (ms.foldl (fun sorted m => insertMember m.1 m.2 sorted) before)) := by
    intro ms
    induction ms with
    | nil => exact fun _ hbefore _ => hbefore
    | cons m ms ih =>
      intro before hbefore hms
      rw [List.forall_mem_cons] at hms
      refine ih _ ⟨sorted_insertMember m.1 m.2 hbefore.1, ?_⟩ hms.2
      rw [legibleMembers_iff]
      intro other hm
      rcases mem_insertMember hm with rfl | hm
      · exact hms.1
      · exact legibleMembers_iff.1 hbefore.2 other hm
  exact hfold ms [] ⟨List.Pairwise.nil, trivial⟩ h

/-- Members that are in order, each name once, make up an object as they are. -/
theorem ofMembers_of_sorted {ms : List (String × Json)}
    (h : (ms.map Prod.fst).Pairwise (Text.compareText · · = .lt)) : ofMembers ms = .object ms := by
  -- Each member comes after those that were put in before it.
  have hfold : ∀ after before : List (String × Json),
      ((before ++ after).map Prod.fst).Pairwise (Text.compareText · · = .lt) →
        after.foldl (fun sorted m => insertMember m.1 m.2 sorted) before = before ++ after := by
    intro after
    induction after with
    | nil => exact fun before _ => (List.append_nil before).symm
    | cons m after ih =>
      intro before hsorted
      have hlast : insertMember m.1 m.2 before = before ++ [m] := by
        rw [List.map_append, List.map_cons, List.pairwise_append] at hsorted
        refine insertMember_of_last m.2 fun other hm => ?_
        exact hsorted.2.2 other.1 (List.mem_map_of_mem hm) m.1 List.mem_cons_self
      rw [List.foldl_cons, hlast, ih, List.append_assoc, List.singleton_append]
      rwa [List.append_assoc, List.singleton_append]
  rw [ofMembers, hfold ms [] h, List.nil_append]

mutual

/-- The outline of a document holds the document, when more levels are left than it has. -/
theorem json?_outlined : (x : Json) → x.Legible → ∀ {levels : Nat}, x.depth < levels →
    x.outlined.json? levels = some x
  | .null, _, _, _ => rfl
  | .bool _, _, _, _ => rfl
  | .number n, h, _, _ => by
    rw [outlined, Outline.json?, Number.Legible.denoted? h]
    rfl
  | .string _, _, _, _ => rfl
  | .array xs, h, levels, hdepth => by
    rw [depth] at hdepth
    rw [outlined, Outline.json?, if_neg (by simp; omega),
      jsons?_outlinedElements xs h (by omega)]
    rfl
  | .object ms, h, levels, hdepth => by
    rw [depth] at hdepth
    rw [outlined, Outline.json?, if_neg (by simp; omega),
      jsonMembers?_outlinedMembers ms h.2 (by omega), Option.map_some, ofMembers_of_sorted h.1]
termination_by structural x => x

theorem jsons?_outlinedElements : (xs : List Json) → LegibleElements xs → ∀ {levels : Nat},
    depthElements xs < levels → Outline.jsons? levels (outlinedElements xs) = some xs
  | [], _, _, _ => rfl
  | x :: xs, h, levels, hdepth => by
    rw [depthElements, Nat.max_lt] at hdepth
    rw [outlinedElements, Outline.jsons?, json?_outlined x h.1 hdepth.1,
      jsons?_outlinedElements xs h.2 hdepth.2]
    rfl
termination_by structural xs => xs

theorem jsonMembers?_outlinedMembers : (ms : List (String × Json)) → LegibleMembers ms →
    ∀ {levels : Nat}, depthMembers ms < levels →
      Outline.jsonMembers? levels (outlinedMembers ms) = some ms
  | [], _, _, _ => rfl
  | (name, x) :: ms, h, levels, hdepth => by
    rw [depthMembers, Nat.max_lt] at hdepth
    rw [outlinedMembers, Outline.jsonMembers?, json?_outlined x h.1 hdepth.1,
      jsonMembers?_outlinedMembers ms h.2 hdepth.2]
    rfl
termination_by structural ms => ms

end

mutual

/-- The outline of a document holds some document, exactly when more levels are left than the
document has. -/
theorem isSome_json?_outlined : (x : Json) → x.InRange → ∀ {levels : Nat}, 0 < levels →
    ((x.outlined.json? levels).isSome ↔ x.depth < levels)
  | .null, _, _, hlevels => iff_of_true rfl hlevels
  | .bool _, _, _, hlevels => iff_of_true rfl hlevels
  | .number n, h, _, hlevels => by
    rw [outlined, Outline.json?, Option.isSome_map]
    exact iff_of_true (Number.InRange.isSome_denoted? h) hlevels
  | .string _, _, _, hlevels => iff_of_true rfl hlevels
  | .array xs, h, levels, hlevels => by
    rw [outlined, Outline.json?, depth]
    by_cases hone : levels ≤ 1
    · rw [if_pos (.inl hone)]
      exact iff_of_false Bool.false_ne_true (by omega)
    · rw [if_neg (by simp [hone]), Option.isSome_map,
        isSome_jsons?_outlinedElements xs h (by omega)]
      omega
  | .object ms, h, levels, hlevels => by
    rw [outlined, Outline.json?, depth]
    by_cases hone : levels ≤ 1
    · rw [if_pos (.inl hone)]
      exact iff_of_false Bool.false_ne_true (by omega)
    · rw [if_neg (by simp [hone]), Option.isSome_map,
        isSome_jsonMembers?_outlinedMembers ms h (by omega)]
      omega
termination_by structural x => x

theorem isSome_jsons?_outlinedElements : (xs : List Json) → InRangeElements xs →
    ∀ {levels : Nat}, 0 < levels →
      ((Outline.jsons? levels (outlinedElements xs)).isSome ↔ depthElements xs < levels)
  | [], _, _, hlevels => iff_of_true rfl hlevels
  | x :: xs, h, levels, hlevels => by
    rw [outlinedElements, Outline.jsons?, depthElements, Nat.max_lt,
      ← isSome_json?_outlined x h.1 hlevels, ← isSome_jsons?_outlinedElements xs h.2 hlevels]
    cases x.outlined.json? levels <;> cases Outline.jsons? levels (outlinedElements xs) <;> simp
termination_by structural xs => xs

theorem isSome_jsonMembers?_outlinedMembers : (ms : List (String × Json)) → InRangeMembers ms →
    ∀ {levels : Nat}, 0 < levels →
      ((Outline.jsonMembers? levels (outlinedMembers ms)).isSome ↔ depthMembers ms < levels)
  | [], _, _, hlevels => iff_of_true rfl hlevels
  | (name, x) :: ms, h, levels, hlevels => by
    rw [outlinedMembers, Outline.jsonMembers?, depthMembers, Nat.max_lt,
      ← isSome_json?_outlined x h.1 hlevels, ← isSome_jsonMembers?_outlinedMembers ms h.2 hlevels]
    cases x.outlined.json? levels <;>
      cases Outline.jsonMembers? levels (outlinedMembers ms) <;> simp
termination_by structural ms => ms

end

/-! ### Texts -/

theorem padded_text (x : Json) : x.draft.Padded x.text.toList := by
  rw [text, String.toList_ofList]
  exact (written_chars x).padded

theorem outline_text (x : Json) : outline x.text = (x.outlined, true) := by
  rw [(padded_text x).outline, outlined_draft]

theorem parse_text_eq_ok_iff {x y : Json} :
    parse x.text = .ok y ↔ x.outlined.json? maxDepth = some y := by
  rw [(padded_text x).parse_eq_ok_iff, outlined_draft]

/-- A printed document reads back. -/
theorem parse_text {x : Json} (h : x.Legible) (hdepth : x.depth < maxDepth) :
    parse x.text = .ok x :=
  parse_text_eq_ok_iff.2 (json?_outlined x h hdepth)

/-- The text of a document whose integers are in range is read, unless it nests too deep. -/
theorem exists_parse_text_iff {x : Json} (h : x.InRange) :
    (∃ y, parse x.text = .ok y) ↔ x.depth < maxDepth := by
  rw [← isSome_json?_outlined x h (by decide), Option.isSome_iff_exists]
  simp only [parse_text_eq_ok_iff]

/-! ### Documents that come back -/

/-- A document whose text can be read: its integers are in range, and it does not nest too deep. -/
structure Readable (x : Json) : Prop where
  inRange : x.InRange
  shallow : x.depth < maxDepth

/-- A document that can be stored as a text. -/
structure Storable (x : Json) : Prop where
  legible : x.Legible
  shallow : x.depth < maxDepth

/-- A document that can be stored as a text, and that an object around it does not make too deep. -/
structure Portable (x : Json) : Prop where
  legible : x.Legible
  shallow : x.depth + 1 < maxDepth

theorem Portable.storable {x : Json} (h : x.Portable) : x.Storable :=
  ⟨h.legible, Nat.lt_of_succ_lt h.shallow⟩

end Json

end Lineage
