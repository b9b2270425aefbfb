/-
Texts that are read are written by the grammar.

A text from which the reader takes a document is written from some draft (`exists_padded_of_parse`).
The proof follows the reader: what it takes for a value, for elements or for members is written as
such, and what it passes over between them is space.
-/

import Lineage.Proofs.Json.Acceptance

namespace Lineage.Json

variable {cs before after rest : List Char}

theorem afterWord?_eq_some {word : List Char} (h : afterWord? word cs = some rest) :
    cs = word ++ rest := by
  rw [afterWord?] at h
  split at h
  · next htake =>
    cases h
    calc cs = cs.take word.length ++ cs.drop word.length := (List.take_append_drop ..).symm
      _ = word ++ cs.drop word.length := by rw [htake]
  · cases h

namespace Outline

variable {fuel : Nat}

theorem isSome_jsons?_cons {levels : Nat} {x : Outline} {xs : List Outline} :
    (jsons? levels (x :: xs)).isSome ↔ (json? levels x).isSome ∧ (jsons? levels xs).isSome := by
  rw [jsons?]
  cases json? levels x <;> cases jsons? levels xs <;> simp

theorem isSome_jsonMembers?_cons {levels : Nat} {name : Option String} {x : Outline}
    {ms : List (Option String × Outline)} :
    (jsonMembers? levels ((name, x) :: ms)).isSome ↔
      name.isSome ∧ (json? levels x).isSome ∧ (jsonMembers? levels ms).isSome := by
  rw [jsonMembers?]
  cases name <;> cases json? levels x <;> cases jsonMembers? levels ms <;> simp

/-- A value without parts that is read is written from a draft. -/
theorem exists_written_ofToken {levels : Nat} {x : Outline} (h : ofToken cs = (x, some rest))
    (hx : (x.json? levels).isSome) :
    ∃ (d : Draft) (front : List Char), d.Written front ∧ cs = front ++ rest ∧ d.outlined = x := by
  unfold ofToken at h
  split at h
  · split at h
    · next hread =>
      cases h
      rw [json?, Option.isSome_map] at hx
      obtain ⟨s, rfl⟩ := Option.isSome_iff_exists.1 hx
      obtain ⟨front, rfl, hfront⟩ := stringToken?_eq_some_iff.1 hread
      exact ⟨_, _, .string hfront, by simp, rfl⟩
    · cases h
  · split at h
    · next hword =>
      cases h
      exact ⟨_, _, .null, afterWord?_eq_some hword, rfl⟩
    · cases h
  · split at h
    · next hword =>
      cases h
      exact ⟨_, _, .wordTrue, afterWord?_eq_some hword, rfl⟩
    · cases h
  · split at h
    · next hword =>
      cases h
      exact ⟨_, _, .wordFalse, afterWord?_eq_some hword, rfl⟩
    · cases h
  · split at h
    · next hread =>
      cases h
      obtain ⟨front, hfront, rfl⟩ := exists_writtenNumeral hread
      refine ⟨_, _, .numeral hfront, rfl, ?_⟩
      rw [Draft.outlined, hfront.numeral?]
      rfl
    · cases h

/-- How elements are read up to the closing bracket. -/
theorem elements_inv {xs : List Outline} (h : elements (fuel + 1) cs = (xs, some rest)) :
    ∃ x after, ofChars fuel cs = (x, some after) ∧
      (xs = [x] ∧ skipSpace after = ']' :: rest ∨
        ∃ more xs', skipSpace after = ',' :: more ∧ elements fuel more = (xs', some rest) ∧
          xs = x :: xs') := by
  rw [elements.eq_2] at h
  split at h
  · cases h
  · next x after hread =>
    refine ⟨x, after, hread, ?_⟩
    split at h
    · next hend =>
      cases h
      exact .inl ⟨rfl, hend⟩
    · next more hcomma =>
      obtain ⟨rfl, hrest⟩ := Prod.mk.inj h
      exact .inr ⟨more, (elements fuel more).1, hcomma, Prod.ext rfl hrest, rfl⟩
    · cases h

/-- How members are read up to the closing brace. -/
theorem members_inv {ms : List (Option String × Outline)}
    (h : members (fuel + 1) cs = (ms, some rest)) :
    ∃ inner name after value x after', skipSpace cs = '"' :: inner ∧
      stringToken? inner = some (name, after) ∧ skipSpace after = ':' :: value ∧
        ofChars fuel value = (x, some after') ∧
          (ms = [(name, x)] ∧ skipSpace after' = '\x7d' :: rest ∨
            ∃ more ms', skipSpace after' = ',' :: more ∧ members fuel more = (ms', some rest) ∧
              ms = (name, x) :: ms') := by
  rw [members.eq_2] at h
  split at h
  · next inner hstart =>
    split at h
    · cases h
    · next name after hname =>
      split at h
      · next value hcolon =>
        split at h
        · cases h
        · next x after' hread =>
          refine ⟨inner, name, after, value, x, after', hstart, hname, hcolon, hread, ?_⟩
          split at h
          · next hend =>
            cases h
            exact .inl ⟨rfl, hend⟩
          · next more hcomma =>
            obtain ⟨rfl, hrest⟩ := Prod.mk.inj h
            exact .inr ⟨more, (members fuel more).1, hcomma, Prod.ext rfl hrest, rfl⟩
          · cases h
      · cases h
  · cases h

/-- A value with the space before it and the space that is passed over after it. -/
theorem exists_padded {d : Draft} {front tail : List Char} (hbefore : Spaces before)
    (hd : d.Written front) (hafter : skipSpace after = tail) :
    ∃ text, d.Padded text ∧ before ++ (front ++ after) = text ++ tail := by
  obtain ⟨space, hspace, hsplit⟩ := exists_spaces_skipSpace after
  refine ⟨_, .spaces hbefore hd hspace, ?_⟩
  rw [← hafter, List.append_assoc, List.append_assoc, ← hsplit]

theorem exists_writtenName {name : String} {inner value : List Char}
    (hstart : skipSpace cs = '"' :: inner) (hname : stringToken? inner = some (some name, after))
    (hcolon : skipSpace after = ':' :: value) :
    ∃ front, WrittenName name front ∧ cs = front ++ ':' :: value := by
  obtain ⟨before, hbefore, hcs⟩ := exists_spaces_skipSpace cs
  obtain ⟨space, hspace, hafter⟩ := exists_spaces_skipSpace after
  obtain ⟨quoted, rfl, hquoted⟩ := stringToken?_eq_some_iff.1 hname
  refine ⟨_, .quoted hbefore hquoted hspace, ?_⟩
  rw [hcs, hstart, hafter, hcolon]
  simp

mutual

/-- A value that is read is written from a draft, after some space. -/
theorem exists_written_ofChars : (fuel : Nat) → ∀ {cs rest : List Char} {x : Outline} {levels : Nat},
    ofChars fuel cs = (x, some rest) → (x.json? levels).isSome →
      ∃ (d : Draft) (before front : List Char), Spaces before ∧ d.Written front ∧
        cs = before ++ (front ++ rest) ∧ d.outlined = x
  | 0, _, _, _, _, h, _ => by cases h
  | fuel + 1, cs, _, _, levels, h, hx => by
    obtain ⟨before, hbefore, hcs⟩ := exists_spaces_skipSpace cs
    rw [ofChars.eq_2] at h
    split at h
    · next inner hstart =>
      obtain ⟨space, hspace, hinner⟩ := exists_spaces_skipSpace inner
      split at h
      · next hend =>
        cases h
        refine ⟨_, _, _, hbefore, .emptyArray hspace, ?_, rfl⟩
        rw [hcs, hstart, hinner, hend]
        simp
      · rw [elements_skipSpace] at h
        split at h
        · next helements =>
          cases h
          -- The elements hold documents as the array does, one level deeper.
          rw [json?] at hx
          split at hx
          · cases hx
          rw [Option.isSome_map] at hx
          obtain ⟨ds, front, hds, rfl, rfl⟩ := exists_written_elements fuel helements hx
          refine ⟨_, _, _, hbefore, .array hds, ?_, rfl⟩
          rw [hcs, hstart]
          simp
        · cases h
    · next inner hstart =>
      obtain ⟨space, hspace, hinner⟩ := exists_spaces_skipSpace inner
      split at h
      · next hend =>
        cases h
        refine ⟨_, _, _, hbefore, .emptyObject hspace, ?_, rfl⟩
        rw [hcs, hstart, hinner, hend]
        simp
      · rw [members_skipSpace] at h
        split at h
        · next hmembers =>
          cases h
          rw [json?] at hx
          split at hx
          · cases hx
          rw [Option.isSome_map] at hx
          obtain ⟨ms, front, hms, rfl, rfl⟩ := exists_written_members fuel hmembers hx
          refine ⟨_, _, _, hbefore, .object hms, ?_, rfl⟩
          rw [hcs, hstart]
          simp
        · cases h
    · obtain ⟨d, front, hd, hfront, houtlined⟩ := exists_written_ofToken h hx
      exact ⟨d, before, front, hbefore, hd, hfront ▸ hcs, houtlined⟩
termination_by structural fuel => fuel

/-- Elements that are read are written from drafts. -/
theorem exists_written_elements : (fuel : Nat) →
    ∀ {cs rest : List Char} {xs : List Outline} {levels : Nat},
      elements fuel cs = (xs, some rest) → (jsons? levels xs).isSome →
        ∃ (ds : List Draft) (front : List Char), Draft.WrittenElements ds front ∧
          cs = front ++ ']' :: rest ∧ Draft.outlinedElements ds = xs
  | 0, _, _, _, _, h, _ => by cases h
  | fuel + 1, cs, _, _, levels, h, hxs => by
    obtain ⟨x, after, hread, ⟨rfl, hend⟩ | ⟨more, xs', hcomma, hmore, rfl⟩⟩ := elements_inv h
    · obtain ⟨d, before, front, hbefore, hd, rfl, rfl⟩ :=
        exists_written_ofChars fuel hread (isSome_jsons?_cons.1 hxs).1
      obtain ⟨text, htext, heq⟩ := exists_padded hbefore hd hend
      exact ⟨_, _, .last htext, heq, rfl⟩
    · rw [isSome_jsons?_cons] at hxs
      obtain ⟨d, before, front, hbefore, hd, rfl, rfl⟩ := exists_written_ofChars fuel hread hxs.1
      obtain ⟨ds, back, hds, rfl, rfl⟩ := exists_written_elements fuel hmore hxs.2
      obtain ⟨text, htext, heq⟩ := exists_padded hbefore hd hcomma
      exact ⟨_, _, .more htext hds, by rw [heq, List.append_assoc, List.cons_append], rfl⟩
termination_by structural fuel => fuel

/-- Members that are read are written from names and drafts. -/
theorem exists_written_members : (fuel : Nat) →
    ∀ {cs rest : List Char} {ms : List (Option String × Outline)} {levels : Nat},
      members fuel cs = (ms, some rest) → (jsonMembers? levels ms).isSome →
        ∃ (ds : List (String × Draft)) (front : List Char), Draft.WrittenMembers ds front ∧
          cs = front ++ '\x7d' :: rest ∧ Draft.outlinedMembers ds = ms
  | 0, _, _, _, _, h, _ => by cases h
  | fuel + 1, cs, _, _, levels, h, hms => by
    obtain ⟨inner, name, after, value, x, after', hstart, hname, hcolon, hread, hrest⟩ :=
      members_inv h
    obtain ⟨rfl, hend⟩ | ⟨more, ms', hcomma, hmore, rfl⟩ := hrest
    · obtain ⟨hsome, hx, -⟩ := isSome_jsonMembers?_cons.1 hms
      obtain ⟨name, rfl⟩ := Option.isSome_iff_exists.1 hsome
      obtain ⟨named, hnamed, rfl⟩ := exists_writtenName hstart hname hcolon
      obtain ⟨d, before, front, hbefore, hd, rfl, rfl⟩ := exists_written_ofChars fuel hread hx
      obtain ⟨text, htext, heq⟩ := exists_padded hbefore hd hend
      exact ⟨_, _, .last hnamed htext, by rw [heq, List.append_assoc, List.cons_append], rfl⟩
    · obtain ⟨hsome, hx, hms'⟩ := isSome_jsonMembers?_cons.1 hms
      obtain ⟨name, rfl⟩ := Option.isSome_iff_exists.1 hsome
      obtain ⟨named, hnamed, rfl⟩ := exists_writtenName hstart hname hcolon
      obtain ⟨d, before, front, hbefore, hd, rfl, rfl⟩ := exists_written_ofChars fuel hread hx
      obtain ⟨ds, back, hds, rfl, rfl⟩ := exists_written_members fuel hmore hms'
      obtain ⟨text, htext, heq⟩ := exists_padded hbefore hd hcomma
      exact ⟨_, _, .more hnamed htext hds, by rw [heq]; simp, rfl⟩
termination_by structural fuel => fuel

end

end Outline

/-- A text that is read is written from some draft. -/
theorem exists_padded_of_parse {s : String} {x : Json} (h : parse s = .ok x) :
    ∃ d : Draft, d.Padded s.toList := by
  obtain ⟨hwhole, hx⟩ := parse_eq_ok_iff.1 h
  unfold outline at hwhole hx
  dsimp only at hwhole hx
  split at hwhole
  · next y rest hread =>
    rw [hread] at hx
    obtain ⟨d, before, front, hbefore, hd, hs, -⟩ :=
      Outline.exists_written_ofChars _ hread (Option.isSome_of_eq_some hx)
    obtain ⟨text, htext, heq⟩ := Outline.exists_padded hbefore hd (List.isEmpty_iff.1 hwhole)
    rw [List.append_nil] at heq
    exact ⟨d, hs ▸ heq ▸ htext⟩
  · cases hwhole

end Lineage.Json
