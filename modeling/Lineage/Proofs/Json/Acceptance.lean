/-
Texts that are written by the grammar are read.

In a text that is written from a draft the reader finds the outline of the draft
(`Draft.Padded.outline`), whatever space the text has in it and however its strings are written.
-/

import Mathlib.Data.List.DropRight
import Lineage.Proofs.Json.Grammar

namespace Lineage.Json

variable {c : Char} {cs before after rest rest' : List Char}

/-! ### Space -/

theorem skipSpace_of_head (h : isSpace c = false) (cs : List Char) :
    skipSpace (c :: cs) = c :: cs := by
  rw [skipSpace, List.dropWhile_cons_of_neg (by simp [h])]

theorem skipSpace_append (h : Spaces before) (cs : List Char) :
    skipSpace (before ++ cs) = skipSpace cs :=
  List.dropWhile_append_of_pos h

theorem skipSpace_idem (cs : List Char) : skipSpace (skipSpace cs) = skipSpace cs :=
  List.dropWhile_idempotent isSpace cs

theorem exists_spaces_skipSpace (cs : List Char) :
    ∃ before, Spaces before ∧ cs = before ++ skipSpace cs :=
  ⟨cs.takeWhile isSpace, fun _ => List.mem_takeWhile_imp, List.takeWhile_append_dropWhile.symm⟩

theorem endsValue_spaces (h : Spaces after) (hrest : EndsValue rest) : EndsValue (after ++ rest) := by
  cases after with
  | nil => exact hrest
  | cons c after =>
    rintro _ ⟨⟩
    exact .inr (.inr (.inr (h c List.mem_cons_self)))

theorem endsValue_comma (rest : List Char) : EndsValue (',' :: rest) := by
  simp [EndsValue]

theorem endsValue_bracket (rest : List Char) : EndsValue (']' :: rest) := by
  simp [EndsValue]

theorem endsValue_brace (rest : List Char) : EndsValue ('\x7d' :: rest) := by
  simp [EndsValue]

namespace Outline

variable {fuel : Nat} {x : Outline} {ds : List Char}

/-- A value is found after any space. -/
theorem ofChars_skipSpace (fuel : Nat) (cs : List Char) :
    ofChars fuel (skipSpace cs) = ofChars fuel cs := by
  cases fuel with
  | zero => rfl
  | succ fuel => rw [ofChars.eq_2, skipSpace_idem, ofChars.eq_2]

theorem ofChars_spaces (h : Spaces before) (fuel : Nat) (cs : List Char) :
    ofChars fuel (before ++ cs) = ofChars fuel cs := by
  rw [← ofChars_skipSpace, skipSpace_append h, ofChars_skipSpace]

theorem elements_skipSpace (fuel : Nat) (cs : List Char) :
    elements fuel (skipSpace cs) = elements fuel cs := by
  cases fuel with
  | zero => rfl
  | succ fuel => rw [elements.eq_2, ofChars_skipSpace, elements.eq_2]

theorem members_skipSpace (fuel : Nat) (cs : List Char) :
    members fuel (skipSpace cs) = members fuel cs := by
  cases fuel with
  | zero => rfl
  | succ fuel => simp only [members.eq_2, skipSpace_idem]

/-! ### Tokens -/

/-- A character that is neither a space nor a bracket nor an opening brace. -/
def StartsToken (c : Char) : Prop :=
  isSpace c = false ∧ c ≠ '[' ∧ c ≠ ']' ∧ c ≠ '\x7b'

instance (c : Char) : Decidable (StartsToken c) :=
  inferInstanceAs (Decidable (_ ∧ _))

theorem ofChars_token (h : StartsToken c) (fuel : Nat) (cs : List Char) :
    ofChars (fuel + 1) (c :: cs) = ofToken (c :: cs) := by
  rw [ofChars.eq_2, skipSpace_of_head h.1]
  split
  · next heq => exact absurd (List.cons.inj heq).1 h.2.1
  · next heq => exact absurd (List.cons.inj heq).1 h.2.2.2
  · rfl

/-- A numeral starts no other kind of value. -/
theorem startsToken_of_numeral (h : c = '-' ∨ c.isDigit = true) :
    StartsToken c ∧ c ≠ '"' ∧ c ≠ 'n' ∧ c ≠ 't' ∧ c ≠ 'f' := by
  have hne : ∀ d : Char, d ≠ '-' → d.isDigit = false → c ≠ d := by
    rintro d hminus hdigit rfl
    rcases h with rfl | h
    · exact hminus rfl
    · rw [hdigit] at h
      cases h
  have hspace : isSpace c = false := by
    simp [isSpace, hne ' ' (by decide) (by decide), hne '\t' (by decide) (by decide),
      hne '\n' (by decide) (by decide), hne '\r' (by decide) (by decide)]
  exact ⟨⟨hspace, hne _ (by decide) (by decide), hne _ (by decide) (by decide),
    hne _ (by decide) (by decide)⟩, hne _ (by decide) (by decide), hne _ (by decide) (by decide),
    hne _ (by decide) (by decide), hne _ (by decide) (by decide)⟩

theorem ofToken_string {s : String} (h : WrittenChars s.toList cs) (rest : List Char) :
    ofToken ('"' :: (cs ++ '"' :: rest)) = (.string (some s), some rest) := by
  rw [ofToken.eq_1, stringToken?_eq_some_iff.2 ⟨cs, rfl, h⟩]

theorem ofChars_numeral {n : Numeral} (h : numeral? cs = some (n, [])) (hrest : EndsValue rest)
    (fuel : Nat) : ofChars (fuel + 1) (cs ++ rest) = (.number n.number?, some rest) := by
  obtain ⟨c, after, hcs, hc⟩ := exists_head_of_numeral? h
  obtain ⟨htoken, hquote, hnull, htrue, hfalse⟩ := startsToken_of_numeral hc
  have hall : numeral? (cs ++ rest) = some (n, rest) := by
    rw [numeral?_append hrest (by simp [hcs]), h]
    rfl
  rw [hcs, List.cons_append] at hall ⊢
  rw [ofChars_token htoken, ofToken.eq_5, hall]
  · exact fun _ heq => hquote (List.cons.inj heq).1
  · exact fun _ heq => hnull (List.cons.inj heq).1
  · exact fun _ heq => htrue (List.cons.inj heq).1
  · exact fun _ heq => hfalse (List.cons.inj heq).1

/-! ### Arrays and objects -/

theorem ofChars_bracket (fuel : Nat) (cs : List Char) :
    ofChars (fuel + 1) ('[' :: cs) =
      match skipSpace cs with
      | ']' :: rest => (.array [] true, some rest)
      | rest =>
        match elements fuel rest with
        | (xs, some rest) => (.array xs true, some rest)
        | (xs, none) => (.array xs false, none) := rfl

theorem ofChars_brace (fuel : Nat) (cs : List Char) :
    ofChars (fuel + 1) ('\x7b' :: cs) =
      match skipSpace cs with
      | '\x7d' :: rest => (.object [] true, some rest)
      | rest =>
        match members fuel rest with
        | (ms, some rest) => (.object ms true, some rest)
        | (ms, none) => (.object ms false, none) := rfl

theorem ofChars_array {xs : List Outline} (hstart : skipSpace cs = c :: after) (hc : c ≠ ']')
    (h : elements fuel cs = (xs, some rest)) :
    ofChars (fuel + 1) ('[' :: cs) = (.array xs true, some rest) := by
  rw [← elements_skipSpace, hstart] at h
  rw [ofChars_bracket, hstart]
  split
  · next heq => exact absurd (List.cons.inj heq).1 hc
  · rw [h]

theorem ofChars_object {ms : List (Option String × Outline)} (hstart : skipSpace cs = '"' :: after)
    (h : members fuel cs = (ms, some rest)) :
    ofChars (fuel + 1) ('\x7b' :: cs) = (.object ms true, some rest) := by
  rw [← members_skipSpace, hstart] at h
  rw [ofChars_brace, hstart]
  split
  · next heq => exact absurd (List.cons.inj heq).1 (by decide)
  · rw [h]

theorem elements_last (h : ofChars fuel cs = (x, some after))
    (hafter : skipSpace after = ']' :: rest) : elements (fuel + 1) cs = ([x], some rest) := by
  simp only [elements.eq_2, h, hafter]

theorem elements_more {xs : List Outline} (h : ofChars fuel cs = (x, some after))
    (hafter : skipSpace after = ',' :: rest) (hmore : elements fuel rest = (xs, some rest')) :
    elements (fuel + 1) cs = (x :: xs, some rest') := by
  simp only [elements.eq_2, h, hafter, hmore]

end Outline

/-- The name of a member is read, and the space around it is passed over. -/
theorem WrittenName.exists_token {name : String} (h : WrittenName name cs) (rest : List Char) :
    ∃ inner after, skipSpace (cs ++ rest) = '"' :: inner ∧
      stringToken? inner = some (some name, after) ∧ skipSpace after = skipSpace rest := by
  cases h with
  | @quoted before after cs hbefore h hafter =>
    refine ⟨cs ++ '"' :: (after ++ rest), after ++ rest, ?_, ?_, skipSpace_append hafter rest⟩
    · rw [List.append_assoc, skipSpace_append hbefore, List.cons_append, List.append_assoc,
        List.cons_append, skipSpace_of_head (by decide)]
    · exact stringToken?_eq_some_iff.2 ⟨cs, rfl, h⟩

namespace Outline

variable {fuel : Nat} {x : Outline} {ds : List Char} {name : String}

theorem members_last (hname : WrittenName name cs) (h : ofChars fuel ds = (x, some after))
    (hafter : skipSpace after = '\x7d' :: rest) :
    members (fuel + 1) (cs ++ ':' :: ds) = ([(some name, x)], some rest) := by
  obtain ⟨_, _, hstart, hread, hcolon⟩ := hname.exists_token (':' :: ds)
  rw [skipSpace_of_head (by decide)] at hcolon
  simp only [members.eq_2, hstart, hread, hcolon, h, hafter]

theorem members_more {ms : List (Option String × Outline)} (hname : WrittenName name cs)
    (h : ofChars fuel ds = (x, some after)) (hafter : skipSpace after = ',' :: rest)
    (hmore : members fuel rest = (ms, some rest')) :
    members (fuel + 1) (cs ++ ':' :: ds) = ((some name, x) :: ms, some rest') := by
  obtain ⟨_, _, hstart, hread, hcolon⟩ := hname.exists_token (':' :: ds)
  rw [skipSpace_of_head (by decide)] at hcolon
  simp only [members.eq_2, hstart, hread, hcolon, h, hafter, hmore]

end Outline

/-! ### Texts of the grammar are read -/

namespace Draft

theorem Written.exists_head {x : Draft} (h : Written x cs) :
    ∃ c after, cs = c :: after ∧ isSpace c = false ∧ c ≠ ']' := by
  cases h with
  | numeral h =>
    obtain ⟨c, after, hcs, hc⟩ := exists_head_of_numeral? h.numeral?
    have hstart := (Outline.startsToken_of_numeral hc).1
    exact ⟨c, after, hcs, hstart.1, hstart.2.2.1⟩
  | _ => exact ⟨_, _, rfl, by decide, by decide⟩

theorem Padded.exists_head {x : Draft} (h : Padded x cs) (rest : List Char) :
    ∃ c after, skipSpace (cs ++ rest) = c :: after ∧ c ≠ ']' := by
  obtain ⟨hbefore, h, -⟩ := h
  obtain ⟨c, after, rfl, hspace, hc⟩ := h.exists_head
  rw [List.append_assoc, skipSpace_append hbefore, List.append_assoc, List.cons_append,
    skipSpace_of_head hspace]
  exact ⟨c, _, rfl, hc⟩

theorem WrittenElements.exists_head {xs : List Draft} (h : WrittenElements xs cs)
    (rest : List Char) : ∃ c after, skipSpace (cs ++ rest) = c :: after ∧ c ≠ ']' := by
  cases h with
  | last h => exact h.exists_head rest
  | more h _ =>
    rw [List.append_assoc]
    exact h.exists_head _

theorem WrittenMembers.exists_head {ms : List (String × Draft)} (h : WrittenMembers ms cs)
    (rest : List Char) : ∃ inner, skipSpace (cs ++ rest) = '"' :: inner := by
  cases h with
  | last hname _ | more hname _ _ =>
    rw [List.append_assoc]
    obtain ⟨inner, _, hstart, -⟩ := hname.exists_token _
    exact ⟨inner, hstart⟩

mutual

/-- A value is read to its end, whatever ends it in the text. -/
theorem Written.ofChars : {x : Draft} → {cs : List Char} → Written x cs →
    ∀ (rest : List Char) (fuel : Nat), EndsValue rest → 2 * cs.length ≤ fuel →
      Outline.ofChars fuel (cs ++ rest) = (x.outlined, some rest)
  | _, _, .null, rest, fuel + 1, _, _ => Outline.ofChars_token (by decide) fuel _
  | _, _, .wordTrue, rest, fuel + 1, _, _ => Outline.ofChars_token (by decide) fuel _
  | _, _, .wordFalse, rest, fuel + 1, _, _ => Outline.ofChars_token (by decide) fuel _
  | _, _, .numeral h, rest, fuel + 1, hrest, _ => by
    rw [Outline.ofChars_numeral h.numeral? hrest, outlined, h.numeral?]
    rfl
  | _, _, .string h, rest, fuel + 1, _, _ => by
    rw [List.cons_append, List.append_assoc, Outline.ofChars_token (by decide)]
    exact Outline.ofToken_string h rest
  | _, _, .emptyArray h, rest, fuel + 1, _, _ => by
    rw [List.cons_append, List.append_assoc, Outline.ofChars_bracket, skipSpace_append h]
    rfl
  | _, _, .array h, rest, fuel + 1, _, hfuel => by
    simp only [List.length_cons, List.length_append] at hfuel
    rw [List.cons_append, List.append_assoc]
    obtain ⟨c, after, hstart, hc⟩ := h.exists_head (']' :: rest)
    exact Outline.ofChars_array hstart hc (h.elements rest fuel (by omega))
  | _, _, .emptyObject h, rest, fuel + 1, _, _ => by
    rw [List.cons_append, List.append_assoc, Outline.ofChars_brace, skipSpace_append h]
    rfl
  | _, _, .object h, rest, fuel + 1, _, hfuel => by
    simp only [List.length_cons, List.length_append] at hfuel
    rw [List.cons_append, List.append_assoc]
    obtain ⟨inner, hstart⟩ := h.exists_head ('\x7d' :: rest)
    exact Outline.ofChars_object hstart (h.members rest fuel (by omega))
  | x, cs, h, rest, 0, _, hfuel => by
    -- A value is at least one character long, so there is fuel for it.
    obtain ⟨c, after, rfl, -⟩ := h.exists_head
    simp at hfuel

/-- A value with space around it is read up to the space after it. -/
theorem Padded.ofChars : {x : Draft} → {cs : List Char} → Padded x cs →
    ∀ (rest : List Char) (fuel : Nat), EndsValue rest → 2 * cs.length ≤ fuel →
      ∃ after, Outline.ofChars fuel (cs ++ rest) = (x.outlined, some after) ∧
        skipSpace after = skipSpace rest
  | _, _, .spaces hbefore h hafter, rest, fuel, hrest, hfuel => by
    refine ⟨_, ?_, skipSpace_append hafter rest⟩
    rw [List.append_assoc, List.append_assoc, Outline.ofChars_spaces hbefore]
    simp only [List.length_append] at hfuel
    exact h.ofChars _ fuel (endsValue_spaces hafter hrest) (by omega)

/-- Elements are read up to the closing bracket. -/
theorem WrittenElements.elements : {xs : List Draft} → {cs : List Char} → WrittenElements xs cs →
    ∀ (rest : List Char) (fuel : Nat), 2 * cs.length + 1 ≤ fuel →
      Outline.elements fuel (cs ++ ']' :: rest) = (outlinedElements xs, some rest)
  | _, _, .last h, rest, fuel + 1, hfuel => by
    obtain ⟨after, hread, hafter⟩ := h.ofChars (']' :: rest) fuel (endsValue_bracket rest) (by omega)
    exact Outline.elements_last hread hafter
  | _, _, .more h hmore, rest, fuel + 1, hfuel => by
    simp only [List.length_append, List.length_cons] at hfuel
    rw [List.append_assoc, List.cons_append]
    obtain ⟨after, hread, hafter⟩ := h.ofChars _ fuel (endsValue_comma _) (by omega)
    exact Outline.elements_more hread hafter (hmore.elements rest fuel (by omega))
  | _, _, _, _, 0, hfuel => absurd hfuel (Nat.not_succ_le_zero _)

/-- Members are read up to the closing brace. -/
theorem WrittenMembers.members : {ms : List (String × Draft)} → {cs : List Char} →
    WrittenMembers ms cs → ∀ (rest : List Char) (fuel : Nat), 2 * cs.length + 1 ≤ fuel →
      Outline.members fuel (cs ++ '\x7d' :: rest) = (outlinedMembers ms, some rest)
  | _, _, .last hname h, rest, fuel + 1, hfuel => by
    simp only [List.length_append, List.length_cons] at hfuel
    rw [List.append_assoc, List.cons_append]
    obtain ⟨after, hread, hafter⟩ := h.ofChars _ fuel (endsValue_brace rest) (by omega)
    exact Outline.members_last hname hread hafter
  | _, _, .more hname h hmore, rest, fuel + 1, hfuel => by
    simp only [List.length_append, List.length_cons] at hfuel
    rw [List.append_assoc, List.cons_append, List.append_assoc, List.cons_append]
    obtain ⟨after, hread, hafter⟩ := h.ofChars _ fuel (endsValue_comma _) (by omega)
    exact Outline.members_more hname hread hafter (hmore.members rest fuel (by omega))
  | _, _, _, _, 0, hfuel => absurd hfuel (Nat.not_succ_le_zero _)

end

/-- The outline of a whole text is that of the draft from which it is written. -/
theorem Padded.outline {x : Draft} {s : String} (h : Padded x s.toList) :
    outline s = (x.outlined, true) := by
  obtain ⟨after, hread, hafter⟩ := h.ofChars [] (2 * s.toList.length + 1) nofun (Nat.le_succ _)
  rw [List.append_nil] at hread
  rw [Json.outline, hread]
  simp only [hafter]
  rfl

end Draft

/-- A text is read as a document exactly if its outline is whole and holds the document. -/
theorem parse_eq_ok_iff {s : String} {x : Json} :
    parse s = .ok x ↔ (outline s).2 = true ∧ (outline s).1.json? maxDepth = some x := by
  simp only [parse, decode, Decoder.json]
  cases (outline s).1.json? maxDepth with
  | none => simp [bind, Except.bind]
  | some y =>
    cases (outline s).2 <;> simp [bind, Except.bind, pure, Except.pure, throw, throwThe,
      MonadExceptOf.throw]

/-- The document of a text that is written from a draft. -/
theorem Draft.Padded.parse_eq_ok_iff {d : Draft} {s : String} {x : Json} (h : d.Padded s.toList) :
    parse s = .ok x ↔ d.outlined.json? maxDepth = some x := by
  rw [Json.parse_eq_ok_iff, h.outline]
  exact and_iff_right rfl

end Lineage.Json
