/-
The strings of a JSON text.

A character stands in a string as it is, as a letter after a backslash, or as its 16-bit units with
four hexadecimal digits each. `WrittenChar` lists these ways and knows nothing of the reader, which
takes exactly the strings that are written in them (`stringToken?_eq_some_iff`). The printer writes
each character in one of them, so what it prints reads back.
-/

import Lineage.Json.Outline
import Lineage.Json.Printer
import Lineage.Proofs.Text.Digits

namespace Lineage.Json

/-! ### The ways to write a string -/

/-- The letters after a backslash, and the characters that they stand for. -/
def escapes : List (Char × Char) :=
  [('"', '"'), ('\\', '\\'), ('/', '/'), ('b', '\x08'), ('f', '\x0c'), ('n', '\n'), ('r', '\r'),
    ('t', '\t')]

/-- The 16-bit units of a character: its number, or a high and a low surrogate. -/
def units (c : Char) : List Nat :=
  if c.toNat < 0x10000 then [c.toNat]
  else [0xd800 + (c.toNat - 0x10000) / 0x400, 0xdc00 + (c.toNat - 0x10000) % 0x400]

/-- One character of the text, or one letter after a backslash. -/
inductive WrittenShort (c : Char) : List Char → Prop where
  | plain (hplain : 32 ≤ c.toNat) (hquote : c ≠ '"') (hslash : c ≠ '\\') : WrittenShort c [c]
  | letter {e : Char} (h : (e, c) ∈ escapes) : WrittenShort c ['\\', e]

/-- Four hexadecimal digits, in either case, after a backslash and a `u`. -/
inductive WrittenUnit (n : Nat) : List Char → Prop where
  | digits {a b c d : Char} (h : Text.hexNumber? [a, b, c, d] = some n) :
      WrittenUnit n ['\\', 'u', a, b, c, d]

/-- The ways to write a character in a string. -/
inductive WrittenChar (c : Char) : List Char → Prop where
  | short {cs : List Char} (h : WrittenShort c cs) : WrittenChar c cs
  | unit {n : Nat} {cs : List Char} (hc : units c = [n]) (h : WrittenUnit n cs) : WrittenChar c cs
  | pair {n m : Nat} {cs ds : List Char} (hc : units c = [n, m]) (hhigh : WrittenUnit n cs)
      (hlow : WrittenUnit m ds) : WrittenChar c (cs ++ ds)

/-- The ways to write characters one after the other. -/
inductive WrittenChars : List Char → List Char → Prop where
  | nil : WrittenChars [] []
  | cons {c : Char} {s cs rest : List Char} (h : WrittenChar c cs) (hs : WrittenChars s rest) :
      WrittenChars (c :: s) (cs ++ rest)

/-! ### Pieces of a string -/

/-- The text that pieces come from. -/
inductive Composes : List Piece → List Char → Prop where
  | nil : Composes [] []
  | char {c : Char} {ps : List Piece} {cs rest : List Char} (h : WrittenShort c cs)
      (hps : Composes ps rest) : Composes (.char c :: ps) (cs ++ rest)
  | unit {n : Nat} {ps : List Piece} {cs rest : List Char} (h : WrittenUnit n cs)
      (hps : Composes ps rest) : Composes (.unit n :: ps) (cs ++ rest)

theorem escapeLetter?_eq_some_iff {e c : Char} : escapeLetter? e = some c ↔ (e, c) ∈ escapes := by
  unfold escapeLetter?
  constructor
  · intro h
    split at h
    · next hsame =>
      cases h
      rcases hsame with rfl | rfl | rfl <;> simp [escapes]
    · split_ifs at h <;> cases h <;> simp_all [escapes]
  · intro h
    simp only [escapes, List.mem_cons, Prod.mk.injEq, List.not_mem_nil, or_false] at h
    rcases h with h | h | h | h | h | h | h | h <;> obtain ⟨rfl, rfl⟩ := h <;> rfl

theorem ne_u_of_mem_escapes {e c : Char} (h : (e, c) ∈ escapes) : e ≠ 'u' := by
  rintro rfl
  simp [escapes] at h

theorem WrittenUnit.lt {n : Nat} {cs : List Char} (h : WrittenUnit n cs) : n < 0x10000 := by
  obtain ⟨h⟩ := h
  simpa using Text.hexNumber?_lt h

theorem Composes.pieces? {ps : List Piece} {cs : List Char} (h : Composes ps cs)
    (rest : List Char) : pieces? (cs ++ '"' :: rest) = some (ps, rest) := by
  induction h with
  | nil => rw [List.nil_append, Json.pieces?.eq_2]
  | char h _ ih =>
    cases h with
    | plain hplain hquote hslash =>
      rw [List.append_assoc, List.singleton_append, Json.pieces?.eq_5 _ _ hquote
        (fun _ _ _ _ _ heq _ => hslash heq) fun _ _ heq _ => hslash heq, if_neg, ih]
      · rfl
      · simp [hslash, hplain]
    | letter h =>
      rw [List.append_assoc, List.cons_append, List.singleton_append,
        Json.pieces?.eq_4 _ _ fun _ _ _ _ _ heq _ => ne_u_of_mem_escapes h heq,
        escapeLetter?_eq_some_iff.2 h, ih]
      rfl
  | unit h _ ih =>
    obtain ⟨h⟩ := h
    simp only [List.cons_append, List.nil_append]
    rw [Json.pieces?.eq_3, unit?, h, ih]
    rfl

/-- The pieces that are read are those that the text is composed of. -/
theorem exists_composes {cs rest : List Char} {ps : List Piece}
    (h : pieces? cs = some (ps, rest)) : ∃ front, cs = front ++ '"' :: rest ∧ Composes ps front := by
  fun_induction Json.pieces? cs generalizing ps with
  | case1 => cases h
  | case2 rest =>
    cases h
    exact ⟨[], rfl, .nil⟩
  | case3 a b c d after ih =>
    obtain ⟨n, hn, h⟩ := Option.bind_eq_some_iff.1 h
    obtain ⟨read, hread, h⟩ := Option.bind_eq_some_iff.1 h
    cases h
    obtain ⟨front, rfl, hfront⟩ := ih hread
    exact ⟨_, rfl, .unit (.digits hn) hfront⟩
  | case4 e after _ ih =>
    obtain ⟨c, hc, h⟩ := Option.bind_eq_some_iff.1 h
    obtain ⟨read, hread, h⟩ := Option.bind_eq_some_iff.1 h
    cases h
    obtain ⟨front, rfl, hfront⟩ := ih hread
    exact ⟨_, rfl, .char (.letter (escapeLetter?_eq_some_iff.1 hc)) hfront⟩
  | case5 => cases h
  | case6 c after hquote _ _ hplain ih =>
    obtain ⟨read, hread, h⟩ := Option.bind_eq_some_iff.1 h
    cases h
    rw [not_or, Nat.not_lt] at hplain
    obtain ⟨front, rfl, hfront⟩ := ih hread
    exact ⟨_, rfl, .char (.plain hplain.1 hquote hplain.2) hfront⟩

/-! ### Units -/

section Units

variable {c : Char} {n m : Nat} {ps : List Piece}

theorem isValidChar_toNat (c : Char) : c.toNat < 0xd800 ∨ 0xdfff < c.toNat ∧ c.toNat < 0x110000 :=
  c.valid

theorem toNat_ofNat (h : n < 0xd800 ∨ 0xdfff < n ∧ n < 0x110000) : (Char.ofNat n).toNat = n := by
  rw [Char.ofNat, dif_pos h]
  rfl

theorem toNat_of_units (h : units c = [n]) : c.toNat = n ∧ (n < 0xd800 ∨ 0xdfff < n) := by
  have hvalid := isValidChar_toNat c
  unfold units at h
  split at h
  · cases h
    exact ⟨rfl, hvalid.imp_right And.left⟩
  · cases h

theorem toNat_of_units_pair (h : units c = [n, m]) :
    0xd800 ≤ n ∧ n < 0xdc00 ∧ 0xdc00 ≤ m ∧ m ≤ 0xdfff ∧
      c.toNat = 0x10000 + (n - 0xd800) * 0x400 + (m - 0xdc00) := by
  have hvalid := isValidChar_toNat c
  unfold units at h
  split at h
  · cases h
  · simp only [List.cons.injEq, and_true] at h
    omega

theorem units_of_lt (h : n < 0xd800 ∨ 0xdfff < n ∧ n < 0x10000) : units (Char.ofNat n) = [n] := by
  rw [units, toNat_ofNat (by omega), if_pos (by omega)]

theorem units_of_pair (hn : 0xd800 ≤ n) (hn' : n < 0xdc00) (hm : 0xdc00 ≤ m) (hm' : m ≤ 0xdfff) :
    units (Char.ofNat (0x10000 + (n - 0xd800) * 0x400 + (m - 0xdc00))) = [n, m] := by
  rw [units, toNat_ofNat (by omega), if_neg (by omega)]
  simp only [List.cons.injEq, and_true]
  omega

theorem assemble_unit (h : n < 0xd800 ∨ 0xdfff < n) :
    assemble (.unit n :: ps) = (assemble ps).map (Char.ofNat n :: ·) := by
  rw [assemble.eq_def]
  exact if_pos h

theorem assemble_pair (hn : 0xd800 ≤ n) (hn' : n < 0xdc00) (hm : 0xdc00 ≤ m) (hm' : m ≤ 0xdfff) :
    assemble (.unit n :: .unit m :: ps) = (assemble ps).map
      (Char.ofNat (0x10000 + (n - 0xd800) * 0x400 + (m - 0xdc00)) :: ·) := by
  rw [assemble.eq_def]
  dsimp only
  rw [if_neg (by omega), if_neg (by omega), if_pos ⟨hm, hm'⟩]

end Units

/-! ### The strings that are read -/

/-- A text that is written in one of these ways is composed of pieces that make up the characters. -/
theorem WrittenChars.exists_composes {s cs : List Char} (h : WrittenChars s cs) :
    ∃ ps, Composes ps cs ∧ assemble ps = some s := by
  induction h with
  | nil => exact ⟨[], .nil, rfl⟩
  | @cons c s cs rest h _ ih =>
    obtain ⟨ps, hps, hs⟩ := ih
    cases h with
    | short h => exact ⟨_, .char h hps, by rw [assemble, hs, Option.map_some]⟩
    | unit hc h =>
      obtain ⟨rfl, hrange⟩ := toNat_of_units hc
      exact ⟨_, .unit h hps, by
        rw [assemble_unit hrange, hs, Char.ofNat_toNat, Option.map_some]⟩
    | pair hc hhigh hlow =>
      obtain ⟨hn, hn', hm, hm', hvalue⟩ := toNat_of_units_pair hc
      rw [List.append_assoc]
      exact ⟨_, .unit hhigh (.unit hlow hps), by
        rw [assemble_pair hn hn' hm hm', ← hvalue, hs, Char.ofNat_toNat, Option.map_some]⟩

/-- Pieces that make up characters come from a text that is written in one of these ways. -/
theorem Composes.writtenChars {ps : List Piece} {s cs : List Char} (h : Composes ps cs)
    (hs : assemble ps = some s) : WrittenChars s cs := by
  fun_induction assemble ps generalizing s cs with
  | case1 =>
    cases hs
    cases h
    exact .nil
  | case2 c ps ih =>
    obtain ⟨t, ht, rfl⟩ := Option.map_eq_some_iff.1 hs
    cases h with
    | char h hps => exact .cons (.short h) (ih hps ht)
  | case3 n ps hrange ih =>
    obtain ⟨t, ht, rfl⟩ := Option.map_eq_some_iff.1 hs
    cases h with
    | unit h hps =>
      -- Four digits denote less than 2¹⁶, so the unit is all of its character.
      have hlt := h.lt
      exact .cons (.unit (units_of_lt (by omega)) h) (ih hps ht)
  | case5 n hlow hhigh m ps hm ih =>
    obtain ⟨t, ht, rfl⟩ := Option.map_eq_some_iff.1 hs
    cases h with
    | unit h hps =>
      cases hps with
      | unit h' hps =>
        rw [← List.append_assoc]
        exact .cons (.pair (units_of_pair (by omega) (by omega) hm.1 hm.2) h h') (ih hps ht)
  | _ => cases hs

/-- The reader takes the strings that are written up to a quote. -/
theorem stringToken?_eq_some_iff {s : String} {cs rest : List Char} :
    stringToken? cs = some (some s, rest) ↔
      ∃ front, cs = front ++ '"' :: rest ∧ WrittenChars s.toList front := by
  constructor
  · intro h
    obtain ⟨read, hread, h⟩ := Option.bind_eq_some_iff.1 h
    obtain ⟨hs, rfl⟩ := Prod.mk.inj (Option.some.inj h)
    obtain ⟨t, ht, rfl⟩ := Option.map_eq_some_iff.1 hs
    obtain ⟨front, rfl, hfront⟩ := exists_composes hread
    rw [String.toList_ofList]
    exact ⟨front, rfl, hfront.writtenChars ht⟩
  · rintro ⟨front, rfl, h⟩
    obtain ⟨ps, hps, hs⟩ := h.exists_composes
    simp only [stringToken?, hps.pieces? rest, Option.bind_eq_bind, Option.bind_some, hs,
      Option.map_some, String.ofList_toList, Option.pure_def]

/-! ### The strings that are printed -/

theorem hexNumber?_digits {n : Nat} (h : n < 256) :
    Text.hexNumber? ['0', '0', Nat.digitChar (n / 16), Nat.digitChar (n % 16)] = some n := by
  have hhigh := Text.hexValue?_digitChar (n / 16) (by omega)
  have hlow := Text.hexValue?_digitChar (n % 16) (by omega)
  have hzero : Text.hexValue? '0' = some 0 := by decide
  simp only [Text.hexNumber?, List.foldlM_cons, List.foldlM_nil, hzero, hhigh, hlow,
    Option.map_some, Option.bind_eq_bind, Option.bind_some, Option.pure_def, Option.some.injEq]
  omega

/-- A character is printed in one of the ways to write it. -/
theorem writtenChar_escapedChar (c : Char) : WrittenChar c (escapedChar c) := by
  have hletter : ∀ {n : Nat} {e : Char}, c.toNat = n → (e, Char.ofNat n) ∈ escapes →
      WrittenChar c ['\\', e] := by
    rintro n e rfl h
    rw [Char.ofNat_toNat] at h
    exact .short (.letter h)
  unfold escapedChar
  split
  · next h =>
    rcases h with rfl | rfl
    · exact .short (.letter (by simp [escapes]))
    · exact .short (.letter (by simp [escapes]))
  split
  · next h => exact hletter h (by simp [escapes])
  split
  · next h => exact hletter h (by simp [escapes])
  split
  · next h => exact hletter h (by simp [escapes])
  split
  · next h => exact hletter h (by simp [escapes])
  split
  · next h => exact hletter h (by simp [escapes])
  split
  · next h =>
    have hunits : units c = [c.toNat] := if_pos (by omega)
    exact .unit hunits (.digits (hexNumber?_digits (by omega)))
  · next hspecial _ _ _ _ _ hplain =>
    rw [not_or] at hspecial
    exact .short (.plain (Nat.not_lt.1 hplain) hspecial.1 hspecial.2)

theorem writtenChars_escaped (s : List Char) : WrittenChars s (s.flatMap escapedChar) := by
  induction s with
  | nil => exact .nil
  | cons c s ih => exact .cons (writtenChar_escapedChar c) ih

end Lineage.Json
