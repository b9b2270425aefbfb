/-
The texts that are versions, and what their parts are.

A `Spelling` holds the parts in which a version is written: its numerals, and the identifiers of a
prerelease and of a build. `Spelling.Legal` says which parts there may be, without the reader.
`Spelling.ofChars` cuts any characters into parts, legal or not, and loses nothing; legal parts come
back from their characters. So a text is a version exactly if the parts into which it is cut are
legal, and no text is written in two ways (`parse?_grammar`).
-/

import Lineage.Proofs.Version.Grammar

namespace Lineage.Version

/-! ### The grammar -/

/-- A character of an identifier: an ASCII letter, a decimal digit or a hyphen. -/
def IsLetter (c : Char) : Prop :=
  ('a' ≤ c ∧ c ≤ 'z') ∨ ('A' ≤ c ∧ c ≤ 'Z') ∨ ('0' ≤ c ∧ c ≤ '9') ∨ c = '-'

/-- A decimal numeral without superfluous zeros, of a number that 64 bits can hold. -/
structure IsNumeral (cs : List Char) : Prop where
  ne_nil : cs ≠ []
  digits : ∀ c ∈ cs, '0' ≤ c ∧ c ≤ '9'
  leading : cs.head? = some '0' → cs = ['0']
  value_lt : Text.value cs < 2 ^ 64

/-- At least one identifier, and none without characters. -/
structure IsIdentifierList (ids : List (List Char)) : Prop where
  ne_nil : ids ≠ []
  id_ne_nil : ∀ id ∈ ids, id ≠ []
  letters : ∀ id ∈ ids, ∀ c ∈ id, IsLetter c

/-- The parts in which a version is written: its numerals, and the identifiers of a prerelease and
of a build, if there is one. -/
structure Spelling where
  numerals : List (List Char)
  prerelease : Option (List (List Char))
  build : Option (List (List Char))
deriving DecidableEq, Repr

/-- The characters of a part that a mark introduces: the mark, and the identifiers with dots between
them. -/
def markedChars (mark : Char) : Option (List (List Char)) → List Char
  | none => []
  | some ids => mark :: Text.join '.' ids

namespace Spelling

/-- The characters of the parts: the numerals with dots between them, the prerelease after a hyphen,
and the build after a plus sign. -/
def chars (d : Spelling) : List Char :=
  Text.join '.' d.numerals ++ markedChars '-' d.prerelease ++ markedChars '+' d.build

/-- The parts that a version may be written in. -/
structure Legal (d : Spelling) : Prop where
  numerals_ne_nil : d.numerals ≠ []
  length_numerals_le : d.numerals.length ≤ 3
  isNumeral : ∀ cs ∈ d.numerals, IsNumeral cs
  prerelease : ∀ ids ∈ d.prerelease, IsIdentifierList ids
  build : ∀ ids ∈ d.build, IsIdentifierList ids

/-- A text is written in legal parts: without the blank characters around it, and without a `v` that
it may start with then, it is the characters of the parts. -/
structure Writes (d : Spelling) (s : String) : Prop where
  legal : d.Legal
  framed : ∃ before letter after, s.toList = before ++ (letter ++ d.chars ++ after) ∧
    (∀ c ∈ before, Text.isBlank c = true) ∧ (letter = [] ∨ letter = ['v']) ∧
    ∀ c ∈ after, Text.isBlank c = true

end Spelling

/-- The text of a prerelease, if there is one. -/
def prereleaseText? (v : Version) : Option String :=
  if v.isRelease then none
  else some (String.ofList (Text.join '.' (v.prerelease.map String.toList)))

/-- A version holds what its parts say: the values of the numerals, with zeros for those that are
not written, their number, and the text of the prerelease. -/
structure Holds (v : Version) (d : Spelling) : Prop where
  numbers : [v.major, v.minor, v.patch] = (d.numerals.map Text.value ++ [0, 0, 0]).take 3
  count : v.components.length = d.numerals.length
  prerelease : v.prereleaseText? =
    d.prerelease.map fun ids => String.ofList (Text.join '.' ids)

/-! ### Cutting a text into parts -/

namespace Spelling

/-- The parts into which characters are cut: at the first plus sign, then at the first hyphen, then
at the dots. -/
def ofChars (cs : List Char) : Spelling :=
  let (rest, build) := Text.cut '+' cs
  let (core, prerelease) := Text.cut '-' rest
  ⟨Text.split '.' core, prerelease.map (Text.split '.'), build.map (Text.split '.')⟩

theorem append_markedChars (mark : Char) (cs : List Char) :
    (Text.cut mark cs).1 ++ markedChars mark ((Text.cut mark cs).2.map (Text.split '.')) = cs := by
  have h := Text.append_cut mark cs
  cases htail : (Text.cut mark cs).2 with
  | none =>
    rw [htail] at h
    exact h
  | some after =>
    rw [htail] at h
    rw [Option.map_some, markedChars, Text.join_split]
    exact h

/-- Cutting loses nothing. -/
theorem chars_ofChars (cs : List Char) : (ofChars cs).chars = cs := by
  rw [chars, ofChars, Text.join_split, append_markedChars, append_markedChars]

theorem cut_markedChars {mark : Char} {cs : List Char} (h : mark ∉ cs)
    (part : Option (List (List Char))) :
    Text.cut mark (cs ++ markedChars mark part) = (cs, part.map (Text.join '.')) := by
  cases part with
  | none => rw [markedChars, List.append_nil, Text.cut_eq_self h, Option.map_none]
  | some ids => rw [markedChars, Text.cut_append_cons h, Option.map_some]

end Spelling

/-! ### Characters of legal parts -/

theorem isDigit_iff {c : Char} : c.isDigit = true ↔ '0' ≤ c ∧ c ≤ '9' := by
  simp [Char.isDigit, Char.le_def]

theorem isIdentifierChar_iff {c : Char} : isIdentifierChar c = true ↔ IsLetter c := by
  have halpha : c.isAlpha = (c.isUpper || c.isLower) := rfl
  have hupper : c.isUpper = decide (c.val ≥ 'A'.val ∧ c.val ≤ 'Z'.val) := rfl
  have hlower : c.isLower = (decide (c.val ≥ 'a'.val) && decide (c.val ≤ 'z'.val)) := rfl
  simp only [isIdentifierChar, Char.isAlphanum, halpha, hupper, hlower, Bool.or_eq_true,
    isDigit_iff, IsLetter, Bool.and_eq_true, decide_eq_true_eq, beq_iff_eq, Char.le_def]
  tauto

namespace IsIdentifierList

variable {ids : List (List Char)}

theorem isIdentifier (h : IsIdentifierList ids) : ∀ id ∈ ids, isIdentifier id = true := by
  intro id hid
  rw [Version.isIdentifier, Bool.and_eq_true, Bool.not_eq_true', List.isEmpty_eq_false_iff,
    List.all_eq_true]
  exact ⟨h.id_ne_nil id hid, fun c hc => isIdentifierChar_iff.2 (h.letters id hid c hc)⟩

theorem dot_not_mem (h : IsIdentifierList ids) : ∀ id ∈ ids, '.' ∉ id := fun id hid hdot =>
  ne_of_isIdentifier (h.isIdentifier id hid) hdot rfl rfl

theorem split_join (h : IsIdentifierList ids) : Text.split '.' (Text.join '.' ids) = ids :=
  Text.split_join h.ne_nil h.dot_not_mem

theorem isVersionChar (h : IsIdentifierList ids) {c : Char} (hc : c ∈ Text.join '.' ids) :
    isVersionChar c = true :=
  isVersionChar_of_mem_pieces h.isIdentifier hc

end IsIdentifierList

namespace Spelling

variable {d : Spelling}

namespace Legal

theorem mem_core (h : d.Legal) {c : Char} (hc : c ∈ Text.join '.' d.numerals) :
    c.isDigit = true ∨ c = '.' := by
  rcases Text.mem_join hc with rfl | ⟨cs, hcs, hmem⟩
  · exact .inr rfl
  · exact .inl (isDigit_iff.2 ((h.isNumeral cs hcs).digits c hmem))

theorem split_core (h : d.Legal) : Text.split '.' (Text.join '.' d.numerals) = d.numerals := by
  refine Text.split_join h.numerals_ne_nil fun cs hcs hdot => ?_
  have hdigit := isDigit_iff.2 ((h.isNumeral cs hcs).digits '.' hdot)
  cases hdigit

theorem split_part {part : Option (List (List Char))} (h : ∀ ids ∈ part, IsIdentifierList ids) :
    (part.map (Text.join '.')).map (Text.split '.') = part := by
  cases part with
  | none => rfl
  | some ids => rw [Option.map_some, Option.map_some, (h ids rfl).split_join]

theorem mem_part {mark c : Char} {part : Option (List (List Char))}
    (h : ∀ ids ∈ part, IsIdentifierList ids) (hc : c ∈ markedChars mark part) :
    c = mark ∨ isVersionChar c = true := by
  cases part with
  | none => cases hc
  | some ids => exact (List.mem_cons.1 hc).imp_right (h ids rfl).isVersionChar

theorem isVersionChar_of_mem (h : d.Legal) {c : Char}
    (hc : c ∈ Text.join '.' d.numerals ++ markedChars '-' d.prerelease) :
    isVersionChar c = true := by
  rcases List.mem_append.1 hc with hcore | hpart
  · rcases h.mem_core hcore with hdigit | rfl
    · exact isVersionChar_of_isDigit hdigit
    · rfl
  · rcases mem_part h.prerelease hpart with rfl | hchar
    · rfl
    · exact hchar

theorem isBlank_of_mem (h : d.Legal) {c : Char} (hc : c ∈ d.chars) : Text.isBlank c = false := by
  rcases List.mem_append.1 hc with hfront | hbuild
  · exact isBlank_eq_false (h.isVersionChar_of_mem hfront)
  · rcases mem_part h.build hbuild with rfl | hchar
    · rfl
    · exact isBlank_eq_false hchar

/-- Legal parts begin with a digit. -/
theorem exists_digit_chars (h : d.Legal) :
    ∃ c cs, d.chars = c :: cs ∧ c.isDigit = true := by
  cases hnumerals : d.numerals with
  | nil => exact absurd hnumerals h.numerals_ne_nil
  | cons numeral rest =>
    have hfirst : IsNumeral numeral := h.isNumeral numeral (hnumerals ▸ List.mem_cons_self)
    cases numeral with
    | nil => exact absurd rfl hfirst.ne_nil
    | cons c cs =>
      have hdigit := isDigit_iff.2 (hfirst.digits c List.mem_cons_self)
      rw [chars, hnumerals]
      cases rest with
      | nil => exact ⟨c, _, rfl, hdigit⟩
      | cons next others => exact ⟨c, _, rfl, hdigit⟩

end Legal

/-- Legal parts come back from their characters. -/
theorem ofChars_chars (h : d.Legal) : ofChars d.chars = d := by
  have hplus : '+' ∉ Text.join '.' d.numerals ++ markedChars '-' d.prerelease := fun hc => by
    cases h.isVersionChar_of_mem hc
  have hhyphen : '-' ∉ Text.join '.' d.numerals := fun hc => by
    rcases h.mem_core hc with hd | hd <;> cases hd
  simp only [ofChars, chars, cut_markedChars hplus, cut_markedChars hhyphen, h.split_core,
    Legal.split_part h.prerelease, Legal.split_part h.build]

end Spelling

/-! ### Reading parts -/

theorem isDigits_iff {cs : List Char} :
    Text.isDigits cs = true ↔ cs ≠ [] ∧ ∀ c ∈ cs, '0' ≤ c ∧ c ≤ '9' := by
  simp only [Text.isDigits, Bool.and_eq_true, Bool.not_eq_true', List.isEmpty_eq_false_iff,
    List.all_eq_true, isDigit_iff]

theorem head?_zero_iff {cs : List Char} :
    ¬ (cs.head? = some '0' ∧ cs.length ≠ 1) ↔ (cs.head? = some '0' → cs = ['0']) := by
  rw [not_and_not_right]
  refine imp_congr_right fun hhead => ⟨fun hlength => ?_, fun h => h ▸ rfl⟩
  obtain ⟨c, rfl⟩ := List.length_eq_one_iff.1 hlength
  rw [Option.some.inj hhead]

/-- A component is read from a numeral and from nothing else, and it is the value of the numeral. -/
theorem component?_eq_some_iff {cs : List Char} {n : Nat} :
    component? cs = some n ↔ IsNumeral cs ∧ Text.value cs = n := by
  have hmax : Text.value cs < 2 ^ 64 ↔ Text.value cs ≤ maxComponent := Nat.lt_succ_iff
  constructor
  · intro h
    simp only [component?, Bool.not_eq_true', Option.ite_none_left_eq_some,
      Option.ite_none_right_eq_some, Bool.not_eq_false, Option.some.injEq] at h
    obtain ⟨hdigits, hzero, hle, hvalue⟩ := h
    obtain ⟨hne, hall⟩ := isDigits_iff.1 hdigits
    exact ⟨⟨hne, hall, head?_zero_iff.1 hzero, hmax.2 hle⟩, hvalue⟩
  · rintro ⟨h, rfl⟩
    have hdigits : Text.isDigits cs = true := isDigits_iff.2 ⟨h.ne_nil, h.digits⟩
    rw [component?, hdigits, Bool.not_true, if_neg Bool.false_ne_true,
      if_neg (head?_zero_iff.2 h.leading), if_pos (hmax.1 h.value_lt)]

theorem mapM_component?_eq_some_iff {parts : List (List Char)} {ns : List Nat} :
    parts.mapM component? = some ns ↔
      (∀ cs ∈ parts, IsNumeral cs) ∧ parts.map Text.value = ns := by
  induction parts generalizing ns with
  | nil => simp
  | cons part parts ih =>
    simp only [List.mapM_cons, Option.bind_eq_bind, Option.bind_eq_some_iff, Option.pure_def,
      Option.some.injEq, component?_eq_some_iff, ih, List.forall_mem_cons, List.map_cons]
    constructor
    · rintro ⟨_, ⟨hpart, rfl⟩, _, ⟨hparts, rfl⟩, rfl⟩
      exact ⟨⟨hpart, hparts⟩, rfl⟩
    · rintro ⟨⟨hpart, hparts⟩, rfl⟩
      exact ⟨_, ⟨hpart, rfl⟩, _, ⟨hparts, rfl⟩, rfl⟩

theorem isIdentifier_iff {cs : List Char} :
    isIdentifier cs = true ↔ cs ≠ [] ∧ ∀ c ∈ cs, IsLetter c := by
  simp only [isIdentifier, Bool.and_eq_true, Bool.not_eq_true', List.isEmpty_eq_false_iff,
    List.all_eq_true, isIdentifierChar_iff]

theorem suffix?_eq_some_iff {tail : Option (List Char)} {ids : List (List Char)} :
    suffix? tail = some ids ↔
      (∀ list ∈ tail.map (Text.split '.'), IsIdentifierList list) ∧
        (tail.map (Text.split '.')).getD [] = ids := by
  cases tail with
  | none => simp [suffix?]
  | some cs =>
    have hlist : (Text.split '.' cs).all isIdentifier = true ↔
        IsIdentifierList (Text.split '.' cs) := by
      simp only [List.all_eq_true, isIdentifier_iff]
      constructor
      · intro h
        exact ⟨Text.split_ne_nil _ _, fun id hid => (h id hid).1, fun id hid => (h id hid).2⟩
      · intro h id hid
        exact ⟨h.id_ne_nil id hid, h.letters id hid⟩
    simp [suffix?, identifiers?, hlist]

namespace Spelling

/-- The version that parts denote. -/
def version (d : Spelling) : Version :=
  ⟨d.numerals.map Text.value, (d.prerelease.getD []).map String.ofList⟩

end Spelling

/-- Characters denote a version exactly if the parts into which they are cut are legal, and then the
version is the one of these parts. -/
theorem ofChars?_eq_some_iff {cs : List Char} {v : Version} :
    ofChars? cs = some v ↔
      (Spelling.ofChars (body cs)).Legal ∧ (Spelling.ofChars (body cs)).version = v := by
  constructor
  · intro h
    simp only [ofChars?, Option.bind_eq_bind, Option.bind_eq_some_iff, Option.pure_def,
      Option.some.injEq, suffix?_eq_some_iff, components?, Option.ite_none_right_eq_some,
      mapM_component?_eq_some_iff] at h
    obtain ⟨_, ⟨hbuild, -⟩, _, ⟨hprerelease, rfl⟩, _, ⟨hlength, hnumerals, rfl⟩, rfl⟩ := h
    exact ⟨⟨Text.split_ne_nil _ _, hlength, hnumerals, hprerelease, hbuild⟩, rfl⟩
  · rintro ⟨h, rfl⟩
    simp only [ofChars?, Option.bind_eq_bind, Option.bind_eq_some_iff, Option.pure_def,
      Option.some.injEq, suffix?_eq_some_iff, components?, Option.ite_none_right_eq_some,
      mapM_component?_eq_some_iff]
    exact ⟨_, ⟨h.build, rfl⟩, _, ⟨h.prerelease, rfl⟩, _, ⟨h.length_numerals_le, h.isNumeral, rfl⟩,
      rfl⟩

/-! ### What stands around the parts -/

theorem exists_append_body (cs : List Char) :
    ∃ before letter after, cs = before ++ (letter ++ body cs ++ after) ∧
      (∀ c ∈ before, Text.isBlank c = true) ∧ (letter = [] ∨ letter = ['v']) ∧
      ∀ c ∈ after, Text.isBlank c = true := by
  obtain ⟨before, after, hcs, hbefore, hafter⟩ := Text.exists_append_trimChars cs
  have hbody : Text.trimChars cs = 'v' :: body cs ∨ Text.trimChars cs = body cs := by
    unfold body
    split
    · next h => exact .inl h
    · exact .inr rfl
  rcases hbody with h | h <;> rw [h] at hcs
  · exact ⟨before, ['v'], after, hcs, hbefore, .inr rfl, hafter⟩
  · exact ⟨before, [], after, hcs, hbefore, .inl rfl, hafter⟩

namespace Spelling

variable {d : Spelling}

/-- A text is written in parts exactly if they are legal and their characters are what is left of
the text. -/
theorem writes_iff {s : String} : d.Writes s ↔ d.Legal ∧ body s.toList = d.chars := by
  constructor
  · rintro ⟨h, before, letter, after, hs, hbefore, hletter, hafter⟩
    refine ⟨h, ?_⟩
    rw [hs]
    exact body_append hbefore hletter (fun _ => h.isBlank_of_mem) h.exists_digit_chars hafter
  · rintro ⟨h, hbody⟩
    refine ⟨h, ?_⟩
    rw [← hbody]
    exact exists_append_body s.toList

/-- The parts in which a text is written are those into which it is cut. -/
theorem Writes.eq_ofChars {s : String} (h : d.Writes s) : d = ofChars (body s.toList) := by
  obtain ⟨hlegal, hbody⟩ := writes_iff.1 h
  rw [hbody, ofChars_chars hlegal]

/-- A text is written in the parts into which it is cut if they are legal. -/
theorem writes_ofChars {s : String} (h : (ofChars (body s.toList)).Legal) :
    (ofChars (body s.toList)).Writes s :=
  writes_iff.2 ⟨h, (chars_ofChars _).symm⟩

/-! ### What a version holds of its parts -/

theorem numbers_eq_take (v : Version) :
    [v.major, v.minor, v.patch] = (v.components ++ [0, 0, 0]).take 3 := by
  simp only [major, minor, patch, component]
  match v.components with
  | [] => rfl
  | [_] => rfl
  | [_, _] => rfl
  | _ :: _ :: _ :: _ => rfl

/-- The version of legal parts holds what they say. -/
theorem Legal.holds_version (h : d.Legal) : d.version.Holds d := by
  refine ⟨numbers_eq_take d.version, List.length_map _, ?_⟩
  cases hpart : d.prerelease with
  | none => simp [prereleaseText?, isRelease, version, hpart]
  | some ids =>
    have hne : ids ≠ [] := (h.prerelease ids hpart).ne_nil
    simp [prereleaseText?, isRelease, version, hpart, hne, Function.comp_def]

end Spelling

/-- Reading accepts exactly the texts that are written in legal parts. The parts of such a text are
its only ones, and the version that is read holds their numbers, how many of them are written, and
the text of the prerelease. -/
theorem parse?_grammar (s : String) :
    ((parse? s).isSome ↔ ∃ d : Spelling, d.Writes s) ∧
      (∀ d e : Spelling, d.Writes s → e.Writes s → d = e) ∧
      ∀ (v : Version) (d : Spelling), parse? s = some v → d.Writes s → v.Holds d := by
  refine ⟨⟨fun h => ?_, fun ⟨d, h⟩ => ?_⟩, fun d e hd he => ?_, fun v d hv hd => ?_⟩
  · obtain ⟨v, hv⟩ := Option.isSome_iff_exists.1 h
    exact ⟨_, Spelling.writes_ofChars (ofChars?_eq_some_iff.1 hv).1⟩
  · refine Option.isSome_iff_exists.2 ⟨_, ofChars?_eq_some_iff.2 ⟨?_, rfl⟩⟩
    rw [← h.eq_ofChars]
    exact h.legal
  · exact hd.eq_ofChars.trans he.eq_ofChars.symm
  · obtain ⟨hlegal, rfl⟩ := ofChars?_eq_some_iff.1 hv
    rw [hd.eq_ofChars]
    exact hlegal.holds_version

/-- Only the first plus sign, the first hyphen after the numerals and the first `v` part a text. -/
theorem parse?_grammar_decorated :
    ∃ v : Version, parse? " v1.20-rc-1.0+b-2.007\u3000" = some v ∧
      v.Holds ⟨[['1'], ['2', '0']], some [['r', 'c', '-', '1'], ['0']],
        some [['b', '-', '2'], ['0', '0', '7']]⟩ := by
  have hparse : parse? " v1.20-rc-1.0+b-2.007\u3000" = some ⟨[1, 20], ["rc-1", "0"]⟩ := by decide
  have hwrites := Spelling.writes_ofChars (ofChars?_eq_some_iff.1 hparse).1
  exact ⟨_, hparse, (parse?_grammar _).2.2 _ _ hparse hwrites⟩

end Lineage.Version
