/-
The grammar of JSON texts.

A `Draft` is a document as it stands in a text: it keeps the characters of its numerals, and the
members of its objects in the order of the text. `Draft.Written` and `Draft.Padded` are the grammar of
values, without and with space around them, and know nothing of the reader. Of numerals it is shown
here that the reader takes exactly those of the grammar.
-/

import Lineage.Json.Decoder
import Lineage.Proofs.Json.Numeral
import Lineage.Proofs.Json.Strings

namespace Lineage.Json

variable {c : Char} {cs rest : List Char}

/-! ### Numerals -/

/-- The ways to write an exponent, or to leave it out. -/
inductive WrittenExponent : Option Int → List Char → Prop where
  | none : WrittenExponent none []
  | plain {e : Char} {ds : List Char} (he : e = 'e' ∨ e = 'E') (hds : Text.isDigits ds = true) :
      WrittenExponent (some (Text.value ds : Int)) (e :: ds)
  | plus {e : Char} {ds : List Char} (he : e = 'e' ∨ e = 'E') (hds : Text.isDigits ds = true) :
      WrittenExponent (some (Text.value ds : Int)) (e :: '+' :: ds)
  | minus {e : Char} {ds : List Char} (he : e = 'e' ∨ e = 'E') (hds : Text.isDigits ds = true) :
      WrittenExponent (some (-Text.value ds : Int)) (e :: '-' :: ds)

/-- The digits before a point: a single zero, or digits that do not start with one. -/
structure IsWhole (ds : List Char) : Prop where
  digits : Text.isDigits ds = true
  zero : ds.head? = some '0' → ds.length = 1

/-- The ways to write a numeral: digits, a point with digits or none, and an exponent or none, after
a minus sign or without it. -/
inductive WrittenNumeral : Numeral → List Char → Prop where
  | plain {whole exponent : List Char} {fraction : Option (List Char)} {n : Option Int}
      (hwhole : IsWhole whole) (hfraction : ∀ ds ∈ fraction, Text.isDigits ds = true)
      (hexponent : WrittenExponent n exponent) :
      WrittenNumeral ⟨false, whole, fraction, n⟩ (whole ++ (point fraction ++ exponent))
  | minus {whole exponent : List Char} {fraction : Option (List Char)} {n : Option Int}
      (hwhole : IsWhole whole) (hfraction : ∀ ds ∈ fraction, Text.isDigits ds = true)
      (hexponent : WrittenExponent n exponent) :
      WrittenNumeral ⟨true, whole, fraction, n⟩ ('-' :: (whole ++ (point fraction ++ exponent)))

theorem isDigit_of_head? {ds : List Char} (hds : Text.isDigits ds = true) (hc : ds.head? = some c) :
    c.isDigit = true :=
  (Text.isDigits_iff.1 hds).2 c (List.mem_of_mem_head? hc)

theorem digitRow?_of_isDigits {ds : List Char} (hds : Text.isDigits ds = true) :
    digitRow? ds = some (ds, []) := by
  simpa using digitRow?_of_digits [] hds nofun

theorem WrittenExponent.exponentPart? {n : Option Int} (h : WrittenExponent n cs) :
    exponentPart? cs = some (n, []) := by
  cases h with
  | none => rfl
  | plain he hds =>
    rw [exponentPart?_letter he, digitRow?_of_isDigits hds]
    · rfl
    · exact fun hminus => absurd (isDigit_of_head? hds hminus) (by decide)
    · exact fun hplus => absurd (isDigit_of_head? hds hplus) (by decide)
  | plus he hds =>
    rw [exponentPart?_plus he, digitRow?_of_isDigits hds]
    rfl
  | minus he hds =>
    rw [exponentPart?_minus he, digitRow?_of_isDigits hds]
    rfl

theorem WrittenExponent.head_ne {n : Option Int} (h : WrittenExponent n cs) :
    ∀ c ∈ cs.head?, c.isDigit = false ∧ c ≠ '.' := by
  have hletter : ∀ {e : Char}, e = 'e' ∨ e = 'E' → e.isDigit = false ∧ e ≠ '.' := by
    rintro e (rfl | rfl)
    · decide
    · decide
  intro c hc
  cases h with
  | none => cases hc
  | plain he _ | plus he _ | minus he _ =>
    cases hc
    exact hletter he

theorem unsigned?_written (negative : Bool) {whole exponent : List Char}
    {fraction : Option (List Char)} {n : Option Int} (hwhole : IsWhole whole)
    (hfraction : ∀ ds ∈ fraction, Text.isDigits ds = true) (hexponent : WrittenExponent n exponent) :
    unsigned? negative (whole ++ (point fraction ++ exponent)) =
      some (⟨negative, whole, fraction, n⟩, []) :=
  unsigned?_of_parts hwhole.digits hwhole.zero hfraction hexponent.head_ne hexponent.exponentPart?

/-- A numeral that is written in one of these ways is read to its end. -/
theorem WrittenNumeral.numeral? {n : Numeral} (h : WrittenNumeral n cs) :
    numeral? cs = some (n, []) := by
  cases h with
  | plain hwhole hfraction hexponent =>
    have hread := unsigned?_written false hwhole hfraction hexponent
    rw [numeral?_of_head (head?_ne_minus hread), hread]
  | minus hwhole hfraction hexponent =>
    rw [numeral?_minus, unsigned?_written true hwhole hfraction hexponent]

theorem digitRow?_eq_some {ds : List Char} (h : digitRow? cs = some (ds, rest)) :
    Text.isDigits ds = true ∧ cs = ds ++ rest := by
  rw [digitRow?] at h
  split at h
  · cases h
  · next hne =>
    cases h
    refine ⟨Text.isDigits_iff.2 ⟨hne, fun c hc => ?_⟩, List.takeWhile_append_dropWhile.symm⟩
    exact List.mem_takeWhile_imp hc

theorem wholePart?_eq_some {ds : List Char} (h : wholePart? cs = some (ds, rest)) :
    IsWhole ds ∧ cs = ds ++ rest := by
  obtain ⟨read, hread, h⟩ := Option.bind_eq_some_iff.1 h
  dsimp only at h
  split at h
  · cases h
  · next hzero =>
    cases h
    obtain ⟨hds, rfl⟩ := digitRow?_eq_some hread
    exact ⟨⟨hds, fun h => by_contra fun hlength => hzero ⟨h, hlength⟩⟩, rfl⟩

theorem fractionPart?_eq_some {fraction : Option (List Char)}
    (h : fractionPart? cs = some (fraction, rest)) :
    (∀ ds ∈ fraction, Text.isDigits ds = true) ∧ cs = point fraction ++ rest := by
  unfold fractionPart? at h
  split at h
  · obtain ⟨read, hread, h⟩ := Option.bind_eq_some_iff.1 h
    cases h
    obtain ⟨hds, rfl⟩ := digitRow?_eq_some hread
    refine ⟨?_, rfl⟩
    rintro _ ⟨⟩
    exact hds
  · cases h
    exact ⟨nofun, rfl⟩

theorem exponentPart?_eq_some {n : Option Int} (h : exponentPart? cs = some (n, rest)) :
    ∃ front, WrittenExponent n front ∧ cs = front ++ rest := by
  by_cases he : ∃ e after, cs = e :: after ∧ (e = 'e' ∨ e = 'E')
  · obtain ⟨e, after, rfl, he⟩ := he
    by_cases hminus : after.head? = some '-'
    · obtain ⟨after, rfl⟩ := List.head?_eq_some_iff.1 hminus
      rw [exponentPart?_minus he] at h
      obtain ⟨read, hread, h⟩ := Option.map_eq_some_iff.1 h
      cases h
      obtain ⟨hds, rfl⟩ := digitRow?_eq_some hread
      exact ⟨_, .minus he hds, rfl⟩
    by_cases hplus : after.head? = some '+'
    · obtain ⟨after, rfl⟩ := List.head?_eq_some_iff.1 hplus
      rw [exponentPart?_plus he] at h
      obtain ⟨read, hread, h⟩ := Option.map_eq_some_iff.1 h
      cases h
      obtain ⟨hds, rfl⟩ := digitRow?_eq_some hread
      exact ⟨_, .plus he hds, rfl⟩
    rw [exponentPart?_letter he after hminus hplus] at h
    obtain ⟨read, hread, h⟩ := Option.map_eq_some_iff.1 h
    cases h
    obtain ⟨hds, rfl⟩ := digitRow?_eq_some hread
    exact ⟨_, .plain he hds, rfl⟩
  · rw [exponentPart?_other] at h
    · cases h
      exact ⟨[], .none, rfl⟩
    · intro hhead
      obtain ⟨after, rfl⟩ := List.head?_eq_some_iff.1 hhead
      exact he ⟨_, _, rfl, .inl rfl⟩
    · intro hhead
      obtain ⟨after, rfl⟩ := List.head?_eq_some_iff.1 hhead
      exact he ⟨_, _, rfl, .inr rfl⟩

theorem unsigned?_eq_some {negative : Bool} {n : Numeral}
    (h : unsigned? negative cs = some (n, rest)) :
    ∃ whole fraction exponent front, n = ⟨negative, whole, fraction, exponent⟩ ∧ IsWhole whole ∧
      (∀ ds ∈ fraction, Text.isDigits ds = true) ∧ WrittenExponent exponent front ∧
        cs = whole ++ (point fraction ++ front) ++ rest := by
  obtain ⟨⟨whole, after⟩, hwhole, h⟩ := Option.bind_eq_some_iff.1 h
  obtain ⟨⟨fraction, after⟩, hfraction, h⟩ := Option.bind_eq_some_iff.1 h
  obtain ⟨⟨exponent, after⟩, hexponent, h⟩ := Option.bind_eq_some_iff.1 h
  cases h
  obtain ⟨hdigits, rfl⟩ := wholePart?_eq_some hwhole
  obtain ⟨hpoint, rfl⟩ := fractionPart?_eq_some hfraction
  obtain ⟨front, hfront, rfl⟩ := exponentPart?_eq_some hexponent
  exact ⟨whole, fraction, exponent, front, rfl, hdigits, hpoint, hfront, by simp⟩

/-- What is read as a numeral is written in one of these ways. -/
theorem exists_writtenNumeral {n : Numeral} (h : numeral? cs = some (n, rest)) :
    ∃ front, WrittenNumeral n front ∧ cs = front ++ rest := by
  by_cases hminus : cs.head? = some '-'
  · obtain ⟨after, rfl⟩ := List.head?_eq_some_iff.1 hminus
    rw [numeral?_minus] at h
    obtain ⟨whole, fraction, exponent, front, rfl, hwhole, hfraction, hfront, rfl⟩ :=
      unsigned?_eq_some h
    exact ⟨_, .minus hwhole hfraction hfront, rfl⟩
  · rw [numeral?_of_head hminus] at h
    obtain ⟨whole, fraction, exponent, front, rfl, hwhole, hfraction, hfront, rfl⟩ :=
      unsigned?_eq_some h
    exact ⟨_, .plain hwhole hfraction hfront, rfl⟩

/-! ### Values -/

/-- A document as it stands in a text. -/
inductive Draft where
  | null
  | bool (b : Bool)
  | numeral (cs : List Char)
  | string (s : String)
  | array (elements : List Draft)
  | object (members : List (String × Draft))

/-- Nothing but space. -/
def Spaces (cs : List Char) : Prop :=
  ∀ c ∈ cs, isSpace c = true

theorem spaces_nil : Spaces [] := nofun

/-- The ways to write a name, with space around it. -/
inductive WrittenName (name : String) : List Char → Prop where
  | quoted {before after cs : List Char} (hbefore : Spaces before) (h : WrittenChars name.toList cs)
      (hafter : Spaces after) : WrittenName name (before ++ '"' :: (cs ++ '"' :: after))

namespace Draft

mutual

/-- The ways to write a value. -/
inductive Written : Draft → List Char → Prop where
  | null : Written .null ['n', 'u', 'l', 'l']
  | wordTrue : Written (.bool true) ['t', 'r', 'u', 'e']
  | wordFalse : Written (.bool false) ['f', 'a', 'l', 's', 'e']
  | numeral {n : Numeral} {cs : List Char} (h : WrittenNumeral n cs) : Written (.numeral cs) cs
  | string {s : String} {cs : List Char} (h : WrittenChars s.toList cs) :
      Written (.string s) ('"' :: (cs ++ ['"']))
  | emptyArray {cs : List Char} (h : Spaces cs) : Written (.array []) ('[' :: (cs ++ [']']))
  | array {xs : List Draft} {cs : List Char} (h : WrittenElements xs cs) :
      Written (.array xs) ('[' :: (cs ++ [']']))
  | emptyObject {cs : List Char} (h : Spaces cs) :
      Written (.object []) ('\x7b' :: (cs ++ ['\x7d']))
  | object {ms : List (String × Draft)} {cs : List Char} (h : WrittenMembers ms cs) :
      Written (.object ms) ('\x7b' :: (cs ++ ['\x7d']))

/-- The ways to write a value with space around it. -/
inductive Padded : Draft → List Char → Prop where
  | spaces {x : Draft} {before cs after : List Char} (hbefore : Spaces before) (h : Written x cs)
      (hafter : Spaces after) : Padded x (before ++ (cs ++ after))

/-- The ways to write elements, at least one, with commas between them. -/
inductive WrittenElements : List Draft → List Char → Prop where
  | last {x : Draft} {cs : List Char} (h : Padded x cs) : WrittenElements [x] cs
  | more {x : Draft} {xs : List Draft} {cs ds : List Char} (h : Padded x cs)
      (hmore : WrittenElements xs ds) : WrittenElements (x :: xs) (cs ++ ',' :: ds)

/-- The ways to write members, at least one, with commas between them. -/
inductive WrittenMembers : List (String × Draft) → List Char → Prop where
  | last {name : String} {x : Draft} {cs ds : List Char} (hname : WrittenName name cs)
      (h : Padded x ds) : WrittenMembers [(name, x)] (cs ++ ':' :: ds)
  | more {name : String} {x : Draft} {ms : List (String × Draft)} {cs ds es : List Char}
      (hname : WrittenName name cs) (h : Padded x ds) (hmore : WrittenMembers ms es) :
      WrittenMembers ((name, x) :: ms) (cs ++ ':' :: (ds ++ ',' :: es))

end

mutual

/-- The outline of a text that is written from a draft. -/
def outlined : Draft → Outline
  | .null => .null
  | .bool b => .bool b
  | .numeral cs => .number ((numeral? cs).bind fun read => read.1.number?)
  | .string s => .string (some s)
  | .array xs => .array (outlinedElements xs) true
  | .object ms => .object (outlinedMembers ms) true
termination_by structural x => x

/-- The outlines of elements. -/
def outlinedElements : List Draft → List Outline
  | [] => []
  | x :: xs => outlined x :: outlinedElements xs
termination_by structural x => x

/-- The names and outlines of members. -/
def outlinedMembers : List (String × Draft) → List (Option String × Outline)
  | [] => []
  | (name, x) :: ms => (some name, outlined x) :: outlinedMembers ms
termination_by structural x => x

end

end Draft

end Lineage.Json
