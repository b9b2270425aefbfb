/-
The numerals of a document.

A numeral reads in front of the characters that may follow it in a document as it reads alone, since
none of them can go on with it. The numerals of integers denote those integers.
-/

import Mathlib.Data.List.TakeWhile
import Lineage.Json.Outline
import Lineage.Json.Printer
import Lineage.Proofs.Text.Digits

namespace Lineage

namespace Json

theorem isSpace_iff {c : Char} : isSpace c = true ↔ c = ' ' ∨ c = '\t' ∨ c = '\n' ∨ c = '\r' := by
  simp [isSpace, or_assoc]

/-- What may follow a value in a document: nothing, a comma, a closing bracket or brace, or space. -/
def EndsValue (rest : List Char) : Prop :=
  ∀ c ∈ rest.head?, c = ',' ∨ c = ']' ∨ c = '\x7d' ∨ isSpace c = true

/-- The same reading in front of more text. -/
def before {α : Type} (rest : List Char) (read : α × List Char) : α × List Char :=
  (read.1, read.2 ++ rest)

variable {rest : List Char}

theorem EndsValue.head_ne (h : EndsValue rest) {c : Char} (hc : c ∈ rest.head?) :
    c.isDigit = false ∧ c ≠ '.' ∧ c ≠ 'e' ∧ c ≠ 'E' ∧ c ≠ '-' ∧ c ≠ '+' := by
  rcases h c hc with rfl | rfl | rfl | hspace
  · decide
  · decide
  · decide
  · rcases isSpace_iff.1 hspace with rfl | rfl | rfl | rfl <;> decide

theorem EndsValue.takeWhile_append (h : EndsValue rest) (cs : List Char) :
    (cs ++ rest).takeWhile Char.isDigit = cs.takeWhile Char.isDigit ∧
      (cs ++ rest).dropWhile Char.isDigit = cs.dropWhile Char.isDigit ++ rest := by
  induction cs with
  | nil =>
    cases rest with
    | nil => exact ⟨rfl, rfl⟩
    | cons c cs =>
      have hc := (h.head_ne (c := c) rfl).1
      simp [hc]
  | cons c cs ih =>
    cases hc : c.isDigit with
    | true => simpa [hc] using ih
    | false => simp [hc]

theorem digitRow?_append (h : EndsValue rest) (cs : List Char) :
    digitRow? (cs ++ rest) = (digitRow? cs).map (before rest) := by
  rw [digitRow?, digitRow?, (h.takeWhile_append cs).1, (h.takeWhile_append cs).2]
  cases cs.takeWhile Char.isDigit <;> rfl

theorem wholePart?_append (h : EndsValue rest) (cs : List Char) :
    wholePart? (cs ++ rest) = (wholePart? cs).map (before rest) := by
  rw [wholePart?, wholePart?, digitRow?_append h]
  cases digitRow? cs with
  | none => rfl
  | some read =>
    simp only [Option.map_some, Option.bind_eq_bind, Option.bind_some, before]
    split <;> rfl

theorem fractionPart?_append (h : EndsValue rest) (cs : List Char) :
    fractionPart? (cs ++ rest) = (fractionPart? cs).map (before rest) := by
  cases cs with
  | nil =>
    rw [List.nil_append, fractionPart?.eq_2 rest fun _ heq => ?_]
    · rfl
    · subst heq
      exact (h.head_ne rfl).2.1 rfl
  | cons c cs =>
    by_cases hc : c = '.'
    · subst hc
      rw [List.cons_append, fractionPart?.eq_1, fractionPart?.eq_1, digitRow?_append h]
      cases digitRow? cs <;> rfl
    · have hfall : ∀ cs, fractionPart? (c :: cs) = some (none, c :: cs) := fun cs =>
        fractionPart?.eq_2 _ fun _ heq => hc (List.cons.inj heq).1
      rw [List.cons_append, hfall, hfall]
      rfl

theorem exponentPart?_letter {c : Char} (hc : c = 'e' ∨ c = 'E') (cs : List Char)
    (hminus : cs.head? ≠ some '-') (hplus : cs.head? ≠ some '+') :
    exponentPart? (c :: cs) =
      (digitRow? cs).map fun read => (some (Text.value read.1 : Int), read.2) := by
  have hm : ∀ rest, cs = '-' :: rest → False := by
    rintro rest rfl
    exact hminus rfl
  have hp : ∀ rest, cs = '+' :: rest → False := by
    rintro rest rfl
    exact hplus rfl
  rcases hc with rfl | rfl
  · rw [exponentPart?.eq_3 cs hm hp]
    cases digitRow? cs <;> rfl
  · rw [exponentPart?.eq_6 cs hm hp]
    cases digitRow? cs <;> rfl

theorem exponentPart?_minus {c : Char} (hc : c = 'e' ∨ c = 'E') (cs : List Char) :
    exponentPart? (c :: '-' :: cs) =
      (digitRow? cs).map fun read => (some (-Text.value read.1 : Int), read.2) := by
  rcases hc with rfl | rfl
  · rw [exponentPart?.eq_1]
    cases digitRow? cs <;> rfl
  · rw [exponentPart?.eq_4]
    cases digitRow? cs <;> rfl

theorem exponentPart?_plus {c : Char} (hc : c = 'e' ∨ c = 'E') (cs : List Char) :
    exponentPart? (c :: '+' :: cs) =
      (digitRow? cs).map fun read => (some (Text.value read.1 : Int), read.2) := by
  rcases hc with rfl | rfl
  · rw [exponentPart?.eq_2]
    cases digitRow? cs <;> rfl
  · rw [exponentPart?.eq_5]
    cases digitRow? cs <;> rfl

theorem exponentPart?_other {cs : List Char} (he : cs.head? ≠ some 'e')
    (hE : cs.head? ≠ some 'E') : exponentPart? cs = some (none, cs) := by
  refine exponentPart?.eq_7 cs ?_ ?_
  · rintro rest rfl
    exact he rfl
  · rintro rest rfl
    exact hE rfl

theorem exponentPart?_append (h : EndsValue rest) (cs : List Char) :
    exponentPart? (cs ++ rest) = (exponentPart? cs).map (before rest) := by
  have hrest : ∀ c ∈ rest.head?, c ≠ 'e' ∧ c ≠ 'E' ∧ c ≠ '-' ∧ c ≠ '+' := fun c hc =>
    (h.head_ne hc).2.2
  match cs with
  | [] =>
    rw [List.nil_append, exponentPart?_other fun he => (hrest _ he).1 rfl,
      exponentPart?_other (by simp) (by simp)]
    · rfl
    · exact fun hE => (hrest _ hE).2.1 rfl
  | c :: cs =>
    by_cases hc : c = 'e' ∨ c = 'E'
    · match cs with
      | [] =>
        rw [List.singleton_append, exponentPart?_letter hc rest, exponentPart?_letter hc []]
        · exact digitRow?_append h [] ▸ rfl
        · simp
        · simp
        · exact fun hm => (hrest _ hm).2.2.1 rfl
        · exact fun hp => (hrest _ hp).2.2.2 rfl
      | d :: cs =>
        rw [List.cons_append, List.cons_append]
        by_cases hminus : d = '-'
        · subst hminus
          rw [exponentPart?_minus hc, exponentPart?_minus hc]
          rw [digitRow?_append h]
          cases digitRow? cs <;> rfl
        by_cases hplus : d = '+'
        · subst hplus
          rw [exponentPart?_plus hc, exponentPart?_plus hc]
          rw [digitRow?_append h]
          cases digitRow? cs <;> rfl
        rw [exponentPart?_letter hc, exponentPart?_letter hc]
        · rw [← List.cons_append, digitRow?_append h]
          cases digitRow? (d :: cs) <;> rfl
        all_goals simpa
    · rw [not_or] at hc
      rw [exponentPart?_other, exponentPart?_other]
      · rfl
      all_goals simp [hc]

/-- The numeral after its sign. -/
def unsigned? (negative : Bool) (cs : List Char) : Option (Numeral × List Char) := do
  let (whole, cs) ← wholePart? cs
  let (fraction, cs) ← fractionPart? cs
  let (exponent, cs) ← exponentPart? cs
  return (⟨negative, whole, fraction, exponent⟩, cs)

theorem numeral?_minus (cs : List Char) : numeral? ('-' :: cs) = unsigned? true cs := rfl

theorem numeral?_of_head {cs : List Char} (h : cs.head? ≠ some '-') :
    numeral? cs = unsigned? false cs := by
  unfold numeral?
  split
  · next heq =>
    split at heq
    · exact absurd rfl h
    · cases heq
      rfl

theorem unsigned?_append (h : EndsValue rest) (negative : Bool) (cs : List Char) :
    unsigned? negative (cs ++ rest) = (unsigned? negative cs).map (before rest) := by
  rw [unsigned?, unsigned?, wholePart?_append h]
  cases wholePart? cs with
  | none => rfl
  | some whole =>
    simp only [Option.map_some, Option.bind_eq_bind, Option.bind_some, before,
      fractionPart?_append h]
    cases fractionPart? whole.2 with
    | none => rfl
    | some fraction =>
      simp only [Option.map_some, Option.bind_some, before, exponentPart?_append h]
      cases exponentPart? fraction.2 <;> rfl

/-- What ends a value ends a numeral. -/
theorem numeral?_append (h : EndsValue rest) {cs : List Char} (hne : cs ≠ []) :
    numeral? (cs ++ rest) = (numeral? cs).map (before rest) := by
  cases cs with
  | nil => exact absurd rfl hne
  | cons c cs =>
    by_cases hc : c = '-'
    · subst hc
      rw [List.cons_append, numeral?_minus, numeral?_minus, unsigned?_append h]
    · rw [numeral?_of_head, numeral?_of_head, unsigned?_append h]
      · simpa
      · simpa

/-- A numeral starts with a digit or a minus sign. -/
theorem exists_head_of_numeral? {cs : List Char} {read : Numeral × List Char}
    (h : numeral? cs = some read) :
    ∃ c rest, cs = c :: rest ∧ (c = '-' ∨ c.isDigit = true) := by
  cases cs with
  | nil => cases h
  | cons c cs =>
    refine ⟨c, cs, rfl, ?_⟩
    by_cases hminus : c = '-'
    · exact .inl hminus
    · right
      rw [numeral?_of_head (by simpa), unsigned?, wholePart?, digitRow?] at h
      cases hc : c.isDigit with
      | true => rfl
      | false =>
        rw [List.takeWhile_cons_of_neg (by simp [hc])] at h
        cases h

theorem unsigned?_digits (negative : Bool) (n : Nat) :
    unsigned? negative (Text.digits n) = some (⟨negative, Text.digits n, none, none⟩, []) := by
  have hall : ∀ c ∈ Text.digits n, c.isDigit = true := fun c => Text.isDigit_of_mem_digits
  have hrow : digitRow? (Text.digits n) = some (Text.digits n, []) := by
    rw [digitRow?, List.takeWhile_eq_self_iff.2 hall, List.dropWhile_eq_nil_iff.2 hall]
    cases hd : Text.digits n with
    | nil => exact absurd hd (Text.digits_ne_nil n)
    | cons => rfl
  have hwhole : wholePart? (Text.digits n) = some (Text.digits n, []) := by
    rw [wholePart?, hrow]
    exact if_neg fun h => h.2 (Text.length_digits_of_head?_zero h.1)
  rw [unsigned?, hwhole]
  rfl

/-- A number that is read back from its text. -/
def ReadsBack (n : Number) : Prop :=
  ∃ numeral, numeral? n.chars = some (numeral, []) ∧ numeral.number? = some n

/-- An integer in the range of integers reads back. -/
theorem readsBack_integer {n : Int} (hlow : -maxNegative ≤ n) (hhigh : n ≤ maxSignificand) :
    ReadsBack (.integer n) := by
  by_cases hn : n < 0
  · refine ⟨⟨true, Text.digits n.natAbs, none, none⟩, ?_, ?_⟩
    · rw [Number.chars, if_pos hn, numeral?_minus, unsigned?_digits]
    · have hvalue : Text.value (Text.digits n.natAbs) = n.natAbs := Text.value_digits _
      simp only [Numeral.number?, hvalue]
      rw [if_neg (by simp), if_pos (by simp), if_pos (by omega)]
      congr
      omega
  · refine ⟨⟨false, Text.digits n.natAbs, none, none⟩, ?_, ?_⟩
    · rw [Number.chars, if_neg hn, numeral?_of_head, unsigned?_digits]
      intro hhead
      exact Text.not_mem_digits (by decide) (List.mem_of_mem_head? hhead)
    · have hvalue : Text.value (Text.digits n.natAbs) = n.natAbs := Text.value_digits _
      simp only [Numeral.number?, hvalue]
      rw [if_neg (by simp), if_neg (by simp), if_pos (by omega)]
      congr
      omega

end Json

end Lineage
