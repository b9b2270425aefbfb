/-
Decimal and hexadecimal numerals read back.

`value` undoes `digits`. The digits of a number start with a zero only when the number is zero, and
of such rows of digits `digits` undoes `value`. `hexNumber?` gives back what `hexDigits` has kept of a
number.
-/

import Mathlib.Tactic.Ring
import Lineage.Text.Numeral

namespace Lineage.Text

/-! ### Decimal digits -/

theorem value_eq_ofDigitChars (cs : List Char) : value cs = Nat.ofDigitChars 10 cs 0 := by
  rw [value, Nat.ofDigitChars_eq_foldl]

@[simp] theorem value_digits (n : Nat) : value (digits n) = n := by
  rw [value_eq_ofDigitChars, digits, Nat.ofDigitChars_ten_toDigits]

theorem digits_ne_nil (n : Nat) : digits n ≠ [] :=
  Nat.toDigits_ne_nil

theorem isDigit_of_mem_digits {n : Nat} {c : Char} (h : c ∈ digits n) : c.isDigit = true :=
  Nat.isDigit_of_mem_toDigits (by decide) (by decide) h

theorem isDigits_iff {cs : List Char} :
    isDigits cs = true ↔ cs ≠ [] ∧ ∀ c ∈ cs, c.isDigit = true := by
  rw [isDigits, Bool.and_eq_true, List.all_eq_true, Bool.not_eq_true', List.isEmpty_eq_false_iff]

@[simp] theorem isDigits_digits (n : Nat) : isDigits (digits n) = true :=
  isDigits_iff.2 ⟨digits_ne_nil n, fun _ => isDigit_of_mem_digits⟩

/-- A digit is none of the characters that stand between, before or after numerals. -/
theorem not_mem_digits {n : Nat} {c : Char} (h : c.isDigit = false) : c ∉ digits n := by
  intro hc
  rw [isDigit_of_mem_digits hc] at h
  cases h

/-- The leading digit of a positive number is not zero. -/
theorem head?_digits_ne_zero {n : Nat} (h : 0 < n) : (digits n).head? ≠ some '0' := by
  induction n using Nat.base_induction 10 (by decide) with
  | single m hm =>
    rw [digits, Nat.toDigits_of_lt_base hm]
    simp only [List.head?_cons, ne_eq, Option.some.injEq, Nat.digitChar_eq_zero]
    omega
  | digit m k hk hm ih =>
    rw [digits, ← Nat.toDigits_append_toDigits (by decide) hm hk]
    -- The leading digit is the one of `m`.
    cases hd : Nat.toDigits 10 m with
    | nil => exact absurd hd (digits_ne_nil m)
    | cons d ds =>
      rw [digits, hd] at ih
      exact ih hm

/-- The digits of a number have no superfluous leading zero. -/
theorem length_digits_of_head?_zero {n : Nat} (h : (digits n).head? = some '0') :
    (digits n).length = 1 := by
  cases n with
  | zero => simp [digits]
  | succ n => exact absurd h (head?_digits_ne_zero (Nat.succ_pos n))

theorem exists_digitChar {c : Char} (h : c.isDigit = true) : ∃ d < 10, c = Nat.digitChar d := by
  obtain ⟨hlow, hhigh⟩ := Char.isDigit_iff_toNat.1 h
  simp only [Char.reduceToNat] at hlow hhigh
  have hlt : c.toNat - 48 < 10 := by omega
  refine ⟨c.toNat - 48, hlt, ?_⟩
  rw [← Char.toNat_inj, Nat.toNat_digitChar_of_lt_ten hlt]
  omega

theorem digits_of_lt_ten {d : Nat} (h : d < 10) : digits d = [Nat.digitChar d] :=
  Nat.toDigits_of_lt_base h

theorem digits_append_digitChar {n d : Nat} (hn : 0 < n) (hd : d < 10) :
    digits n ++ [Nat.digitChar d] = digits (10 * n + d) := by
  rw [← digits_of_lt_ten hd]
  exact Nat.toDigits_append_toDigits (by decide) hn hd

/-- Digits behind those of a positive number are the digits of what all of them denote. -/
theorem digits_value_append {n : Nat} {cs : List Char} (hn : 0 < n)
    (h : ∀ c ∈ cs, c.isDigit = true) : digits (value (digits n ++ cs)) = digits n ++ cs := by
  induction cs generalizing n with
  | nil => rw [List.append_nil, value_digits]
  | cons c cs ih =>
    rw [List.forall_mem_cons] at h
    obtain ⟨d, hd, rfl⟩ := exists_digitChar h.1
    rw [List.append_cons, digits_append_digitChar hn hd]
    exact ih (by omega) h.2

/-- A row of digits without superfluous zeros is what its value is written as. -/
theorem digits_value {cs : List Char} (h : isDigits cs = true)
    (hzero : cs.head? = some '0' → cs = ['0']) : digits (value cs) = cs := by
  obtain ⟨hne, hdigits⟩ := isDigits_iff.1 h
  cases cs with
  | nil => exact absurd rfl hne
  | cons c cs =>
    rw [List.forall_mem_cons] at hdigits
    obtain ⟨d, hd, rfl⟩ := exists_digitChar hdigits.1
    rcases Nat.eq_zero_or_pos d with rfl | hpos
    · rw [hzero rfl]
      rfl
    · -- The leading digit is the whole of a positive number.
      rw [← List.singleton_append, ← digits_of_lt_ten hd]
      exact digits_value_append hpos hdigits.2

theorem length_digits_pos (n : Nat) : 0 < (digits n).length :=
  List.length_pos_iff.2 (digits_ne_nil n)

theorem lt_pow_length_digits (n : Nat) : n < 10 ^ (digits n).length :=
  (Nat.length_toDigits_le_iff (by decide) (length_digits_pos n)).1 (Nat.le_refl _)

theorem pow_length_digits_le {n : Nat} (h : 0 < n) : 10 ^ ((digits n).length - 1) ≤ n := by
  by_contra hlt
  have hlength := length_digits_pos n
  by_cases hone : (digits n).length = 1
  · rw [hone, Nat.sub_self, Nat.pow_zero] at hlt
    exact hlt h
  · have hle := (Nat.length_toDigits_le_iff (b := 10) (by decide) (by omega)).2 (Nat.not_le.1 hlt)
    change (digits n).length ≤ _ at hle
    omega

/-! ### Hexadecimal digits -/

theorem hexValue?_digitChar : ∀ d < 16, hexValue? (Nat.digitChar d) = some d := by
  decide

theorem hexValue?_lt {c : Char} {d : Nat} (h : hexValue? c = some d) : d < 16 := by
  unfold hexValue? at h
  simp only [Char.le_def, UInt32.le_iff_toNat_le, Char.toNat] at h
  split_ifs at h <;> cases h <;> simp_all <;> omega

/-- A row of hexadecimal digits denotes a number of as many digits. -/
theorem hexNumber?_lt {cs : List Char} {n : Nat} (h : hexNumber? cs = some n) :
    n < 16 ^ cs.length := by
  have hfold : ∀ (cs : List Char) (read : Nat),
      cs.foldlM (fun n c => (hexValue? c).map (16 * n + ·)) read = some n →
        n < (read + 1) * 16 ^ cs.length := by
    intro cs
    induction cs with
    | nil =>
      rintro read ⟨⟩
      simp
    | cons c cs ih =>
      intro read h
      rw [List.foldlM_cons] at h
      obtain ⟨next, hnext, h⟩ := Option.bind_eq_some_iff.1 h
      obtain ⟨d, hd, rfl⟩ := Option.map_eq_some_iff.1 hnext
      have hlt := hexValue?_lt hd
      calc n < (16 * read + d + 1) * 16 ^ cs.length := ih _ h
        _ ≤ ((read + 1) * 16) * 16 ^ cs.length := Nat.mul_le_mul_right _ (by omega)
        _ = (read + 1) * 16 ^ (c :: cs).length := by rw [List.length_cons, pow_succ']; ring
  simpa using hfold cs 0 h

theorem hexDigits_succ (width n : Nat) :
    hexDigits (width + 1) n =
      Nat.digitChar (n >>> (4 * width) % 16) :: hexDigits width n := by
  rw [hexDigits, List.range_succ, List.reverse_append]
  rfl

theorem length_hexDigits (width n : Nat) : (hexDigits width n).length = width := by
  rw [hexDigits, List.length_map, List.length_reverse, List.length_range]

theorem isHexDigit_of_mem_hexDigits {width n : Nat} {c : Char} (h : c ∈ hexDigits width n) :
    ∃ d < 16, c = Nat.digitChar d := by
  rw [hexDigits, List.mem_map] at h
  obtain ⟨i, -, rfl⟩ := h
  exact ⟨_, Nat.mod_lt _ (by decide), rfl⟩

/-- The digits of a number read back, behind digits that have been read already. -/
theorem foldlM_hexDigits (width n read : Nat) :
    (hexDigits width n).foldlM (fun n c => (hexValue? c).map (16 * n + ·)) read =
      some (read * 16 ^ width + n % 16 ^ width) := by
  induction width generalizing read with
  | zero => simp [hexDigits, Nat.mod_one]
  | succ width ih =>
    have hshift : n >>> (4 * width) = n / 16 ^ width := by
      rw [Nat.shiftRight_eq_div_pow, Nat.pow_mul]
    rw [hexDigits_succ, List.foldlM_cons, hexValue?_digitChar _ (Nat.mod_lt _ (by decide)),
      Option.map_some, Option.bind_eq_bind, Option.bind_some, ih, hshift, Nat.mod_pow_succ]
    congr 1
    ring

theorem hexNumber?_hexDigits (width n : Nat) :
    hexNumber? (hexDigits width n) = some (n % 16 ^ width) := by
  rw [hexNumber?, foldlM_hexDigits, Nat.zero_mul, Nat.zero_add]

end Lineage.Text
