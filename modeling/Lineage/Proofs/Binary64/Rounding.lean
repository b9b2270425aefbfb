/-
Rounding keeps the order of what it rounds.

A smaller fraction is rounded to a smaller integer (`roundToEven_mono`) and to a smaller magnitude
(`place_mono`), so what is smaller than a fraction with a finite magnitude has one too. The values
of the magnitudes rise, and the step to the next one is never large beside the value.
-/

import Mathlib.Data.Nat.Log
import Mathlib.Tactic.Linarith
import Mathlib.Tactic.Ring
import Lineage.Binary64

namespace Lineage.Binary64

/-! ### Rounding to an integer -/

section RoundToEven

variable {num den num' den' : Nat}

theorem roundToEven_le_iff (hden : 0 < den) (n : Nat) :
    roundToEven num den ≤ n ↔
      2 * num < (2 * n + 1) * den ∨ 2 * num = (2 * n + 1) * den ∧ n % 2 = 0 := by
  have hsplit : num = den * (num / den) + num % den := (Nat.div_add_mod num den).symm
  have hrest : num % den < den := Nat.mod_lt _ hden
  unfold roundToEven
  dsimp only
  generalize num / den = q at hsplit ⊢
  generalize num % den = r at hsplit hrest ⊢
  subst hsplit
  rcases Nat.lt_trichotomy n q with hlt | rfl | hgt
  · have hmul : (n + 1) * den ≤ q * den := Nat.mul_le_mul_right den hlt
    have hleft : ¬ (if 2 * r < den then q else if den < 2 * r then q + 1 else q + q % 2) ≤ n := by
      split
      · omega
      · split <;> omega
    refine iff_of_false hleft ?_
    rintro (h | ⟨h, -⟩) <;> linarith
  · have heq : 2 * (den * n + r) = 2 * n * den + 2 * r := by ring
    have hodd : (2 * n + 1) * den = 2 * n * den + den := by ring
    rw [heq, hodd]
    split
    · omega
    · split <;> omega
  · have hmul : (q + 1) * den ≤ n * den := Nat.mul_le_mul_right den hgt
    have hleft : (if 2 * r < den then q else if den < 2 * r then q + 1 else q + q % 2) ≤ n := by
      split
      · omega
      · split <;> omega
    refine iff_of_true hleft (.inl ?_)
    linarith

/-- A smaller fraction is rounded to a smaller integer. -/
theorem roundToEven_mono (hden : 0 < den) (hden' : 0 < den') (h : num' * den ≤ num * den') :
    roundToEven num' den' ≤ roundToEven num den := by
  rw [roundToEven_le_iff hden']
  have hself := (roundToEven_le_iff hden (roundToEven num den)).1 le_rfl
  generalize roundToEven num den = n at hself ⊢
  -- Both sides are compared after they have been brought to one denominator.
  have hscaled : 2 * num' * den ≤ 2 * num * den' := by
    rw [Nat.mul_assoc, Nat.mul_assoc]
    exact Nat.mul_le_mul_left 2 h
  rcases hself with hlt | ⟨heq, heven⟩
  · left
    refine Nat.lt_of_mul_lt_mul_right (a := den) ?_
    calc 2 * num' * den ≤ 2 * num * den' := hscaled
      _ < (2 * n + 1) * den * den' := Nat.mul_lt_mul_of_pos_right hlt hden'
      _ = (2 * n + 1) * den' * den := by ring
  · have hle : 2 * num' ≤ (2 * n + 1) * den' := by
      refine Nat.le_of_mul_le_mul_right ?_ hden
      calc 2 * num' * den ≤ 2 * num * den' := hscaled
        _ = (2 * n + 1) * den' * den := by rw [heq]; ring
    rcases Nat.lt_or_eq_of_le hle with hlt | heq'
    · exact .inl hlt
    · exact .inr ⟨heq', heven⟩

theorem roundToEven_le_succ (hden : 0 < den) : roundToEven num den ≤ num / den + 1 := by
  rw [roundToEven_le_iff hden]
  left
  have hsplit := Nat.lt_mul_div_succ num hden
  calc 2 * num < 2 * (den * (num / den + 1)) := by omega
    _ ≤ (2 * (num / den + 1) + 1) * den := by
      rw [Nat.add_mul]
      have : 2 * (den * (num / den + 1)) = 2 * (num / den + 1) * den := by ring
      omega

theorem div_le_roundToEven : num / den ≤ roundToEven num den := by
  unfold roundToEven
  dsimp only
  split
  · exact le_rfl
  · split
    · exact Nat.le_succ _
    · exact Nat.le_add_right _ _

end RoundToEven

/-! ### The place of a fraction among the magnitudes -/

section Place

variable {num den num' den' : Nat}

/-- The binade of a fraction of units, of which the two lowest have the same step. -/
def shift (num den : Nat) : Nat :=
  Nat.log2 (num / den) - 52

/-- The index of the magnitude nearest to a fraction of units, as if there were no largest one. -/
def place (num den : Nat) : Nat :=
  shift num den * binade + roundToEven num (den <<< shift num den)

theorem ofUnits?_eq (num den : Nat) :
    ofUnits? num den =
      if h : place num den < magnitudes then some ⟨place num den, h⟩ else none := rfl

theorem isSome_ofUnits?_iff : (ofUnits? num den).isSome ↔ place num den < magnitudes := by
  rw [ofUnits?_eq]
  by_cases h : place num den < magnitudes
  · rw [dif_pos h]
    exact iff_of_true rfl h
  · rw [dif_neg h]
    exact iff_of_false Bool.false_ne_true h

theorem val_ofUnits? {w : Fin magnitudes} (h : ofUnits? num den = some w) :
    w.val = place num den := by
  rw [ofUnits?_eq] at h
  split at h
  · cases h
    rfl
  · cases h

theorem div_mono (hden' : 0 < den') (h : num' * den ≤ num * den') (hden : 0 < den) :
    num' / den' ≤ num / den := by
  rw [Nat.le_div_iff_mul_le hden]
  refine Nat.le_of_mul_le_mul_right ?_ hden'
  calc num' / den' * den * den' = num' / den' * den' * den := by ring
    _ ≤ num' * den := Nat.mul_le_mul_right den (Nat.div_mul_le_self num' den')
    _ ≤ num * den' := h

theorem shift_mono (hden : 0 < den) (hden' : 0 < den') (h : num' * den ≤ num * den') :
    shift num' den' ≤ shift num den := by
  unfold shift
  rw [Nat.log2_eq_log_two, Nat.log2_eq_log_two]
  exact Nat.sub_le_sub_right (Nat.log_mono_right (div_mono hden' h hden)) 52

theorem div_shiftLeft (num den s : Nat) : num / den <<< s = num / den / 2 ^ s := by
  rw [Nat.shiftLeft_eq, Nat.div_div_eq_div_mul]

theorem shiftLeft_pos (hden : 0 < den) (s : Nat) : 0 < den <<< s := by
  rw [Nat.shiftLeft_eq]
  exact Nat.mul_pos hden (Nat.two_pow_pos s)

/-- Within its binade a fraction has at most as many steps as two binades have magnitudes. -/
theorem roundToEven_shift_le (num : Nat) (hden : 0 < den) :
    roundToEven num (den <<< shift num den) ≤ 2 * binade := by
  refine (roundToEven_le_succ (shiftLeft_pos hden _)).trans ?_
  rw [div_shiftLeft, Nat.succ_le_iff, Nat.div_lt_iff_lt_mul (Nat.two_pow_pos _)]
  have hlog : num / den < 2 ^ (Nat.log2 (num / den) + 1) := Nat.lt_log2_self
  have hle : 2 ^ (Nat.log2 (num / den) + 1) ≤ 2 ^ (53 + shift num den) :=
    Nat.pow_le_pow_right (by decide) (by unfold shift; omega)
  have hpow : 2 ^ (53 + shift num den) = 2 * binade * 2 ^ shift num den := Nat.pow_add 2 53 _
  omega

/-- Above the lowest binade a fraction has as many steps as a binade has magnitudes. -/
theorem binade_le_roundToEven (h : 0 < shift num den) :
    binade ≤ roundToEven num (den <<< shift num den) := by
  refine le_trans ?_ div_le_roundToEven
  rw [div_shiftLeft, Nat.le_div_iff_mul_le (Nat.two_pow_pos _)]
  have hpos : num / den ≠ 0 := by
    intro hzero
    simp [shift, hzero] at h
  have hlog : 2 ^ Nat.log2 (num / den) ≤ num / den := Nat.log2_self_le hpos
  have hpow : binade * 2 ^ shift num den = 2 ^ Nat.log2 (num / den) := by
    have hsum : Nat.log2 (num / den) = 52 + shift num den := by
      unfold shift at h ⊢
      omega
    rw [hsum, Nat.pow_add]
  omega

/-- A smaller fraction has a smaller place. -/
theorem place_mono (hden : 0 < den) (hden' : 0 < den') (h : num' * den ≤ num * den') :
    place num' den' ≤ place num den := by
  have hshift := shift_mono hden hden' h
  unfold place
  rcases Nat.lt_or_eq_of_le hshift with hlt | heq
  · have hlow := roundToEven_shift_le num' hden'
    have hhigh := binade_le_roundToEven (Nat.zero_lt_of_lt hlt)
    have hmul := Nat.mul_le_mul_right binade hlt
    rw [Nat.succ_mul] at hmul
    omega
  · rw [heq]
    refine Nat.add_le_add_left ?_ _
    refine roundToEven_mono (shiftLeft_pos hden _) (shiftLeft_pos hden' _) ?_
    rw [Nat.shiftLeft_eq, Nat.shiftLeft_eq, ← Nat.mul_assoc, ← Nat.mul_assoc]
    exact Nat.mul_le_mul_right _ h

/-- What is at most a fraction with a finite magnitude has one. -/
theorem isSome_ofUnits?_mono (hden : 0 < den) (hden' : 0 < den') (h : num' * den ≤ num * den')
    (hsome : (ofUnits? num den).isSome) : (ofUnits? num' den').isSome := by
  rw [isSome_ofUnits?_iff] at hsome ⊢
  exact Nat.lt_of_le_of_lt (place_mono hden hden' h) hsome

end Place

/-! ### The values of the magnitudes -/

/-- The step from a magnitude to the next one, in units. -/
def step (w : Nat) : Nat :=
  2 ^ (w / binade - 1)

section Binades

variable {s r : Nat}

theorem div_binade (h : r < binade) : (s * binade + r) / binade = s := by
  rw [Nat.mul_comm, Nat.mul_add_div (by decide), Nat.div_eq_of_lt h, Nat.add_zero]

theorem mod_binade (h : r < binade) : (s * binade + r) % binade = r := by
  rw [Nat.mul_comm, Nat.mul_add_mod, Nat.mod_eq_of_lt h]

/-- A magnitude by its binade and its place there. -/
theorem exists_binade (w : Nat) : ∃ s r, r < binade ∧ w = s * binade + r :=
  ⟨w / binade, w % binade, Nat.mod_lt _ (by decide), (Nat.div_add_mod' w binade).symm⟩

theorem units_lowest (h : r < binade) : units (0 * binade + r) = r := by
  rw [Nat.zero_mul, Nat.zero_add, units, if_pos h]

theorem units_succ_binade (h : r < binade) :
    units ((s + 1) * binade + r) = (binade + r) * 2 ^ s := by
  have hle : binade ≤ (s + 1) * binade + r :=
    (Nat.le_mul_of_pos_left binade (Nat.succ_pos s)).trans (Nat.le_add_right _ r)
  rw [units, if_neg (Nat.not_lt.2 hle), div_binade h, mod_binade h, Nat.shiftLeft_eq,
    Nat.add_sub_cancel]

theorem step_lowest (h : r < binade) : step (0 * binade + r) = 1 := by
  rw [step, div_binade h]
  rfl

theorem step_succ_binade (h : r < binade) : step ((s + 1) * binade + r) = 2 ^ s := by
  rw [step, div_binade h, Nat.add_sub_cancel]

end Binades

/-- The next magnitude is one step further. -/
theorem units_succ (w : Nat) : units (w + 1) = units w + step w := by
  obtain ⟨s, r, hr, rfl⟩ := exists_binade w
  by_cases hlast : r + 1 < binade
  · -- The next magnitude is in the same binade.
    rw [Nat.add_assoc]
    cases s with
    | zero => rw [units_lowest hlast, units_lowest hr, step_lowest hr]
    | succ s =>
      rw [units_succ_binade hlast, units_succ_binade hr, step_succ_binade hr]
      ring
  · -- The next magnitude is the first one of the next binade.
    have hr' : r + 1 = binade := Nat.le_antisymm hr (Nat.not_lt.1 hlast)
    have hnext : s * binade + r + 1 = (s + 1) * binade + 0 := by
      rw [Nat.add_assoc, hr', Nat.add_mul, Nat.one_mul, Nat.add_zero]
    rw [hnext, units_succ_binade (by decide), Nat.add_zero]
    cases s with
    | zero => rw [units_lowest hr, step_lowest hr, hr', Nat.pow_zero, Nat.mul_one]
    | succ s =>
      rw [units_succ_binade hr, step_succ_binade hr, ← hr']
      ring

theorem units_mono : Monotone units :=
  monotone_nat_of_le_succ fun w => (units_succ w).symm ▸ Nat.le_add_right _ _

theorem units_pos {w : Nat} (h : 0 < w) : 0 < units w :=
  Nat.lt_of_lt_of_le (by decide) (units_mono (Nat.succ_le_of_lt h))

/-- The step is not small beside the value. -/
theorem units_lt (w : Nat) : units w < 2 * binade * step w := by
  obtain ⟨s, r, hr, rfl⟩ := exists_binade w
  have hsum : binade + r < 2 * binade := by
    rw [Nat.two_mul]
    exact Nat.add_lt_add_left hr binade
  cases s with
  | zero =>
    rw [units_lowest hr, step_lowest hr, Nat.mul_one]
    exact (Nat.le_add_left r binade).trans_lt hsum
  | succ s =>
    rw [units_succ_binade hr, step_succ_binade hr]
    exact Nat.mul_lt_mul_of_pos_right hsum (Nat.two_pow_pos s)

end Lineage.Binary64
