/-
The shortest decimal of a number denotes a number.

`amount` is what a decimal is worth in units. What a grid offers lies in the interval of the reals
that round to the magnitude, and the finest grid that is tried has steps smaller than half of that
interval, so it offers something. The decimal that is found has no more than eighteen digits and is
not beyond the half-way point to the next magnitude, which `Scaling` asks for.
-/

import Mathlib.Algebra.Order.Field.Power
import Mathlib.Data.Rat.Cast.Order
import Mathlib.Tactic.FieldSimp
import Mathlib.Tactic.Positivity
import Lineage.Binary64.Shortest
import Lineage.Proofs.Binary64.Scaling
import Lineage.Proofs.Text.Digits

namespace Lineage.Binary64

variable {w n : Nat} {k : Int}

/-! ### Decimals in units -/

/-- The value of `n · 10^k`, in units. -/
def amount (n : Nat) (k : Int) : ℚ :=
  n * 10 ^ k * one

theorem one_cast_pos : 0 < (one : ℚ) :=
  Nat.cast_pos.2 one_pos

theorem tenTo_cast (n : Nat) : (tenTo n : ℚ) = 10 ^ n :=
  Nat.cast_pow 10 n

theorem tenTo_natAbs_of_nonneg (h : 0 ≤ k) : (tenTo k.natAbs : ℚ) = 10 ^ k := by
  obtain ⟨n, rfl⟩ := Int.eq_ofNat_of_zero_le h
  rw [tenTo_cast, Int.natAbs_natCast, zpow_natCast]

theorem tenTo_natAbs_of_neg (h : ¬ 0 ≤ k) : (tenTo k.natAbs : ℚ) = (10 ^ k)⁻¹ := by
  rw [← Int.natAbs_neg, tenTo_natAbs_of_nonneg (by omega), zpow_neg]

theorem ten_zpow_pos (k : Int) : (0 : ℚ) < 10 ^ k :=
  zpow_pos (by norm_num) k

theorem amount_succ (n : Nat) (k : Int) : amount (n + 1) k = amount n k + amount 1 k := by
  unfold amount
  push_cast
  ring

theorem amount_natCast (n k : Nat) : amount n k = (n * tenTo k * one : Nat) := by
  rw [amount, zpow_natCast, ← tenTo_cast]
  push_cast
  rfl

theorem amount_lt_iff {m n : Nat} : amount m k < amount n k ↔ m < n := by
  unfold amount
  rw [mul_lt_mul_iff_left₀ one_cast_pos, mul_lt_mul_iff_left₀ (ten_zpow_pos k), Nat.cast_lt]

/-- More digits in front of a lower power of ten. -/
theorem amount_add (n : Nat) (k : Int) (j : Nat) : amount n (k + j) = amount (n * tenTo j) k := by
  unfold amount
  rw [zpow_add₀ (by norm_num), zpow_natCast, ← tenTo_cast]
  push_cast
  ring

theorem amount_neg_le_iff {j x : Nat} : amount n (-j) ≤ x ↔ n * one ≤ x * tenTo j := by
  have hpos : (0 : ℚ) < tenTo j := Nat.cast_pos.2 (tenTo_pos j)
  have hamount : amount n (-j) * tenTo j = (n * one : Nat) := by
    rw [amount, zpow_neg, zpow_natCast, ← tenTo_cast]
    push_cast
    field_simp
  rw [← mul_le_mul_iff_left₀ hpos, hamount]
  exact_mod_cast Iff.rfl

/-! ### The interval of a magnitude -/

/-- A decimal as a fraction of whole units, which is compared with the ends of the interval. -/
theorem exists_fraction (n : Nat) (k : Int) : ∃ point unit : Nat, 0 < unit ∧
    (point : ℚ) = amount n k * unit ∧
    ∀ w, roundsTo w n k =
      if w % 2 = 0 then
        (units (w - 1) + units w) * unit ≤ 2 * point && 2 * point ≤ (units w + units (w + 1)) * unit
      else
        (units (w - 1) + units w) * unit < 2 * point &&
          2 * point < (units w + units (w + 1)) * unit := by
  by_cases hk : 0 ≤ k
  · refine ⟨n * tenTo k.natAbs * one, 1, Nat.one_pos, ?_, fun w => ?_⟩
    · rw [amount, ← tenTo_natAbs_of_nonneg hk]
      push_cast
      ring
    · unfold roundsTo
      rw [if_pos hk]
  · refine ⟨n * one, tenTo k.natAbs, tenTo_pos _, ?_, fun w => ?_⟩
    · have hpos := ten_zpow_pos k
      rw [amount, tenTo_natAbs_of_neg hk]
      push_cast
      field_simp
    · unfold roundsTo
      rw [if_neg hk]

/-- What rounds to a magnitude is between the half-way points to its neighbours. -/
theorem roundsTo_bounds (h : roundsTo w n k = true) :
    (units (w - 1) + units w : ℚ) ≤ 2 * amount n k ∧
      2 * amount n k ≤ (units w + units (w + 1) : ℚ) := by
  obtain ⟨point, unit, hunit, hpoint, hrounds⟩ := exists_fraction n k
  have hle : (units (w - 1) + units w) * unit ≤ 2 * point ∧
      2 * point ≤ (units w + units (w + 1)) * unit := by
    rw [hrounds] at h
    split at h
    · simpa using h
    · rw [Bool.and_eq_true, decide_eq_true_eq, decide_eq_true_eq] at h
      exact ⟨h.1.le, h.2.le⟩
  have hcast : (0 : ℚ) < unit := Nat.cast_pos.2 hunit
  constructor
  · have hlow : ((units (w - 1) + units w : ℚ)) * unit ≤ 2 * point := by exact_mod_cast hle.1
    rw [hpoint, ← mul_assoc] at hlow
    exact le_of_mul_le_mul_right hlow hcast
  · have hhigh : 2 * (point : ℚ) ≤ (units w + units (w + 1)) * unit := by exact_mod_cast hle.2
    rw [hpoint, ← mul_assoc] at hhigh
    exact le_of_mul_le_mul_right hhigh hcast

/-- What is strictly between the half-way points rounds to the magnitude. -/
theorem roundsTo_of_lt (hlow : (units (w - 1) + units w : ℚ) < 2 * amount n k)
    (hhigh : 2 * amount n k < (units w + units (w + 1) : ℚ)) : roundsTo w n k = true := by
  obtain ⟨point, unit, hunit, hpoint, hrounds⟩ := exists_fraction n k
  have hcast : (0 : ℚ) < unit := Nat.cast_pos.2 hunit
  have hlow' : (units (w - 1) + units w) * unit < 2 * point := by
    have hmul := mul_lt_mul_of_pos_right hlow hcast
    rw [mul_assoc, ← hpoint] at hmul
    exact_mod_cast hmul
  have hhigh' : 2 * point < (units w + units (w + 1)) * unit := by
    have hmul := mul_lt_mul_of_pos_right hhigh hcast
    rw [mul_assoc, ← hpoint] at hmul
    exact_mod_cast hmul
  rw [hrounds]
  split
  · simp [hlow'.le, hhigh'.le]
  · simp [hlow', hhigh']

/-! ### One grid -/

theorem scaled_spec (x : Nat) (k : Int) :
    0 < (scaled x k).2 ∧ ((scaled x k).1 : ℚ) * one = x * 10 ^ k * (scaled x k).2 := by
  by_cases hk : 0 ≤ k
  · rw [scaled, if_pos hk]
    refine ⟨one_pos, ?_⟩
    rw [← tenTo_natAbs_of_nonneg hk]
    push_cast
    rfl
  · rw [scaled, if_neg hk]
    refine ⟨Nat.mul_pos one_pos (tenTo_pos _), ?_⟩
    have hpos := ten_zpow_pos k
    push_cast
    rw [tenTo_natAbs_of_neg hk]
    field_simp

/-- The last point of the grid of multiples of `10^k` that is not above a magnitude. -/
def below (w : Nat) (k : Int) : Nat :=
  (scaled (units w) (-k)).1 / (scaled (units w) (-k)).2

theorem amount_below_le (w : Nat) (k : Int) : amount (below w k) k ≤ units w := by
  obtain ⟨hden, hnum⟩ := scaled_spec (units w) (-k)
  have hdiv : (below w k * (scaled (units w) (-k)).2 : ℚ) ≤ (scaled (units w) (-k)).1 := by
    exact_mod_cast Nat.div_mul_le_self _ _
  generalize (scaled (units w) (-k)).1 = num at *
  generalize (scaled (units w) (-k)).2 = den at *
  have hpos := ten_zpow_pos k
  have hcast : (0 : ℚ) < den := Nat.cast_pos.2 hden
  rw [zpow_neg] at hnum
  refine le_of_mul_le_mul_right (a := (den : ℚ)) ?_ hcast
  calc amount (below w k) k * den = below w k * den * one * 10 ^ k := by rw [amount]; ring
    _ ≤ num * one * 10 ^ k :=
      mul_le_mul_of_nonneg_right (mul_le_mul_of_nonneg_right hdiv one_cast_pos.le) hpos.le
    _ = units w * den := by rw [hnum]; field_simp

theorem lt_amount_below_succ (w : Nat) (k : Int) : (units w : ℚ) < amount (below w k + 1) k := by
  obtain ⟨hden, hnum⟩ := scaled_spec (units w) (-k)
  have hdiv : ((scaled (units w) (-k)).1 : ℚ) <
      (below w k + 1 : Nat) * (scaled (units w) (-k)).2 := by
    exact_mod_cast Nat.lt_mul_of_div_lt (Nat.lt_succ_self _) hden
  generalize (scaled (units w) (-k)).1 = num at *
  generalize (scaled (units w) (-k)).2 = den at *
  have hpos := ten_zpow_pos k
  have hcast : (0 : ℚ) < den := Nat.cast_pos.2 hden
  rw [zpow_neg] at hnum
  refine lt_of_mul_lt_mul_right (a := (den : ℚ)) ?_ hcast.le
  calc units w * (den : ℚ) = num * one * 10 ^ k := by rw [hnum]; field_simp
    _ < (below w k + 1 : Nat) * den * one * 10 ^ k :=
      mul_lt_mul_of_pos_right (mul_lt_mul_of_pos_right hdiv one_cast_pos) hpos
    _ = amount (below w k + 1) k * den := by rw [amount]; ring

/-- The nearer one of the two points around a magnitude, the even one of two equally near ones. -/
def nearer (w : Nat) (k : Int) : Nat :=
  let (num, den) := scaled (units w) (-k)
  if 2 * (num % den) < den then below w k
  else if den < 2 * (num % den) then below w k + 1
  else below w k + below w k % 2

theorem nearer_eq_or (w : Nat) (k : Int) : nearer w k = below w k ∨ nearer w k = below w k + 1 := by
  unfold nearer
  dsimp only
  split
  · exact .inl rfl
  · split
    · exact .inr rfl
    · rcases Nat.mod_two_eq_zero_or_one (below w k) with heven | hodd
      · exact .inl (by rw [heven, Nat.add_zero])
      · exact .inr (by rw [hodd])

theorem onGrid?_eq (w : Nat) (k : Int) :
    onGrid? w k =
      match roundsTo w (below w k) k, roundsTo w (below w k + 1) k with
      | true, true => some (nearer w k)
      | true, false => some (below w k)
      | false, true => some (below w k + 1)
      | false, false => none := rfl

/-- What a grid offers rounds to the magnitude and is one of the two points around it. -/
theorem onGrid?_spec (h : onGrid? w k = some n) :
    roundsTo w n k = true ∧ n ≤ below w k + 1 := by
  rw [onGrid?_eq] at h
  split at h
  · next hbelow habove =>
    cases h
    rcases nearer_eq_or w k with heq | heq
    · rw [heq]
      exact ⟨hbelow, Nat.le_succ _⟩
    · rw [heq]
      exact ⟨habove, Nat.le_refl _⟩
  · next hbelow _ =>
    cases h
    exact ⟨hbelow, Nat.le_succ _⟩
  · next habove =>
    cases h
    exact ⟨habove, Nat.le_refl _⟩
  · cases h

theorem isSome_onGrid? (h : roundsTo w (below w k + 1) k = true) : (onGrid? w k).isSome := by
  rw [onGrid?_eq, h]
  cases roundsTo w (below w k) k <;> rfl

/-! ### The grids from the leading digit on -/

/-- The leading digit of a value in units. -/
theorem leadingExponent_spec {x : Nat} (h : 0 < x) :
    amount 1 (leadingExponent x) ≤ x ∧ (x : ℚ) < amount 1 (leadingExponent x + 1) := by
  -- The value is at least one in units of 10⁻⁴⁰⁰, and its digits are counted there.
  have hbase : one ≤ tenTo 400 := by decide +kernel
  have hpos : 0 < x * tenTo 400 / one :=
    Nat.div_pos (hbase.trans (Nat.le_mul_of_pos_left _ h)) one_pos
  have hlow := Text.pow_length_digits_le hpos
  have hhigh := Text.lt_pow_length_digits (x * tenTo 400 / one)
  have hlength := Text.length_digits_pos (x * tenTo 400 / one)
  rw [leadingExponent]
  generalize (Text.digits (x * tenTo 400 / one)).length = length at *
  constructor
  · have hexponent : (length : Int) - 401 = -(400 : Nat) + (length - 1 : Nat) := by omega
    rw [hexponent, amount_add, Nat.one_mul, amount_neg_le_iff]
    exact (Nat.le_div_iff_mul_le one_pos).1 hlow
  · have hexponent : (length : Int) - 401 + 1 = -(400 : Nat) + length := by omega
    rw [hexponent, amount_add, Nat.one_mul, ← not_le, amount_neg_le_iff, Nat.not_le]
    exact (Nat.div_lt_iff_lt_mul one_pos).1 hhigh

theorem firstGrid_spec {fuel : Nat} (hlast : (onGrid? w (k - fuel)).isSome) :
    ∃ j ≤ fuel, (firstGrid w k fuel).exponent = k - j ∧
      onGrid? w (k - j) = some (firstGrid w k fuel).digits := by
  induction fuel generalizing k with
  | zero =>
    obtain ⟨n, hn⟩ := Option.isSome_iff_exists.1 hlast
    refine ⟨0, Nat.le_refl 0, (Int.sub_zero k).symm, ?_⟩
    rw [Nat.cast_zero, Int.sub_zero] at hn ⊢
    rw [firstGrid, hn]
    rfl
  | succ fuel ih =>
    rw [firstGrid]
    cases hn : onGrid? w k with
    | some n =>
      refine ⟨0, Nat.zero_le _, (Int.sub_zero k).symm, ?_⟩
      rw [Nat.cast_zero, Int.sub_zero, hn]
    | none =>
      have hnext : k - 1 - (fuel : Int) = k - (fuel + 1 : Nat) := by omega
      rw [← hnext] at hlast
      obtain ⟨j, hj, hexponent, hdigits⟩ := ih hlast
      have hstep : k - 1 - (j : Int) = k - (j + 1 : Nat) := by omega
      rw [hstep] at hexponent hdigits
      exact ⟨j + 1, Nat.succ_le_succ hj, hexponent, hdigits⟩

/-- The grid of the seventeenth digit after the leading one offers a point. -/
theorem isSome_onGrid?_last (h : 0 < w) :
    (onGrid? w (leadingExponent (units w) - (17 : Nat))).isSome := by
  have hlead := (leadingExponent_spec (units_pos h)).1
  generalize hk : leadingExponent (units w) - (17 : Nat) = k
  have hlow := amount_below_le w k
  have hhigh := lt_amount_below_succ w k
  rw [amount_succ] at hhigh
  -- One step of this grid is less than half a step of the magnitudes.
  have hstep : 2 * amount 1 k < step w := by
    have hsum : leadingExponent (units w) = k + (17 : Nat) := by omega
    have hten : amount 1 (k + (17 : Nat)) = 10 ^ 17 * amount 1 k := by
      rw [amount_add, Nat.one_mul, amount, amount, tenTo_cast]
      push_cast
      ring
    have hunits : (units w : ℚ) < 2 * binade * step w := by exact_mod_cast units_lt w
    rw [hsum, hten] at hlead
    have hbinade : (binade : ℚ) = 4503599627370496 := rfl
    rw [hbinade] at hunits
    linarith
  have hnext : (units (w + 1) : ℚ) = units w + step w := by exact_mod_cast units_succ w
  have hprev : (units (w - 1) : ℚ) ≤ units w := by exact_mod_cast units_mono (Nat.sub_le w 1)
  refine isSome_onGrid? (roundsTo_of_lt ?_ ?_)
  · rw [amount_succ]
    linarith
  · rw [amount_succ, hnext]
    linarith

/-! ### The shortest decimal -/

theorem normalize_spec (fuel : Nat) {d : Decimal} (h : d.digits ≠ 0) :
    (d.normalize fuel).digits ≠ 0 ∧ (d.normalize fuel).digits ≤ d.digits ∧
      amount (d.normalize fuel).digits (d.normalize fuel).exponent =
        amount d.digits d.exponent := by
  induction fuel generalizing d with
  | zero => exact ⟨h, Nat.le_refl _, rfl⟩
  | succ fuel ih =>
    rw [Decimal.normalize]
    split
    · next hzero =>
      have hdigits : d.digits / 10 * 10 = d.digits :=
        Nat.div_mul_cancel (Nat.dvd_of_mod_eq_zero hzero.2)
      have hne : d.digits / 10 ≠ 0 := by
        intro hdiv
        rw [hdiv, Nat.zero_mul] at hdigits
        exact h hdigits.symm
      obtain ⟨hne', hle, hamount⟩ := ih (d := ⟨d.digits / 10, d.exponent + 1⟩) hne
      refine ⟨hne', hle.trans (Nat.div_le_self _ _), hamount.trans ?_⟩
      have hten := amount_add (d.digits / 10) d.exponent 1
      rw [Nat.cast_one] at hten
      rw [hten]
      exact congrArg (amount · d.exponent) hdigits
    · exact ⟨h, Nat.le_refl _, rfl⟩

/-- The shortest decimal has digits, at most eighteen of them or 10¹⁸, and is not beyond the
half-way point to the next magnitude. -/
theorem shortest_spec (h : 0 < w) :
    (shortest w).digits ≠ 0 ∧ (shortest w).digits ≤ tenTo 18 ∧
      2 * amount (shortest w).digits (shortest w).exponent ≤ (units w + units (w + 1) : ℚ) := by
  obtain ⟨j, hj, hexponent, hgrid⟩ := firstGrid_spec (isSome_onGrid?_last h)
  unfold shortest
  generalize firstGrid w (leadingExponent (units w)) 17 = d at *
  rw [← hexponent] at hgrid
  obtain ⟨hrounds, hle⟩ := onGrid?_spec hgrid
  obtain ⟨hlow, hhigh⟩ := roundsTo_bounds hrounds
  have hne : d.digits ≠ 0 := by
    intro hzero
    have hpos : (0 : ℚ) < units w := Nat.cast_pos.2 (units_pos h)
    have hprev : (0 : ℚ) ≤ units (w - 1) := Nat.cast_nonneg _
    rw [hzero, amount, Nat.cast_zero] at hlow
    linarith
  have hbound : d.digits ≤ tenTo 18 := by
    have hsum : leadingExponent (units w) + 1 = d.exponent + (j + 1 : Nat) := by omega
    have hlt := (amount_below_le w d.exponent).trans_lt (leadingExponent_spec (units_pos h)).2
    rw [hsum, amount_add, Nat.one_mul, amount_lt_iff] at hlt
    exact hle.trans (hlt.trans_le (tenTo_mono (by omega)))
  obtain ⟨hne', hle', hamount⟩ := normalize_spec 20 hne
  rw [hamount]
  exact ⟨hne', hle'.trans hbound, hhigh⟩

/-- The shortest decimal of a finite number denotes a finite number. -/
theorem isSome_ofDecimal?_shortest (negative : Bool) (h : 0 < w) (hw : w < magnitudes) :
    (ofDecimal? negative (shortest w).digits (shortest w).exponent).isSome := by
  obtain ⟨hne, hle, hhigh⟩ := shortest_spec h
  by_cases hexponent : (shortest w).exponent ≤ 0
  · exact isSome_ofDecimal?_of_nonpos (hle.trans (tenTo_mono (by decide))) hexponent
  · by_cases htop : w = top
    · -- Beyond the largest magnitude there is no half-way point.
      rw [htop]
      cases negative <;> decide +kernel
    · obtain ⟨k, hk⟩ := Int.eq_ofNat_of_zero_le (Int.le_of_not_le hexponent)
      rw [hk] at hhigh ⊢
      refine isSome_ofDecimal?_of_le_halfway (Nat.pos_of_ne_zero hne) hle ?_
      have hnext : w + 1 ≤ top := by
        unfold top at htop ⊢
        omega
      have hmono : units w + units (w + 1) ≤ halfway :=
        Nat.add_le_add (units_mono (Nat.le_pred_of_lt hnext)) (units_mono hnext)
      rw [amount_natCast] at hhigh
      exact le_trans (by exact_mod_cast hhigh) hmono

end Lineage.Binary64
