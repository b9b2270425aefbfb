/-
Which decimals denote a finite number.

A decimal is read by one multiplication or by divisions, and each of them is rounded. Rounding keeps
order, so of two significands with one exponent the smaller denotes a number whenever the larger
does. Dividing by a power of ten never makes a number too large, and for a multiplication the
largest significand of each power settles all that are smaller.
-/

import Lineage.Proofs.Binary64.Rounding

namespace Lineage.Binary64

/-- The largest finite magnitude. -/
def top : Nat :=
  magnitudes - 1

theorem one_pos : 0 < one :=
  shiftLeft_pos Nat.one_pos 1074

theorem tenTo_pos (k : Nat) : 0 < tenTo k :=
  Nat.pow_pos (by decide)

theorem le_top (w : Fin magnitudes) : w.val ≤ top :=
  Nat.le_pred_of_lt w.isLt

/-- A magnitude is near to itself. -/
theorem isSome_ofUnits?_units (w : Fin magnitudes) : (ofUnits? (units w) 1).isSome := by
  have htop : (ofUnits? (units top) 1).isSome := by decide +kernel
  exact isSome_ofUnits?_mono Nat.one_pos Nat.one_pos
    (Nat.mul_le_mul_right 1 (units_mono (le_top w))) htop

/-! ### Natural numbers -/

section OfNat

variable {m n : Nat}

theorem isSome_ofNat?_mono (h : m ≤ n) (hsome : (ofNat? n).isSome) : (ofNat? m).isSome := by
  rw [ofNat?, Option.isSome_map] at hsome ⊢
  refine isSome_ofUnits?_mono Nat.one_pos Nat.one_pos ?_ hsome
  exact Nat.mul_le_mul_right 1 (Nat.mul_le_mul_right one h)

theorem magnitude_ofNat?_mono {x y : Binary64} (h : m ≤ n) (hm : ofNat? m = some x)
    (hn : ofNat? n = some y) : x.magnitude.val ≤ y.magnitude.val := by
  rw [ofNat?, Option.map_eq_some_iff] at hm hn
  obtain ⟨v, hv, rfl⟩ := hm
  obtain ⟨w, hw, rfl⟩ := hn
  rw [val_ofUnits? hv, val_ofUnits? hw]
  exact place_mono Nat.one_pos Nat.one_pos (Nat.mul_le_mul_right 1 (Nat.mul_le_mul_right one h))

theorem isSome_ofNat?_tenTo (h : n ≤ tenTo maxPower) : (ofNat? n).isSome := by
  have hpower : (ofNat? (tenTo maxPower)).isSome := by decide +kernel
  exact isSome_ofNat?_mono h hpower

theorem tenTo_mono (h : m ≤ n) : tenTo m ≤ tenTo n :=
  Nat.pow_le_pow_right (by decide) h

theorem magnitude_powerOfTen_mono (h : m ≤ n) (hn : n ≤ maxPower) :
    (powerOfTen m).magnitude.val ≤ (powerOfTen n).magnitude.val := by
  obtain ⟨x, hx⟩ := Option.isSome_iff_exists.1 (isSome_ofNat?_tenTo (tenTo_mono (h.trans hn)))
  obtain ⟨y, hy⟩ := Option.isSome_iff_exists.1 (isSome_ofNat?_tenTo (tenTo_mono hn))
  rw [powerOfTen, powerOfTen, hx, hy]
  exact magnitude_ofNat?_mono (tenTo_mono h) hx hy

theorem units_powerOfTen_zero : units (powerOfTen 0).magnitude = one := by
  decide +kernel

/-- A power of ten is not below one. -/
theorem one_le_powerOfTen (h : n ≤ maxPower) : one ≤ units (powerOfTen n).magnitude := by
  rw [← units_powerOfTen_zero]
  exact units_mono (magnitude_powerOfTen_mono (Nat.zero_le n) h)

end OfNat

/-! ### Products and quotients -/

section Scaling

variable {a a' b b' : Binary64}

theorem isSome_mul?_mono (ha : a'.magnitude.val ≤ a.magnitude.val)
    (hb : b'.magnitude.val ≤ b.magnitude.val) (hsome : (a.mul? b).isSome) :
    (a'.mul? b').isSome := by
  rw [mul?, Option.isSome_map] at hsome ⊢
  refine isSome_ofUnits?_mono one_pos one_pos ?_ hsome
  exact Nat.mul_le_mul_right _ (Nat.mul_le_mul (units_mono ha) (units_mono hb))

/-- A number that is divided by no less than one does not become too large. -/
theorem isSome_div? (hb : one ≤ units b.magnitude) : (a.div? b).isSome := by
  have hpos : 0 < units b.magnitude := Nat.lt_of_lt_of_le one_pos hb
  rw [div?, Option.isSome_map]
  refine isSome_ofUnits?_mono Nat.one_pos hpos ?_ (isSome_ofUnits?_units a.magnitude)
  rw [Nat.mul_one]
  exact Nat.mul_le_mul_left _ hb

theorem isSome_mul?_powerOfTen_zero (a : Binary64) : (a.mul? (powerOfTen 0)).isSome := by
  rw [mul?, Option.isSome_map, units_powerOfTen_zero]
  refine isSome_ofUnits?_mono Nat.one_pos one_pos ?_
    (isSome_ofUnits?_units a.magnitude)
  rw [Nat.mul_one]

section ScaleWithin

variable {k : Int} {fuel : Nat}

theorem scaleWithin?_near (h : k.natAbs ≤ maxPower) :
    scaleWithin? a k (fuel + 1) =
      if 0 ≤ k then a.mul? (powerOfTen k.natAbs) else a.div? (powerOfTen k.natAbs) := by
  rw [scaleWithin?, if_pos h]

theorem scaleWithin?_zero (h : ¬ k.natAbs ≤ maxPower) (hzero : a.magnitude.val = 0) :
    scaleWithin? a k (fuel + 1) = some a := by
  rw [scaleWithin?, if_neg h, if_pos hzero]

theorem scaleWithin?_far {c : Binary64} (h : ¬ k.natAbs ≤ maxPower) (hzero : a.magnitude.val ≠ 0)
    (hneg : ¬ 0 ≤ k) (hc : a.div? (powerOfTen maxPower) = some c) :
    scaleWithin? a k (fuel + 1) = scaleWithin? c (k + maxPower) fuel := by
  rw [scaleWithin?, if_neg h, if_neg hzero, if_neg hneg, hc, Option.bind_some]

end ScaleWithin

theorem isSome_scaleWithin? (fuel : Nat) (a : Binary64) {k : Int} (hk : k ≤ 0) :
    (scaleWithin? a k fuel).isSome := by
  induction fuel generalizing a k with
  | zero => rfl
  | succ fuel ih =>
    by_cases hnear : k.natAbs ≤ maxPower
    · rw [scaleWithin?_near hnear]
      by_cases hnonneg : 0 ≤ k
      · rw [if_pos hnonneg, Int.le_antisymm hk hnonneg]
        exact isSome_mul?_powerOfTen_zero a
      · rw [if_neg hnonneg]
        exact isSome_div? (one_le_powerOfTen hnear)
    · by_cases hzero : a.magnitude.val = 0
      · rw [scaleWithin?_zero hnear hzero]
        rfl
      · obtain ⟨c, hc⟩ := Option.isSome_iff_exists.1
          (isSome_div? (a := a) (one_le_powerOfTen (Nat.le_refl maxPower)))
        unfold maxPower at hnear
        rw [scaleWithin?_far hnear hzero (by omega) hc]
        refine ih c ?_
        unfold maxPower
        omega

theorem scale?_natCast {k : Nat} (hk : k ≤ maxPower) (a : Binary64) :
    a.scale? k = a.mul? (powerOfTen k) := by
  have hnear : (k : Int).natAbs ≤ maxPower := hk
  rw [scale?, scaleWithin?_near hnear, if_pos (Int.natCast_nonneg k), Int.natAbs_natCast]

end Scaling

/-! ### Decimals -/

section OfDecimal

variable {negative : Bool} {m n : Nat}

theorem isSome_ofDecimal?_iff {k : Int} :
    (ofDecimal? negative n k).isSome ↔ ∃ x, ofNat? n = some x ∧ (x.scale? k).isSome := by
  rw [ofDecimal?]
  cases ofNat? n with
  | none => simp
  | some x => cases h : x.scale? k <;> simp [h]

theorem isSome_ofDecimal?_of_nonpos {k : Int} (hn : n ≤ tenTo maxPower) (hk : k ≤ 0) :
    (ofDecimal? negative n k).isSome := by
  obtain ⟨x, hx⟩ := Option.isSome_iff_exists.1 (isSome_ofNat?_tenTo hn)
  exact isSome_ofDecimal?_iff.2 ⟨x, hx, isSome_scaleWithin? _ x hk⟩

/-- Of two decimals with whole values, the one with the smaller significand and the smaller power of
ten denotes a number if the other one does. -/
theorem isSome_ofDecimal?_mono {other : Bool} {k l : Nat} (hl : l ≤ maxPower) (hkl : k ≤ l)
    (h : m ≤ n) (hsome : (ofDecimal? other n l).isSome) : (ofDecimal? negative m k).isSome := by
  obtain ⟨y, hy, hscale⟩ := isSome_ofDecimal?_iff.1 hsome
  obtain ⟨x, hx⟩ := Option.isSome_iff_exists.1 (isSome_ofNat?_mono h (Option.isSome_of_eq_some hy))
  refine isSome_ofDecimal?_iff.2 ⟨x, hx, ?_⟩
  rw [scale?_natCast hl] at hscale
  rw [scale?_natCast (hkl.trans hl)]
  exact isSome_mul?_mono (magnitude_ofNat?_mono h hx hy) (magnitude_powerOfTen_mono hkl hl) hscale

/-- Twice the point half-way between the two largest magnitudes, in units. -/
def halfway : Nat :=
  units (top - 1) + units top

/-- The largest significand up to 10¹⁸ that is not beyond the half-way point of the two largest
magnitudes when it is scaled by a power of ten. -/
def largest (k : Nat) : Nat :=
  min (tenTo 18) (halfway / (2 * (tenTo k * one)))

/-- Rounding the significand, the power of ten and their product can lead two steps beyond the exact
product, and the half-way point is one step below what is too large. So what these roundings come to
is computed, for each power that a significand up to 10¹⁸ can be too large for. -/
theorem isSome_ofDecimal?_largest :
    ∀ i < 19, (ofDecimal? false (largest (290 + i)) ↑(290 + i)).isSome := by
  decide +kernel

theorem isSome_ofDecimal?_of_le_halfway {k : Nat} (hpos : 0 < n) (hn : n ≤ tenTo 18)
    (h : 2 * (n * tenTo k * one) ≤ halfway) : (ofDecimal? negative n k).isSome := by
  have hk : k ≤ maxPower := by
    by_contra hlarge
    have hbeyond : halfway < 2 * (tenTo (maxPower + 1) * one) := by decide +kernel
    have hpower : tenTo (maxPower + 1) ≤ n * tenTo k :=
      (tenTo_mono (Nat.lt_of_not_le hlarge)).trans (Nat.le_mul_of_pos_left _ hpos)
    have hmul : 2 * (tenTo (maxPower + 1) * one) ≤ 2 * (n * tenTo k * one) :=
      Nat.mul_le_mul_left 2 (Nat.mul_le_mul_right one hpower)
    exact absurd (hbeyond.trans_le (hmul.trans h)) (Nat.lt_irrefl _)
  by_cases hsmall : k ≤ 290
  · have hlargest : largest 290 = tenTo 18 := by decide +kernel
    have hsome := isSome_ofDecimal?_largest 0 (by decide)
    exact isSome_ofDecimal?_mono (by decide) hsmall (hn.trans hlargest.ge) hsome
  · have hle : n ≤ largest k := by
      refine Nat.le_min.2 ⟨hn, ?_⟩
      rw [Nat.le_div_iff_mul_le (Nat.mul_pos Nat.two_pos (Nat.mul_pos (tenTo_pos k) one_pos))]
      calc n * (2 * (tenTo k * one)) = 2 * (n * tenTo k * one) := by ring
        _ ≤ halfway := h
    obtain ⟨i, rfl⟩ := Nat.exists_eq_add_of_le (Nat.le_of_not_le hsmall)
    have hi : i < 19 := by
      unfold maxPower at hk
      omega
    exact isSome_ofDecimal?_mono hk (Nat.le_refl _) hle (isSome_ofDecimal?_largest i hi)

end OfDecimal

end Lineage.Binary64
