/-
The order of texts by code point.

Two texts are compared at the first place where they differ, by the code points that stand there; a
text that is the start of another comes before it.
-/

namespace Lineage.Text

/-- Compares two texts code point by code point. -/
def compareChars : List Char → List Char → Ordering
  | [], [] => .eq
  | [], _ :: _ => .lt
  | _ :: _, [] => .gt
  | a :: as, b :: bs => (compare a.toNat b.toNat).then (compareChars as bs)

/-- Compares two texts by code point. -/
def compareText (a b : String) : Ordering :=
  compareChars a.toList b.toList

theorem compareChars_eq_iff {as bs : List Char} : compareChars as bs = .eq ↔ as = bs := by
  induction as generalizing bs with
  | nil => cases bs <;> simp [compareChars]
  | cons a as ih =>
    cases bs with
    | nil => simp [compareChars]
    | cons b bs =>
      simp only [compareChars, Ordering.then_eq_eq, Nat.compare_eq_eq, ih, List.cons.injEq]
      constructor
      · rintro ⟨h, rfl⟩
        exact ⟨Char.toNat_inj.1 h, rfl⟩
      · rintro ⟨rfl, rfl⟩
        exact ⟨rfl, rfl⟩

theorem compareText_eq_iff {a b : String} : compareText a b = .eq ↔ a = b := by
  rw [compareText, compareChars_eq_iff, String.toList_inj]

theorem compareChars_eq_compareLex (as bs : List Char) :
    compareChars as bs = List.compareLex (compareOn Char.toNat) as bs := by
  induction as generalizing bs with
  | nil => cases bs <;> rfl
  | cons a as ih =>
    cases bs with
    | nil => rfl
    | cons b bs => rw [compareChars, List.compareLex_cons_cons, ih, compareOn]

theorem compareText_swap (a b : String) : compareText a b = (compareText b a).swap := by
  rw [compareText, compareText, compareChars_eq_compareLex, compareChars_eq_compareLex]
  exact Std.OrientedCmp.eq_swap

instance : Std.TransCmp compareText where
  eq_swap := compareText_swap _ _
  isLE_trans {a b c} hab hbc := by
    rw [compareText, compareChars_eq_compareLex] at hab hbc ⊢
    exact Std.TransCmp.isLE_trans hab hbc

end Lineage.Text
