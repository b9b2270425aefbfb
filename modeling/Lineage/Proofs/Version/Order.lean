/-
Version texts are totally preordered.

`compareVersions` is built from comparisons of numbers and of texts by two constructions: comparing
one part after the other, and `compareKeyed`, which puts what has a key before what has none. Both
keep a comparison transitive, so every list of items has a latest one.
-/

import Lineage.Version.Order

namespace Lineage

/-! ### Keys -/

section Keyed

variable {α β : Type} {key : α → Option β} {keyed : β → β → Ordering} {rest : α → α → Ordering}

/-- Compares by a key. What has a key comes before what has none, and `rest` compares what has
none. -/
def compareKeyed (key : α → Option β) (keyed : β → β → Ordering) (rest : α → α → Ordering)
    (a b : α) : Ordering :=
  match key a, key b with
  | some m, some n => keyed m n
  | some _, none => .lt
  | none, some _ => .gt
  | none, none => rest a b

theorem compareKeyed_swap [Std.OrientedCmp keyed] [Std.OrientedCmp rest] (a b : α) :
    compareKeyed key keyed rest a b = (compareKeyed key keyed rest b a).swap := by
  unfold compareKeyed
  cases key a <;> cases key b
  · exact Std.OrientedCmp.eq_swap
  · rfl
  · rfl
  · exact Std.OrientedCmp.eq_swap

theorem isLE_compareKeyed_trans [Std.TransCmp keyed] [Std.TransCmp rest] {a b c : α}
    (hab : (compareKeyed key keyed rest a b).isLE) (hbc : (compareKeyed key keyed rest b c).isLE) :
    (compareKeyed key keyed rest a c).isLE := by
  unfold compareKeyed at *
  -- Nothing without a key comes before what has one, so the keys stand in the order some, none.
  cases ha : key a with
  | some m =>
    cases hc : key c with
    | none => rfl
    | some n =>
      cases hb : key b with
      | some k =>
        rw [ha, hb] at hab
        rw [hb, hc] at hbc
        exact Std.TransCmp.isLE_trans hab hbc
      | none => simp [hb, hc] at hbc
  | none =>
    cases hb : key b with
    | some k => simp [ha, hb] at hab
    | none =>
      cases hc : key c with
      | some n => simp [hb, hc] at hbc
      | none =>
        rw [ha, hb] at hab
        rw [hb, hc] at hbc
        exact Std.TransCmp.isLE_trans hab hbc

instance [Std.TransCmp keyed] [Std.TransCmp rest] :
    Std.TransCmp (compareKeyed key keyed rest) where
  eq_swap := compareKeyed_swap _ _
  isLE_trans := isLE_compareKeyed_trans

end Keyed

/-! ### Versions -/

namespace Version

theorem compareIdentifier_eq :
    compareIdentifier = compareKeyed identifierValue? compare Text.compareText := by
  funext a b
  unfold compareIdentifier compareKeyed
  cases identifierValue? a <;> cases identifierValue? b <;> rfl

instance : Std.TransCmp compareIdentifier := by
  rw [compareIdentifier_eq]
  infer_instance

theorem compareIdentifiers_eq (as bs : List String) :
    compareIdentifiers as bs = List.compareLex compareIdentifier as bs := by
  induction as generalizing bs with
  | nil => cases bs <;> rfl
  | cons a as ih =>
    cases bs with
    | nil => rfl
    | cons b bs => rw [compareIdentifiers, List.compareLex_cons_cons, ih]

/-- The identifiers of a prerelease, of which a release has none. -/
def prereleaseKey? (ids : List String) : Option (List String) :=
  if ids.isEmpty then none else some ids

theorem comparePrerelease_eq :
    comparePrerelease =
      compareKeyed prereleaseKey? (List.compareLex compareIdentifier) (fun _ _ => .eq) := by
  funext as bs
  cases as with
  | nil => cases bs <;> rfl
  | cons a as =>
    cases bs with
    | nil => rfl
    | cons b bs => exact compareIdentifiers_eq (a :: as) (b :: bs)

instance : Std.TransCmp comparePrerelease := by
  have : Std.TransCmp fun _ _ : List String => Ordering.eq :=
    { eq_swap := rfl
      isLE_trans := fun _ _ => rfl }
  rw [comparePrerelease_eq]
  infer_instance

theorem precedence_eq :
    precedence = compareLex
      (compareLex (compareOn major) (compareLex (compareOn minor) (compareOn patch)))
      (fun a b => comparePrerelease a.prerelease b.prerelease) := rfl

instance : Std.TransCmp precedence := by
  have : Std.TransCmp fun a b : Version => comparePrerelease a.prerelease b.prerelease :=
    { eq_swap := Std.OrientedCmp.eq_swap
      isLE_trans := Std.TransCmp.isLE_trans }
  rw [precedence_eq]
  infer_instance

end Version

theorem compareVersions_eq :
    compareVersions = fun a b => compareKeyed Version.parse? (fun v w => w.precedence v)
      (fun a b => Text.compareText b a) b a := by
  funext a b
  unfold compareVersions compareKeyed
  cases Version.parse? a <;> cases Version.parse? b <;> rfl

instance : Std.TransCmp compareVersions := by
  rw [compareVersions_eq]
  infer_instance

@[simp] theorem compareVersions_self (a : String) : compareVersions a a = .eq :=
  Std.ReflCmp.compare_self

/-- Nothing but the empty text comes before or with the empty text. -/
theorem eq_empty_of_isLE {a : String} (h : (compareVersions a "").isLE) : a = "" := by
  have hparse : Version.parse? "" = none := by decide
  rw [compareVersions, hparse] at h
  cases hv : Version.parse? a with
  | some v => simp [hv] at h
  | none =>
    rw [hv] at h
    cases hc : a.toList with
    | nil => exact String.toList_eq_nil_iff.1 hc
    | cons c cs => simp [Text.compareText, hc, Text.compareChars] at h

/-- Texts of every kind, versions or not, are totally preordered: each is level with itself, a
comparison turns round with its sides, and nothing comes before what it follows. So being level is an
equivalence, and level texts may stand for each other in every comparison. -/
theorem compareVersions_totalPreorder :
    (∀ a, compareVersions a a = .eq) ∧
      (∀ a b, compareVersions b a = (compareVersions a b).swap) ∧
      (∀ a b c, (compareVersions a b).isLE → (compareVersions b c).isLE →
        (compareVersions a c).isLE) ∧
      (Equivalence fun a b => compareVersions a b = .eq) ∧
      ∀ a a' b b', compareVersions a a' = .eq → compareVersions b b' = .eq →
        compareVersions a b = compareVersions a' b' := by
  have hequivalence : Equivalence fun a b => compareVersions a b = .eq :=
    { refl := compareVersions_self
      symm := Std.OrientedCmp.eq_symm
      trans := Std.TransCmp.eq_trans }
  refine ⟨compareVersions_self, fun a b => Std.OrientedCmp.eq_swap,
    fun a b c => Std.TransCmp.isLE_trans, hequivalence, ?_⟩
  intro a a' b b' ha hb
  calc
    compareVersions a b = compareVersions a' b := Std.TransCmp.congr_left ha
    _ = compareVersions a' b' := Std.TransCmp.congr_right hb

/-- A text that is no version, a word, a number that counts as text and a release follow each other,
and a release can be written in other ways. -/
theorem compareVersions_totalPreorder_mixed :
    (compareVersions "draft" "1-2.x").isLE ∧
      (compareVersions "1-2.x" "1.0-18446744073709551616").isLE ∧
      (compareVersions "draft" "1.0-18446744073709551616").isLE ∧
      compareVersions " v1+b " "1.0.0" = .eq ∧
      compareVersions "1.0-18446744073709551616" " v1+b " =
        compareVersions "1.0-18446744073709551616" "1.0.0" := by
  obtain ⟨-, -, htrans, -, hcongr⟩ := compareVersions_totalPreorder
  have hword : (compareVersions "draft" "1-2.x").isLE := by decide
  have hnumber : (compareVersions "1-2.x" "1.0-18446744073709551616").isLE := by decide
  have hlevel : compareVersions " v1+b " "1.0.0" = .eq := by decide
  exact ⟨hword, hnumber, htrans _ _ _ hword hnumber, hlevel, hcongr _ _ _ _ (by decide) hlevel⟩

end Lineage
