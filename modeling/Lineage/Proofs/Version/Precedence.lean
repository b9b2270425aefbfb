/-
The precedence of what version texts denote.

`Rank` is what counts of a version: three numbers, and the identifiers of its prerelease, each a
number or a word. `Rank.Precedes` orders ranks by one rule for each way in which a version comes before
another. `compareVersions_rank` says that texts are compared by the ranks of what they spell, as long
as no number beyond `maxComponent` has to be compared with a word or with another such number, for
those are compared as texts.
-/

import Mathlib.Data.List.Lex
import Lineage.Proofs.Version.Grammar
import Lineage.Proofs.Version.Order

namespace Lineage

theorem Text.compareText_eq_lt_iff {a b : String} : compareText a b = .lt ↔ a < b := by
  rw [compareText, String.lt_iff]
  generalize a.toList = as
  generalize b.toList = bs
  induction as generalizing bs with
  | nil => cases bs <;> simp [compareChars]
  | cons c as ih =>
    cases bs with
    | nil => simp [compareChars]
    | cons d bs =>
      have hlt : c.toNat < d.toNat ↔ c < d := Iff.rfl
      rw [compareChars, Ordering.then_eq_lt, Nat.compare_eq_lt, Nat.compare_eq_eq, ih, Char.toNat_inj,
        List.cons_lt_cons_iff, hlt]

namespace Version

/-! ### Ranks -/

/-- An identifier of a prerelease by what it stands for. -/
inductive Identifier where
  | number (n : Nat)
  | word (s : String)
deriving DecidableEq, Repr

namespace Identifier

/-- Digits alone stand for a number, however many they are, and everything else is a word. -/
def ofText (id : String) : Identifier :=
  if Text.isDigits id.toList then .number (Text.value id.toList) else .word id

/-- Numbers come by their value and before words, words by their characters. -/
inductive Precedes : Identifier → Identifier → Prop
  | numbers {m n : Nat} (lt : m < n) : Precedes (.number m) (.number n)
  | numberWord (n : Nat) (s : String) : Precedes (.number n) (.word s)
  | words {s t : String} (lt : s < t) : Precedes (.word s) (.word t)

@[simp] theorem precedes_numbers_iff {m n : Nat} :
    Precedes (.number m) (.number n) ↔ m < n :=
  ⟨fun | .numbers lt => lt, .numbers⟩

@[simp] theorem precedes_words_iff {s t : String} : Precedes (.word s) (.word t) ↔ s < t :=
  ⟨fun | .words lt => lt, .words⟩

@[simp] theorem not_precedes_wordNumber (s : String) (n : Nat) :
    ¬ Precedes (.word s) (.number n) :=
  fun h => by cases h

instance : DecidableRel Precedes
  | .number _, .number _ => decidable_of_iff _ precedes_numbers_iff.symm
  | .number n, .word s => .isTrue (.numberWord n s)
  | .word s, .number n => .isFalse (not_precedes_wordNumber s n)
  | .word _, .word _ => decidable_of_iff _ precedes_words_iff.symm

theorem Precedes.asymm {x y : Identifier} (h : Precedes x y) : ¬ Precedes y x := by
  cases h with
  | numbers lt => exact mt precedes_numbers_iff.1 (Nat.lt_asymm lt)
  | numberWord n s => exact not_precedes_wordNumber s n
  | words lt => exact mt precedes_words_iff.1 (String.lt_asymm lt)

theorem Precedes.ne {x y : Identifier} (h : Precedes x y) : x ≠ y := by
  rintro rfl
  exact h.asymm h

end Identifier

/-- What counts of a version in the order of versions. -/
structure Rank where
  major : Nat
  minor : Nat
  patch : Nat
  prerelease : List Identifier
deriving DecidableEq, Repr

/-- The rank of a version; a component that is not written is zero. -/
def rank (v : Version) : Rank where
  major := v.major
  minor := v.minor
  patch := v.patch
  prerelease := v.prerelease.map Identifier.ofText

/-- Whether the numbers of two ranks are the same. -/
def Rank.SameCore (a b : Rank) : Prop :=
  a.major = b.major ∧ a.minor = b.minor ∧ a.patch = b.patch

instance (a b : Rank) : Decidable (a.SameCore b) :=
  inferInstanceAs (Decidable (_ ∧ _ ∧ _))

/-- The order of ranks: the numbers from left to right, then a prerelease before its release, then
prereleases by the first identifiers that differ, and a list before every longer list that starts
with it. -/
inductive Rank.Precedes (a b : Rank) : Prop
  | major (lt : a.major < b.major)
  | minor (major_eq : a.major = b.major) (lt : a.minor < b.minor)
  | patch (major_eq : a.major = b.major) (minor_eq : a.minor = b.minor) (lt : a.patch < b.patch)
  | release (core : a.SameCore b) (isPrerelease : a.prerelease ≠ []) (isRelease : b.prerelease = [])
  | prerelease (core : a.SameCore b) (isPrerelease : a.prerelease ≠ [])
      (lt : List.Lex Identifier.Precedes a.prerelease b.prerelease)

theorem Rank.precedes_iff {a b : Rank} : a.Precedes b ↔
    (a.major < b.major ∨ a.major = b.major ∧
        (a.minor < b.minor ∨ a.minor = b.minor ∧ a.patch < b.patch)) ∨
      a.SameCore b ∧ a.prerelease ≠ [] ∧
        (b.prerelease = [] ∨ List.Lex Identifier.Precedes a.prerelease b.prerelease) := by
  constructor
  · intro h
    cases h with
    | major lt => exact .inl (.inl lt)
    | minor major_eq lt => exact .inl (.inr ⟨major_eq, .inl lt⟩)
    | patch major_eq minor_eq lt => exact .inl (.inr ⟨major_eq, .inr ⟨minor_eq, lt⟩⟩)
    | release core isPrerelease isRelease => exact .inr ⟨core, isPrerelease, .inl isRelease⟩
    | prerelease core isPrerelease lt => exact .inr ⟨core, isPrerelease, .inr lt⟩
  · rintro ((hmajor | ⟨hmajor, hminor | ⟨hminor, hpatch⟩⟩) | ⟨hcore, hne, hrelease | hlex⟩)
    · exact .major hmajor
    · exact .minor hmajor hminor
    · exact .patch hmajor hminor hpatch
    · exact .release hcore hne hrelease
    · exact .prerelease hcore hne hlex

instance : DecidableRel Rank.Precedes := fun _ _ => decidable_of_iff _ Rank.precedes_iff.symm

/-! ### Identifiers -/

/-- Digits that denote a number beyond `maxComponent`. -/
def Overlong (id : String) : Prop :=
  Text.isDigits id.toList = true ∧ maxComponent < Text.value id.toList

/-- Digits that denote a number up to `maxComponent`. -/
def Short (id : String) : Prop :=
  Text.isDigits id.toList = true ∧ Text.value id.toList ≤ maxComponent

instance (id : String) : Decidable (Overlong id) :=
  inferInstanceAs (Decidable (_ ∧ _))

instance (id : String) : Decidable (Short id) :=
  inferInstanceAs (Decidable (_ ∧ _))

/-- Two different identifiers that are compared as texts although one of them stands for a number. -/
def Contested (a b : String) : Prop :=
  a ≠ b ∧ (Overlong a ∨ Overlong b) ∧ ¬ Short a ∧ ¬ Short b

instance (a b : String) : Decidable (Contested a b) :=
  inferInstanceAs (Decidable (_ ∧ _ ∧ _ ∧ _))

theorem Contested.symm {a b : String} : Contested a b → Contested b a
  | ⟨hne, hlong, ha, hb⟩ => ⟨hne.symm, hlong.symm, hb, ha⟩

theorem identifierValue?_of_short {id : String} (h : Short id) :
    identifierValue? id = some (Text.value id.toList) :=
  if_pos h

theorem identifierValue?_of_not_short {id : String} (h : ¬ Short id) : identifierValue? id = none :=
  if_neg h

theorem ofText_of_short {id : String} (h : Short id) :
    Identifier.ofText id = .number (Text.value id.toList) :=
  if_pos h.1

theorem ofText_of_overlong {id : String} (h : Overlong id) :
    Identifier.ofText id = .number (Text.value id.toList) :=
  if_pos h.1

/-- An identifier that is neither a short nor an overlong number is a word. -/
theorem ofText_of_word {id : String} (hshort : ¬ Short id) (hlong : ¬ Overlong id) :
    Identifier.ofText id = .word id := by
  refine if_neg fun hdigits => ?_
  rcases Nat.lt_or_ge maxComponent (Text.value id.toList) with hlt | hle
  · exact hlong ⟨hdigits, hlt⟩
  · exact hshort ⟨hdigits, hle⟩

variable {a b : String} {as bs : List String}

/-- A short number comes before everything else that is no short number. -/
theorem precedes_of_short (ha : Short a) (hb : ¬ Short b) :
    Identifier.Precedes (.ofText a) (.ofText b) := by
  rw [ofText_of_short ha]
  by_cases hlong : Overlong b
  · rw [ofText_of_overlong hlong]
    exact .numbers (Nat.lt_of_le_of_lt ha.2 hlong.2)
  · rw [ofText_of_word hb hlong]
    exact .numberWord _ _

/-- Identifiers are compared by what they stand for, unless they are contested. -/
theorem compareIdentifier_of_clear (h : ¬ Contested a b) :
    (compareIdentifier a b = .lt ↔ Identifier.Precedes (.ofText a) (.ofText b)) ∧
      (compareIdentifier a b = .eq ↔ Identifier.ofText a = Identifier.ofText b) := by
  by_cases hsame : a = b
  · subst hsame
    have hself : compareIdentifier a a = .eq := Std.ReflCmp.compare_self
    have hnot : ¬ Identifier.Precedes (.ofText a) (.ofText a) := fun hlt => hlt.ne rfl
    simp [hself, hnot]
  · unfold compareIdentifier
    by_cases ha : Short a <;> by_cases hb : Short b
    · rw [identifierValue?_of_short ha, identifierValue?_of_short hb, ofText_of_short ha,
        ofText_of_short hb]
      simp [Nat.compare_eq_lt]
    · have hlt := precedes_of_short ha hb
      rw [identifierValue?_of_short ha, identifierValue?_of_not_short hb]
      exact ⟨iff_of_true rfl hlt, iff_of_false (by simp) hlt.ne⟩
    · have hgt := precedes_of_short hb ha
      rw [identifierValue?_of_not_short ha, identifierValue?_of_short hb]
      exact ⟨iff_of_false (by simp) hgt.asymm, iff_of_false (by simp) hgt.ne.symm⟩
    · -- Neither is an overlong number, so both are words.
      have hlong : ¬ (Overlong a ∨ Overlong b) := fun hlong => h ⟨hsame, hlong, ha, hb⟩
      rw [not_or] at hlong
      rw [identifierValue?_of_not_short ha, identifierValue?_of_not_short hb,
        ofText_of_word ha hlong.1, ofText_of_word hb hlong.2]
      simp [Text.compareText_eq_lt_iff, Text.compareText_eq_iff]

/-- Where two lists of identifiers have stood for the same so far, the next two are not contested. -/
def Clear (as bs : List String) : Prop :=
  ∀ (place : Nat) (a b : String),
    (as.take place).map Identifier.ofText = (bs.take place).map Identifier.ofText →
      as[place]? = some a → bs[place]? = some b → ¬ Contested a b

theorem Clear.symm (h : Clear as bs) : Clear bs as :=
  fun place b a hsame hb ha hcontested => h place a b hsame.symm ha hb hcontested.symm

theorem Clear.head (h : Clear (a :: as) (b :: bs)) : ¬ Contested a b :=
  h 0 a b rfl rfl rfl

theorem Clear.tail (h : Clear (a :: as) (b :: bs))
    (hsame : Identifier.ofText a = Identifier.ofText b) : Clear as bs := by
  intro place a' b' hbefore ha' hb'
  refine h (place + 1) a' b' ?_ ha' hb'
  simp only [List.take_succ_cons, List.map_cons, hsame, hbefore]

theorem compareIdentifiers_of_clear (h : Clear as bs) :
    (compareIdentifiers as bs = .lt ↔
        List.Lex Identifier.Precedes (as.map .ofText) (bs.map .ofText)) ∧
      (compareIdentifiers as bs = .eq ↔
        as.map Identifier.ofText = bs.map Identifier.ofText) := by
  induction as generalizing bs with
  | nil => cases bs <;> simp [compareIdentifiers]
  | cons a as ih =>
    cases bs with
    | nil => simp [compareIdentifiers]
    | cons b bs =>
      obtain ⟨hlt, heq⟩ := compareIdentifier_of_clear h.head
      rw [compareIdentifiers, List.map_cons, List.map_cons, List.cons_lex_cons_iff,
        Ordering.then_eq_lt, Ordering.then_eq_eq, List.cons.injEq, hlt, heq]
      exact ⟨or_congr_right (and_congr_right fun hsame => (ih (h.tail hsame)).1),
        and_congr_right fun hsame => (ih (h.tail hsame)).2⟩

/-! ### Versions -/

variable {v w : Version}

theorem compareCore_eq_lt_iff : compareCore v w = .lt ↔
    v.major < w.major ∨ v.major = w.major ∧
      (v.minor < w.minor ∨ v.minor = w.minor ∧ v.patch < w.patch) := by
  simp only [compareCore, Ordering.then_eq_lt, Nat.compare_eq_lt, Nat.compare_eq_eq]

theorem compareCore_eq_eq_iff : compareCore v w = .eq ↔ v.rank.SameCore w.rank := by
  simp only [compareCore, Ordering.then_eq_eq, Nat.compare_eq_eq]
  rfl

theorem comparePrerelease_of_clear (h : Clear as bs) :
    (comparePrerelease as bs = .lt ↔ as.map Identifier.ofText ≠ [] ∧
        (bs.map Identifier.ofText = [] ∨
          List.Lex Identifier.Precedes (as.map .ofText) (bs.map .ofText))) ∧
      (comparePrerelease as bs = .eq ↔
        as.map Identifier.ofText = bs.map Identifier.ofText) := by
  obtain ⟨hlt, heq⟩ := compareIdentifiers_of_clear h
  cases as with
  | nil => cases bs <;> simp [comparePrerelease]
  | cons a as =>
    cases bs with
    | nil => simp [comparePrerelease]
    | cons b bs => simpa [comparePrerelease] using And.intro hlt heq

/-- Of two versions with the same numbers the prereleases are clear. -/
def Decided (v w : Version) : Prop :=
  v.rank.SameCore w.rank → Clear v.prerelease w.prerelease

theorem Decided.symm (h : v.Decided w) : w.Decided v := by
  rintro ⟨hmajor, hminor, hpatch⟩
  exact (h ⟨hmajor.symm, hminor.symm, hpatch.symm⟩).symm

theorem precedence_eq_lt_iff (h : v.Decided w) :
    v.precedence w = .lt ↔ v.rank.Precedes w.rank := by
  have hprerelease : compareCore v w = .eq ∧ comparePrerelease v.prerelease w.prerelease = .lt ↔
      v.rank.SameCore w.rank ∧ v.rank.prerelease ≠ [] ∧ (w.rank.prerelease = [] ∨
        List.Lex Identifier.Precedes v.rank.prerelease w.rank.prerelease) := by
    rw [compareCore_eq_eq_iff]
    exact and_congr_right fun hcore => (comparePrerelease_of_clear (h hcore)).1
  rw [precedence, Ordering.then_eq_lt, compareCore_eq_lt_iff, hprerelease, Rank.precedes_iff]
  rfl

theorem precedence_eq_eq_iff (h : v.Decided w) : v.precedence w = .eq ↔ v.rank = w.rank := by
  have hprerelease : compareCore v w = .eq ∧ comparePrerelease v.prerelease w.prerelease = .eq ↔
      v.rank.SameCore w.rank ∧ v.rank.prerelease = w.rank.prerelease := by
    rw [compareCore_eq_eq_iff]
    exact and_congr_right fun hcore => (comparePrerelease_of_clear (h hcore)).2
  rw [precedence, Ordering.then_eq_eq, hprerelease]
  simp only [rank, Rank.SameCore, Rank.mk.injEq, and_assoc]

end Version

/-! ### Texts -/

theorem compareVersions_of_spells {s t : String} {v w : Version} (hs : Version.Spells s.toList v)
    (ht : Version.Spells t.toList w) : compareVersions s t = v.precedence w := by
  rw [compareVersions, Version.parse?_of_spells hs, Version.parse?_of_spells ht]

/-- Two texts that spell versions are compared by the ranks of these: the text of the version that
precedes the other comes first, and texts are level when the ranks are the same, however they are
written. -/
theorem compareVersions_rank {s t : String} {v w : Version} (hs : Version.Spells s.toList v)
    (ht : Version.Spells t.toList w) (decided : v.Decided w) :
    (compareVersions s t = .lt ↔ v.rank.Precedes w.rank) ∧
      (compareVersions s t = .gt ↔ w.rank.Precedes v.rank) ∧
      (compareVersions s t = .eq ↔ v.rank = w.rank) := by
  have hgt : compareVersions s t = .gt ↔ w.rank.Precedes v.rank := by
    rw [Std.OrientedCmp.gt_iff_lt, compareVersions_of_spells ht hs]
    exact Version.precedence_eq_lt_iff decided.symm
  rw [compareVersions_of_spells hs ht] at hgt ⊢
  exact ⟨Version.precedence_eq_lt_iff decided, hgt, Version.precedence_eq_eq_iff decided⟩

/-- A release candidate in two spellings: a zero before a number says nothing, and a number beyond
`maxComponent` comes after the short one at its place. -/
theorem compareVersions_rank_candidate :
    let v : Version := ⟨[1], ["rc", "02", "5"]⟩
    let w : Version := ⟨[1, 0, 0], ["rc", "2", "18446744073709551616"]⟩
    Version.Spells " v1-rc.02.5+build.7\n".toList v ∧
      Version.Spells "1.0.0-rc.2.18446744073709551616".toList w ∧ v.Decided w ∧
      v.rank.Precedes w.rank := by
  intro v w
  have hv : Version.Spells " v1-rc.02.5+build.7\n".toList v := by
    have hshape : " v1-rc.02.5+build.7\n".toList =
        [' '] ++ (['v'] ++ v.chars ++ Version.buildChars ["build", "7"] ++ ['\n']) := by decide
    rw [hshape]
    exact .intro (List.forall_mem_singleton.2 rfl) (.inr rfl) (by decide) (by decide)
      (List.forall_mem_singleton.2 rfl)
  have hw : Version.Spells "1.0.0-rc.2.18446744073709551616".toList w := by
    have hshape : "1.0.0-rc.2.18446744073709551616".toList = w.chars := by decide
    rw [hshape]
    exact Version.WellFormed.spells_chars (by decide)
  have decided : v.Decided w := by
    rintro - place a b - ha hb
    match place with
    | 0 =>
      cases ha
      cases hb
      decide
    | 1 =>
      cases ha
      cases hb
      decide
    | 2 =>
      cases ha
      cases hb
      decide
    | place + 3 => cases ha
  exact ⟨hv, hw, decided, (compareVersions_rank hv hw decided).1.1 (by decide)⟩

/-- Two numbers beyond `maxComponent` are compared as texts, so the smaller one may come after the
larger one. -/
theorem not_forall_compareVersions_rank :
    ¬ ∀ (s t : String) (v w : Version), Version.Spells s.toList v → Version.Spells t.toList w →
      (compareVersions s t = .lt ↔ v.rank.Precedes w.rank) ∧
        (compareVersions s t = .gt ↔ w.rank.Precedes v.rank) ∧
        (compareVersions s t = .eq ↔ v.rank = w.rank) := by
  intro h
  have hv : Version.WellFormed ⟨[1], ["18446744073709551616"]⟩ := by decide
  have hw : Version.WellFormed ⟨[1], ["100000000000000000000"]⟩ := by decide
  obtain ⟨-, hgt, -⟩ := h "1-18446744073709551616" "1-100000000000000000000" _ _
    hv.spells_chars hw.spells_chars
  have hafter : compareVersions "1-18446744073709551616" "1-100000000000000000000" = .gt := by
    decide
  exact absurd (hgt.1 hafter) (by decide)

end Lineage
