/-
The least release that an increment can reach.

The releases of a field are those that keep the components before it and have zeros after it.
`Increments` says what an increment has to answer by these releases alone: the text of the least one
that comes after the version, or a failure when the version cannot be read or none of them is left.
`nextRelease_eq_iff` says that `nextRelease` gives this answer and no other.
-/

import Mathlib.Order.Bounds.Basic
import Lineage.Proofs.Version.Growth
import Lineage.Proofs.Version.Precedence

namespace Lineage

/-! ### What an increment has to answer -/

namespace ReleaseField

/-- The place of the component that an increment raises. -/
def place : ReleaseField → Nat
  | .major => 0
  | .minor => 1

/-- The components of a release of the field: a major version, or a minor version behind the major
one that is there, and zeros after it. -/
def form (field : ReleaseField) (v : Version) (x : Nat) : List Nat :=
  match field with
  | .major => [x, 0, 0]
  | .minor => [v.major, x, 0]

/-- How many components the text of the next release has: as many as the version, but at least two
when the minor version is raised. -/
def size (field : ReleaseField) (v : Version) : Nat :=
  match field with
  | .major => v.components.length
  | .minor => max v.components.length 2

end ReleaseField

/-- The text of components: their numerals with dots between them, and nothing else. -/
def Version.coreText (components : List Nat) : String :=
  String.ofList (Text.join '.' (components.map Text.digits))

/-- The numbers for which the release of the field comes after a version. -/
def Version.later (v : Version) (field : ReleaseField) : Set Nat :=
  {x | x ≤ maxComponent ∧ v.rank.Precedes (⟨field.form v x, []⟩ : Version).rank}

/-- A text that writes a release in so many components, and reads as this release. -/
structure Version.Writes (text : String) (release : List Nat) (size : Nat) : Prop where
  text_eq : text = coreText (release.take size)
  parse?_eq : parse? text = some ⟨release.take size, []⟩
  rank_eq : (⟨release.take size, []⟩ : Version).rank = (⟨release, []⟩ : Version).rank

/-- What an increment of a version text has to answer. -/
inductive Increments (version : String) (field : ReleaseField) :
    Except IncrementError String → Prop
  /-- The text writes the least release of the field that comes after the version. -/
  | reached {v : Version} {x : Nat} {text : String} (parse?_eq : Version.parse? version = some v)
      (least : IsLeast (v.later field) x)
      (writes : Version.Writes text (field.form v x) (field.size v)) :
      Increments version field (.ok text)
  | exhausted {v : Version} (parse?_eq : Version.parse? version = some v)
      (none_later : v.later field = ∅) :
      Increments version field (.error ⟨version, field⟩)
  | unreadable (parse?_eq : Version.parse? version = none) :
      Increments version field (.error ⟨version, field⟩)

namespace Version

variable {v : Version} {field : ReleaseField} {x : Nat}

/-! ### The release that comes next -/

/-- The number at which the releases of the field begin to come after a version. -/
def reach (v : Version) (field : ReleaseField) : Nat :=
  if v.releasesItself field then v.component field.place else v.component field.place + 1

theorem releasesItself_major :
    v.releasesItself .major = true ↔ v.prerelease ≠ [] ∧ v.minor = 0 ∧ v.patch = 0 := by
  simp [releasesItself, isRelease, and_assoc]

theorem releasesItself_minor :
    v.releasesItself .minor = true ↔ v.prerelease ≠ [] ∧ v.patch = 0 := by
  simp [releasesItself, isRelease]

theorem precedes_release_iff {x y z : Nat} : v.rank.Precedes (⟨[x, y, z], []⟩ : Version).rank ↔
    (v.major < x ∨ v.major = x ∧ (v.minor < y ∨ v.minor = y ∧ v.patch < z)) ∨
      (v.major = x ∧ v.minor = y ∧ v.patch = z) ∧ v.prerelease ≠ [] := by
  have hrelease : (⟨[x, y, z], []⟩ : Version).rank = ⟨x, y, z, []⟩ := rfl
  rw [hrelease, Rank.precedes_iff]
  simp [rank, Rank.SameCore]

/-- A release of the field comes after a version from `reach` on. -/
theorem precedes_form_iff :
    v.rank.Precedes (⟨field.form v x, []⟩ : Version).rank ↔ v.reach field ≤ x := by
  cases field with
  | major =>
    have hself := releasesItself_major (v := v)
    have hreach : v.reach .major = if v.releasesItself .major then v.major else v.major + 1 := rfl
    rw [ReleaseField.form, precedes_release_iff, hreach]
    grind
  | minor =>
    have hself := releasesItself_minor (v := v)
    have hreach : v.reach .minor = if v.releasesItself .minor then v.minor else v.minor + 1 := rfl
    rw [ReleaseField.form, precedes_release_iff, hreach]
    grind

/-- The numbers whose releases come later are those from `reach` to `maxComponent`. -/
theorem later_eq_Icc : v.later field = Set.Icc (v.reach field) maxComponent := by
  ext x
  rw [later, Set.mem_ofPred_eq, Set.mem_Icc, and_comm, precedes_form_iff]

/-- The next release is the one at `reach`, if its component is not too large. -/
theorem WellFormed.nextComponents?_eq (wf : v.WellFormed) :
    v.nextComponents? field =
      if v.reach field ≤ maxComponent then some (field.form v (v.reach field)) else none := by
  have hle := wf.component_le field.place
  unfold nextComponents? reach
  by_cases hself : v.releasesItself field = true
  · rw [if_pos hself, if_pos hself, if_pos hle]
    cases field with
    | major =>
      obtain ⟨-, hminor, hpatch⟩ := releasesItself_major.1 hself
      rw [hminor, hpatch]
      rfl
    | minor =>
      obtain ⟨-, hpatch⟩ := releasesItself_minor.1 hself
      rw [hpatch]
      rfl
  · rw [if_neg hself, if_neg hself]
    cases field <;> rfl

theorem nextLength_eq : v.nextLength field = field.size v := by
  cases field <;> rfl

theorem WellFormed.next?_eq (wf : v.WellFormed) :
    v.next? field =
      if v.reach field ≤ maxComponent then
        some ⟨(field.form v (v.reach field)).take (field.size v), []⟩
      else none := by
  rw [next?, wf.nextComponents?_eq, nextLength_eq]
  split <;> rfl

/-! ### The text of the next release -/

theorem coreText_eq (ns : List Nat) : coreText ns = (⟨ns, []⟩ : Version).render := by
  rw [coreText, render, chars, List.append_nil]

/-- What a text in fewer components leaves out is zero. -/
theorem WellFormed.rank_take_form (wf : v.WellFormed) :
    (⟨(field.form v x).take (field.size v), []⟩ : Version).rank =
      (⟨field.form v x, []⟩ : Version).rank := by
  have hpos : 0 < field.size v := by
    rw [← nextLength_eq]
    exact wf.nextLength_pos
  cases field with
  | major =>
    obtain ⟨hmajor, hminor, hpatch⟩ := parts_take (a := x) hpos (fun _ => rfl) (fun _ => rfl)
    rw [ReleaseField.form, rank, hmajor, hminor, hpatch]
    rfl
  | minor =>
    have hwide : ReleaseField.minor.size v ≤ 1 → x = 0 := fun hle =>
      absurd one_lt_nextLength_minor (Nat.not_lt.2 hle)
    obtain ⟨hmajor, hminor, hpatch⟩ := parts_take (a := v.major) hpos hwide (fun _ => rfl)
    rw [ReleaseField.form, rank, hmajor, hminor, hpatch]
    rfl

/-- The text of the next release writes it. -/
theorem WellFormed.writes_next (wf : v.WellFormed) (h : v.reach field ≤ maxComponent) :
    Writes (coreText ((field.form v (v.reach field)).take (field.size v)))
      (field.form v (v.reach field)) (field.size v) where
  text_eq := rfl
  parse?_eq := by
    have hnext : v.next? field =
        some ⟨(field.form v (v.reach field)).take (field.size v), []⟩ := by
      rw [wf.next?_eq, if_pos h]
    rw [coreText_eq]
    exact (wf.wellFormed_next? hnext).parse?_render
  rank_eq := wf.rank_take_form

end Version

/-! ### Increments -/

section Increments

variable {version : String} {field : ReleaseField} {v : Version}
  {answer : Except IncrementError String}

theorem nextRelease_of_parse? (hv : Version.parse? version = some v) :
    nextRelease version field =
      if v.reach field ≤ Version.maxComponent then
        .ok (Version.coreText ((field.form v (v.reach field)).take (field.size v)))
      else .error ⟨version, field⟩ := by
  rw [nextRelease, hv, Option.bind_some, (Version.parse?_wellFormed hv).next?_eq]
  by_cases hle : v.reach field ≤ Version.maxComponent
  · rw [if_pos hle, if_pos hle, Version.coreText_eq]
  · rw [if_neg hle, if_neg hle]

theorem increments_nextRelease (version : String) (field : ReleaseField) :
    Increments version field (nextRelease version field) := by
  cases hv : Version.parse? version with
  | none =>
    rw [nextRelease, hv]
    exact .unreadable hv
  | some v =>
    rw [nextRelease_of_parse? hv]
    by_cases hle : v.reach field ≤ Version.maxComponent
    · rw [if_pos hle]
      refine .reached hv ?_ ((Version.parse?_wellFormed hv).writes_next hle)
      rw [Version.later_eq_Icc]
      exact isLeast_Icc hle
    · rw [if_neg hle]
      refine .exhausted hv ?_
      rw [Version.later_eq_Icc]
      exact Set.Icc_eq_empty hle

theorem Increments.nextRelease_eq (h : Increments version field answer) :
    nextRelease version field = answer := by
  cases h with
  | reached hv least writes =>
    rw [Version.later_eq_Icc] at least
    have hle := Set.nonempty_Icc.1 ⟨_, least.1⟩
    cases least.unique (isLeast_Icc hle)
    rw [nextRelease_of_parse? hv, if_pos hle, writes.text_eq]
  | exhausted hv none_later =>
    rw [Version.later_eq_Icc, Set.Icc_eq_empty_iff] at none_later
    rw [nextRelease_of_parse? hv, if_neg none_later]
  | unreadable hv =>
    rw [nextRelease, hv]
    rfl

/-- An increment answers with the text of the least release of the field that comes after the version,
in as many components as the version has or the field needs, and the text reads as this release. It
fails, with the version text as it stands and the field, if the text is no version or no such release
has a component up to `maxComponent`; and in no other case. -/
theorem nextRelease_eq_iff :
    nextRelease version field = answer ↔ Increments version field answer := by
  constructor
  · rintro rfl
    exact increments_nextRelease version field
  · exact Increments.nextRelease_eq

/-- A prerelease of the largest major version is released, in the three components that it has. -/
example : nextRelease "v18446744073709551615.0.0-rc.1+b" .major =
    .ok "18446744073709551615.0.0" := by
  rfl

end Increments

end Lineage
