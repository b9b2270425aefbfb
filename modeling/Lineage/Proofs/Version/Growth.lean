/-
The next release comes after the version that it is computed from.

An increment raises a component, or it releases a prerelease, and a prerelease comes before its
release. So the version that an auto-increment mode takes is one that no item of the lineage has.
-/

import Lineage.Proofs.Version.Order
import Lineage.Proofs.Version.Grammar
import Lineage.Version.Increment

namespace Lineage

namespace Version

variable {v w : Version} {field : ReleaseField}

theorem WellFormed.length_components_pos (wf : v.WellFormed) : 0 < v.components.length :=
  List.length_pos_iff.2 wf.components_ne_nil

theorem WellFormed.component_le (wf : v.WellFormed) (place : Nat) :
    v.component place ≤ maxComponent := by
  rw [component, List.getD_eq_getElem?_getD]
  cases h : v.components[place]? with
  | none => exact Nat.zero_le _
  | some n => exact wf.components_le n (List.mem_of_getElem? h)

/-! ### Components that are not written -/

/-- Dropping zeros at the end of three components changes none of them. -/
theorem parts_take {a b c size : Nat} (h0 : 0 < size) (h1 : size ≤ 1 → b = 0)
    (h2 : size ≤ 2 → c = 0) :
    (⟨[a, b, c].take size, []⟩ : Version).major = a ∧
      (⟨[a, b, c].take size, []⟩ : Version).minor = b ∧
      (⟨[a, b, c].take size, []⟩ : Version).patch = c := by
  match size with
  | 0 => omega
  | 1 => simp [major, minor, patch, component, h1, h2]
  | 2 => simp [major, minor, patch, component, h2]
  | n + 3 => simp [major, minor, patch, component]

theorem WellFormed.nextLength_pos (wf : v.WellFormed) : 0 < v.nextLength field := by
  have hpos := wf.length_components_pos
  cases field with
  | major => exact hpos
  | minor => exact Nat.lt_of_lt_of_le hpos (Nat.le_max_left _ _)

theorem one_lt_nextLength_minor : 1 < v.nextLength .minor :=
  Nat.le_max_right _ 2

/-! ### The next release -/

/-- What an increment gives, by its three components. -/
theorem nextComponents?_cases {cs : List Nat} (h : v.nextComponents? field = some cs) :
    (v.isRelease = false ∧ cs = [v.major, v.minor, v.patch] ∧
        (field = .major → v.minor = 0) ∧ v.patch = 0) ∨
      (field = .major ∧ v.major < maxComponent ∧ cs = [v.major + 1, 0, 0]) ∨
      (field = .minor ∧ v.minor < maxComponent ∧ cs = [v.major, v.minor + 1, 0]) := by
  unfold nextComponents? at h
  split at h
  · next hself =>
    cases h
    refine .inl ⟨?_, rfl, ?_, ?_⟩ <;> cases field <;> simp_all [releasesItself]
  · cases field with
    | major =>
      dsimp only at h
      split at h
      · next hlt =>
        cases h
        exact .inr (.inl ⟨rfl, hlt, rfl⟩)
      · cases h
    | minor =>
      dsimp only at h
      split at h
      · next hlt =>
        cases h
        exact .inr (.inr ⟨rfl, hlt, rfl⟩)
      · cases h

/-- The next release comes after the version. -/
theorem WellFormed.precedence_next? (wf : v.WellFormed) (h : v.next? field = some w) :
    v.precedence w = .lt := by
  have hpos : 0 < v.nextLength field := wf.nextLength_pos
  obtain ⟨cs, hcs, rfl⟩ := Option.map_eq_some_iff.1 h
  rw [precedence, compareCore]
  rcases nextComponents?_cases hcs with ⟨hpre, rfl, hminor, hpatch⟩ | ⟨rfl, -, rfl⟩ | ⟨rfl, -, rfl⟩
  · -- The components stay, and the prerelease gives way to its release.
    have hwide : v.nextLength field ≤ 1 → v.minor = 0 := by
      intro hle
      cases field with
      | major => exact hminor rfl
      | minor => exact absurd one_lt_nextLength_minor (Nat.not_lt.2 hle)
    obtain ⟨hma, hmi, hpa⟩ := parts_take (a := v.major) hpos hwide (fun _ => hpatch)
    rw [hma, hmi, hpa]
    cases hids : v.prerelease with
    | nil => simp [isRelease, hids] at hpre
    | cons id ids => simp [comparePrerelease]
  · obtain ⟨hma, -, -⟩ := parts_take (a := v.major + 1) hpos (fun _ => rfl) (fun _ => rfl)
    have hlt : compare v.major (v.major + 1) = .lt := Nat.compare_eq_lt.2 (Nat.lt_succ_self _)
    rw [hma, hlt]
    rfl
  · have hwide : v.nextLength .minor ≤ 1 → v.minor + 1 = 0 := fun hle =>
      absurd one_lt_nextLength_minor (Nat.not_lt.2 hle)
    obtain ⟨hma, hmi, -⟩ := parts_take (a := v.major) hpos hwide (fun _ => rfl)
    have hlt : compare v.minor (v.minor + 1) = .lt := Nat.compare_eq_lt.2 (Nat.lt_succ_self _)
    rw [hma, hmi, hlt]
    simp

theorem WellFormed.wellFormed_next? (wf : v.WellFormed) (h : v.next? field = some w) :
    w.WellFormed := by
  obtain ⟨cs, hcs, rfl⟩ := Option.map_eq_some_iff.1 h
  have hpos : 0 < v.nextLength field := wf.nextLength_pos
  have hlen : cs.length = 3 := by
    rcases nextComponents?_cases hcs with ⟨-, rfl, -⟩ | ⟨-, -, rfl⟩ | ⟨-, -, rfl⟩ <;> rfl
  have hle : ∀ n ∈ cs, n ≤ maxComponent := by
    have hma := wf.component_le 0
    have hmi := wf.component_le 1
    have hpa := wf.component_le 2
    rcases nextComponents?_cases hcs with ⟨-, rfl, -⟩ | ⟨-, hlt, rfl⟩ | ⟨-, hlt, rfl⟩ <;>
      simp [major, minor, patch] at * <;> omega
  refine ⟨?_, ?_, fun n hn => hle n (List.mem_of_mem_take hn), by simp⟩
  · rw [← List.length_pos_iff, List.length_take, hlen]
    exact Nat.lt_min.2 ⟨hpos, by decide⟩
  · rw [List.length_take, hlen]
    exact Nat.min_le_right _ _

end Version

/-! ### Version texts -/

/-- What an increment gives is the text of a version that comes after the given one. -/
theorem nextRelease_eq_ok {version next : String} {field : ReleaseField}
    (h : nextRelease version field = .ok next) :
    ∃ v w, Version.parse? version = some v ∧ v.next? field = some w ∧ next = w.render ∧
      Version.parse? next = some w := by
  unfold nextRelease at h
  split at h
  · next w hw =>
    cases h
    obtain ⟨v, hv, hnext⟩ := Option.bind_eq_some_iff.1 hw
    have wf := (Version.parse?_wellFormed hv).wellFormed_next? hnext
    exact ⟨v, w, hv, hnext, rfl, wf.parse?_render⟩
  · cases h

/-- An increment gives a later version. -/
theorem compareVersions_nextRelease {version next : String} {field : ReleaseField}
    (h : nextRelease version field = .ok next) : compareVersions version next = .lt := by
  obtain ⟨v, w, hv, hnext, -, hw⟩ := nextRelease_eq_ok h
  rw [compareVersions, hv, hw]
  exact (Version.parse?_wellFormed hv).precedence_next? hnext

end Lineage
