/-
The text of a version is the normal form of the texts that denote it.

Numerals without superfluous zeros are the digits of their values, so a text that denotes a version
is the text of this version with what is ignored around it: blank characters, a `v`, a build
(`spells_iff_parse?`). Comparisons and increments see the version alone, so all of its texts are
`Interchangeable`. `render_normalizes` says so of the text that the version itself has, which reads
as the version and so is left as it is when it is read and rendered again.
-/

import Lineage.Proofs.Version.Spelling
import Lineage.Proofs.Version.Successor

namespace Lineage

namespace Version

variable {v : Version} {s : String}

/-! ### What a text holds besides its version -/

theorem IsNumeral.digits_value {cs : List Char} (h : IsNumeral cs) :
    Text.digits (Text.value cs) = cs :=
  Text.digits_value (isDigits_iff.2 ⟨h.ne_nil, h.digits⟩) h.leading

namespace Spelling

variable {d : Spelling} {part : Option (List (List Char))}

/-- The identifiers of a part, none if there is no such part. -/
def identifiers (part : Option (List (List Char))) : List String :=
  (part.getD []).map String.ofList

theorem isIdentifier_of_mem_identifiers (h : ∀ ids ∈ part, IsIdentifierList ids) :
    ∀ id ∈ identifiers part, isIdentifier id.toList = true := by
  intro id hid
  obtain ⟨cs, hcs, rfl⟩ := List.mem_map.1 hid
  cases part with
  | none => cases hcs
  | some ids =>
    rw [String.toList_ofList]
    exact (h ids rfl).isIdentifier cs hcs

/-- Characters that a mark introduces, as those of a prerelease and of a build, make up a part. -/
theorem eq_markedChars {mark : Char} {chars : List String → List Char} (hnil : chars [] = [])
    (hcons : ∀ id ids, chars (id :: ids) = mark :: Text.join '.' ((id :: ids).map String.toList))
    (h : ∀ ids ∈ part, IsIdentifierList ids) :
    chars (identifiers part) = markedChars mark part := by
  cases part with
  | none => exact hnil
  | some ids =>
    cases ids with
    | nil => exact absurd rfl (h [] rfl).ne_nil
    | cons id ids =>
      rw [identifiers, Option.getD_some, List.map_cons, hcons, markedChars]
      simp [Function.comp_def]

/-- The characters of legal parts are those of their version with the build behind them. -/
theorem Legal.chars_eq (h : d.Legal) :
    d.chars = d.version.chars ++ buildChars (identifiers d.build) := by
  have hcore : d.version.components.map Text.digits = d.numerals := by
    rw [version, List.map_map]
    calc d.numerals.map (Text.digits ∘ Text.value)
        = d.numerals.map id := List.map_congr_left fun cs hcs => (h.isNumeral cs hcs).digits_value
      _ = d.numerals := List.map_id _
  have hprerelease : suffixChars d.version.prerelease = markedChars '-' d.prerelease :=
    eq_markedChars rfl (fun _ _ => rfl) h.prerelease
  have hbuild : buildChars (identifiers d.build) = markedChars '+' d.build :=
    eq_markedChars rfl (fun _ _ => rfl) h.build
  rw [chars, Version.chars_eq, hcore, hprerelease, hbuild]

end Spelling

/-- A text denotes the version that it spells, and no other. -/
theorem spells_iff_parse? : Spells s.toList v ↔ parse? s = some v := by
  constructor
  · exact parse?_of_spells
  · intro h
    have wf := parse?_wellFormed h
    obtain ⟨legal, rfl⟩ := ofChars?_eq_some_iff.1 h
    obtain ⟨before, letter, after, hs, hbefore, hletter, hafter⟩ := exists_append_body s.toList
    rw [← Spelling.chars_ofChars (body s.toList), legal.chars_eq, ← List.append_assoc letter] at hs
    have hspells := Spells.intro hbefore hletter wf
      (Spelling.isIdentifier_of_mem_identifiers legal.build) hafter
    rwa [← hs] at hspells

/-! ### The text of a version -/

/-- The text of numbers, so many of which are written, and of a prerelease behind a hyphen. -/
def textOf (numbers : List Nat) (count : Nat) (prerelease : Option String) : String :=
  coreText (numbers.take count) ++ prerelease.elim "" ("-" ++ ·)

/-- The text of a version shows as many of its three numbers as the version is written with, and
its prerelease; the numbers that are left out are zero. -/
theorem WellFormed.render_eq (wf : v.WellFormed) :
    v.render = textOf [v.major, v.minor, v.patch] v.components.length v.prereleaseText? := by
  have hlength : v.components.length ≤ 3 := wf.length_components_le
  have hnumbers : [v.major, v.minor, v.patch].take v.components.length = v.components := by
    rw [Spelling.numbers_eq_take, List.take_take, Nat.min_eq_left hlength, List.take_left]
  have hprerelease : String.ofList (suffixChars v.prerelease) =
      v.prereleaseText?.elim "" ("-" ++ ·) := by
    cases hids : v.prerelease with
    | nil => simp [prereleaseText?, isRelease, suffixChars, hids]
    | cons id ids => simp [prereleaseText?, isRelease, suffixChars, hids]
  rw [textOf, hnumbers, ← hprerelease, coreText, ← String.ofList_append]
  rfl

end Version

/-! ### Texts that stand for each other -/

/-- Texts that may stand for each other as versions. Compared with any text, on either side, both
get the same verdict; an increment gives the same release for both or fails for both, and a failure
names the text that it was asked for. -/
structure Interchangeable (s t : String) : Prop where
  compare_left : ∀ other, compareVersions s other = compareVersions t other
  compare_right : ∀ other, compareVersions other s = compareVersions other t
  reaches_iff : ∀ field next, nextRelease s field = .ok next ↔ nextRelease t field = .ok next
  fails_iff : ∀ field,
    nextRelease s field = .error ⟨s, field⟩ ↔ nextRelease t field = .error ⟨t, field⟩

section Interchangeable

variable {s t : String} {v : Version}

/-- All texts of one version are interchangeable. -/
theorem interchangeable_of_parse? (hs : Version.parse? s = some v)
    (ht : Version.parse? t = some v) : Interchangeable s t := by
  have hlevel : compareVersions s t = .eq := by
    have hself : v.precedence v = .eq := Std.ReflCmp.compare_self
    rw [compareVersions, hs, ht]
    exact hself
  refine ⟨fun other => ?_, fun other => ?_, fun field next => ?_, fun field => ?_⟩
  · exact Std.TransCmp.congr_left hlevel
  · exact Std.TransCmp.congr_right hlevel
  · rw [nextRelease_of_parse? hs, nextRelease_of_parse? ht]
    split <;> simp
  · rw [nextRelease_of_parse? hs, nextRelease_of_parse? ht]
    split <;> simp

/-- The text of a version is the normal form of each text that denotes it. Such a text is that of
the version, with nothing but blank characters, a `v` and a build around it. The text of the version
shows its written numbers and its prerelease; it reads as the version, so reading and rendering it
once more changes nothing; and it may stand for the given text in every comparison and every
increment. -/
theorem render_normalizes (hv : Version.parse? s = some v) :
    Version.Spells s.toList v ∧
      v.render = Version.textOf [v.major, v.minor, v.patch] v.components.length v.prereleaseText? ∧
      Version.parse? v.render = some v ∧
      (Version.parse? v.render).map Version.render = some v.render ∧
      Interchangeable s v.render := by
  have wf := Version.parse?_wellFormed hv
  have hread : Version.parse? v.render = some v := wf.parse?_render
  have hfixed : (Version.parse? v.render).map Version.render = some v.render := by
    rw [hread, Option.map_some]
  exact ⟨Version.spells_iff_parse?.2 hv, wf.render_eq, hread, hfixed,
    interchangeable_of_parse? hv hread⟩

/-- A prerelease of the largest major version, with all that may be ignored around it: it has the
next release that its bare text has. -/
theorem render_normalizes_ceiling :
    let v : Version := ⟨[18446744073709551615, 0], ["0", "a--b"]⟩
    Version.parse? "\tv18446744073709551615.0-0.a--b+007 " = some v ∧
      v.render = "18446744073709551615.0-0.a--b" ∧
      Interchangeable "\tv18446744073709551615.0-0.a--b+007 " v.render ∧
      nextRelease v.render .major = .ok "18446744073709551615.0" := by
  intro v
  have hv : Version.parse? "\tv18446744073709551615.0-0.a--b+007 " = some v := by decide
  obtain ⟨-, -, -, -, hstands⟩ := render_normalizes hv
  exact ⟨hv, rfl, hstands, (hstands.reaches_iff _ _).1 rfl⟩

end Interchangeable

end Lineage
