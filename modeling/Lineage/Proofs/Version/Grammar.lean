/-
What version texts look like.

`Spells` gives the shape of a version text: a version in its own characters, a build after it, a `v`
before it, and blank characters around all of that. `parse?_of_spells` says that such a text denotes
the version, whatever stands around it.
-/

import Lineage.Proofs.Text.Blank
import Lineage.Proofs.Version.Rendering

namespace Lineage

namespace Text

variable {before middle after : List Char}

/-- Trimming takes off the blank characters around others and leaves those. -/
theorem trimChars_append (hbefore : ∀ c ∈ before, isBlank c = true)
    (hmiddle : ∀ c ∈ middle, isBlank c = false) (hafter : ∀ c ∈ after, isBlank c = true) :
    trimChars (before ++ (middle ++ after)) = middle := by
  apply trimChars_eq_iff.2
  refine ⟨⟨before, after, rfl, hbefore, hafter⟩, ?_, ?_⟩
  · exact fun c hc => hmiddle c (List.mem_of_mem_head? hc)
  · exact fun c hc => hmiddle c (List.mem_of_mem_getLast? hc)

end Text

namespace Version

/-- The characters of a build: a plus sign and its identifiers with dots between them, or nothing. -/
def buildChars : List String → List Char
  | [] => []
  | ids => '+' :: Text.join '.' (ids.map String.toList)

/-- A text spells a version: blank characters, perhaps a `v`, the version, perhaps a build, and blank
characters. -/
inductive Spells : List Char → Version → Prop
  | intro {before letter after : List Char} {v : Version} {build : List String}
      (blank_before : ∀ c ∈ before, Text.isBlank c = true)
      (letter_eq : letter = [] ∨ letter = ['v'])
      (wellFormed : v.WellFormed)
      (isIdentifier_build : ∀ id ∈ build, isIdentifier id.toList = true)
      (blank_after : ∀ c ∈ after, Text.isBlank c = true) :
      Spells (before ++ (letter ++ v.chars ++ buildChars build ++ after)) v

variable {v : Version} {build : List String}

theorem isBlank_of_mem_buildChars (h : ∀ id ∈ build, isIdentifier id.toList = true) {c : Char}
    (hc : c ∈ buildChars build) : Text.isBlank c = false := by
  unfold buildChars at hc
  split at hc
  · cases hc
  · rcases List.mem_cons.1 hc with rfl | hjoin
    · rfl
    · exact isBlank_eq_false (isVersionChar_of_mem_join h hjoin)

/-- The text of a version starts with a digit. -/
theorem WellFormed.exists_digit_chars (wf : v.WellFormed) :
    ∃ c cs, v.chars = c :: cs ∧ c.isDigit = true := by
  cases hcomponents : v.components with
  | nil => exact absurd hcomponents wf.components_ne_nil
  | cons n ns =>
    cases hdigits : Text.digits n with
    | nil => exact absurd hdigits (Text.digits_ne_nil n)
    | cons c cs =>
      have hdigit : c.isDigit = true := Text.isDigit_of_mem_digits (hdigits ▸ List.mem_cons_self)
      rw [chars_eq, hcomponents, List.map_cons, hdigits]
      cases ns with
      | nil => exact ⟨c, _, rfl, hdigit⟩
      | cons m ms => exact ⟨c, _, rfl, hdigit⟩

/-- What is left of a text when the blank characters around it and a `v` that it may start with are
taken off. -/
theorem body_append {before letter middle after : List Char}
    (hbefore : ∀ c ∈ before, Text.isBlank c = true) (hletter : letter = [] ∨ letter = ['v'])
    (hmiddle : ∀ c ∈ middle, Text.isBlank c = false)
    (hdigit : ∃ c cs, middle = c :: cs ∧ c.isDigit = true)
    (hafter : ∀ c ∈ after, Text.isBlank c = true) :
    body (before ++ (letter ++ middle ++ after)) = middle := by
  have hplain : ∀ c ∈ letter ++ middle, Text.isBlank c = false := by
    intro c hc
    rcases List.mem_append.1 hc with hc | hc
    · rcases hletter with rfl | rfl
      · cases hc
      · rw [List.mem_singleton.1 hc]
        rfl
    · exact hmiddle c hc
  rw [body, Text.trimChars_append hbefore hplain hafter]
  rcases hletter with rfl | rfl
  · -- The first character is a digit, so no `v` is taken off.
    obtain ⟨c, cs, rfl, hc⟩ := hdigit
    rw [List.nil_append]
    split
    · next hv =>
      rw [(List.cons.inj hv).1] at hc
      cases hc
    · rfl
  · rfl

/-- What is left of a text when what stands around the version and its build is taken off. -/
theorem body_of_spells {before letter after : List Char}
    (hbefore : ∀ c ∈ before, Text.isBlank c = true) (hletter : letter = [] ∨ letter = ['v'])
    (wf : v.WellFormed) (hbuild : ∀ id ∈ build, isIdentifier id.toList = true)
    (hafter : ∀ c ∈ after, Text.isBlank c = true) :
    body (before ++ (letter ++ v.chars ++ buildChars build ++ after)) =
      v.chars ++ buildChars build := by
  have hplain : ∀ c ∈ v.chars ++ buildChars build, Text.isBlank c = false := by
    intro c hc
    rcases List.mem_append.1 hc with hc | hc
    · exact isBlank_eq_false (wf.isVersionChar_of_mem hc)
    · exact isBlank_of_mem_buildChars hbuild hc
  have hdigit : ∃ c cs, v.chars ++ buildChars build = c :: cs ∧ c.isDigit = true := by
    obtain ⟨c, cs, hchars, hc⟩ := wf.exists_digit_chars
    exact ⟨c, cs ++ buildChars build, by rw [hchars, List.cons_append], hc⟩
  rw [List.append_assoc letter]
  exact body_append hbefore hletter hplain hdigit hafter

/-- The first plus sign ends a version, and the build after it is one that can be read. -/
theorem WellFormed.cut_build (wf : v.WellFormed)
    (hbuild : ∀ id ∈ build, isIdentifier id.toList = true) :
    ∃ tail, Text.cut '+' (v.chars ++ buildChars build) = (v.chars, tail) ∧
      (suffix? tail).isSome := by
  have hplus : '+' ∉ v.chars := fun h => by cases wf.isVersionChar_of_mem h
  cases build with
  | nil =>
    refine ⟨none, ?_, rfl⟩
    rw [buildChars, List.append_nil, Text.cut_eq_self hplus]
  | cons id ids =>
    refine ⟨some (Text.join '.' ((id :: ids).map String.toList)), Text.cut_append_cons hplus, ?_⟩
    rw [suffix?, identifiers?_join (List.cons_ne_nil id ids) hbuild]
    rfl

/-- A text that spells a version denotes it. -/
theorem parse?_of_spells {s : String} (h : Spells s.toList v) : parse? s = some v := by
  rw [parse?]
  generalize s.toList = cs at h
  obtain ⟨hbefore, hletter, wf, hbuild, hafter⟩ := h
  obtain ⟨build, hbuildCut, hbuildRead⟩ := wf.cut_build hbuild
  obtain ⟨ids, hids⟩ := Option.isSome_iff_exists.1 hbuildRead
  obtain ⟨tail, hcut, hprerelease⟩ := wf.cut_chars
  have hcomponents := components?_join wf.components_ne_nil wf.length_components_le wf.components_le
  have hround : (v.prerelease.map String.toList).map String.ofList = v.prerelease := by
    simp [Function.comp_def]
  simp only [ofChars?, body_of_spells hbefore hletter wf hbuild hafter, hbuildCut, hids, hcut,
    hprerelease, hcomponents, Option.bind_eq_bind, Option.bind_some, hround]
  rfl

/-- A version spells itself. -/
theorem WellFormed.spells_chars (wf : v.WellFormed) : Spells v.chars v := by
  have h : Spells ([] ++ ([] ++ v.chars ++ buildChars [] ++ [])) v :=
    .intro (List.forall_mem_nil _) (.inl rfl) wf (List.forall_mem_nil _) (List.forall_mem_nil _)
  simpa [buildChars] using h

/-- Reading undoes rendering. -/
theorem WellFormed.parse?_render (wf : v.WellFormed) : parse? v.render = some v := by
  refine parse?_of_spells ?_
  rw [render, String.toList_ofList]
  exact wf.spells_chars

end Version

end Lineage
