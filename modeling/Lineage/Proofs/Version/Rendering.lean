/-
The parts of a version and how they are read.

A parsed version is well formed: one to three components within `maxComponent`, and identifiers of
identifier characters. The components and the identifiers of a well-formed version read back from
its characters.
-/

import Lineage.Proofs.Text.Digits
import Lineage.Proofs.Text.Pieces
import Lineage.Version.Parser

namespace Lineage

namespace Version

/-- What every version that a text denotes satisfies. -/
structure WellFormed (v : Version) : Prop where
  components_ne_nil : v.components ≠ []
  length_components_le : v.components.length ≤ maxComponents
  components_le : ∀ n ∈ v.components, n ≤ maxComponent
  isIdentifier_prerelease : ∀ id ∈ v.prerelease, isIdentifier id.toList = true

instance (v : Version) : Decidable v.WellFormed :=
  decidable_of_iff (v.components ≠ [] ∧ v.components.length ≤ maxComponents ∧
      (∀ n ∈ v.components, n ≤ maxComponent) ∧ ∀ id ∈ v.prerelease, isIdentifier id.toList = true)
    ⟨fun ⟨hne, hlength, hle, hids⟩ => ⟨hne, hlength, hle, hids⟩,
      fun ⟨hne, hlength, hle, hids⟩ => ⟨hne, hlength, hle, hids⟩⟩

/-! ### Characters of a version -/

/-- The characters that the text of a version is made of. -/
def isVersionChar (c : Char) : Bool :=
  isIdentifierChar c || c == '.'

theorem isBlank_eq_false {c : Char} (h : isVersionChar c = true) : Text.isBlank c = false := by
  have halpha : c.isAlpha = (c.isUpper || c.isLower) := rfl
  have hupper : c.isUpper = decide (c.val ≥ 'A'.val ∧ c.val ≤ 'Z'.val) := rfl
  have hlower : c.isLower = (decide (c.val ≥ 'a'.val) && decide (c.val ≤ 'z'.val)) := rfl
  simp only [isVersionChar, isIdentifierChar, Char.isAlphanum, halpha, hupper, hlower,
    Char.isDigit, Bool.or_eq_true, Bool.and_eq_true, decide_eq_true_eq, beq_iff_eq] at h
  simp only [Text.isBlank, Bool.or_eq_false_iff, Bool.and_eq_false_iff, decide_eq_false_iff_not,
    beq_eq_false_iff_ne, ne_eq, Char.le_def, ← Char.toNat_inj, UInt32.le_iff_toNat_le] at h ⊢
  simp only [Char.toNat] at h ⊢
  simp at h ⊢
  omega

theorem isVersionChar_of_isDigit {c : Char} (h : c.isDigit = true) : isVersionChar c = true := by
  simp [isVersionChar, isIdentifierChar, Char.isAlphanum, h]

theorem ne_of_isIdentifier {cs : List Char} {c d : Char} (h : isIdentifier cs = true)
    (hc : c ∈ cs) (hd : isIdentifierChar d = false) : c ≠ d := by
  rw [isIdentifier, Bool.and_eq_true, List.all_eq_true] at h
  rintro rfl
  rw [h.2 c hc] at hd
  cases hd

variable {v : Version}

theorem mem_core {ns : List Nat} {c : Char} (h : c ∈ Text.join '.' (ns.map Text.digits)) :
    c.isDigit = true ∨ c = '.' := by
  rcases Text.mem_join h with rfl | ⟨piece, hm, hc⟩
  · exact .inr rfl
  · obtain ⟨n, -, rfl⟩ := List.mem_map.1 hm
    exact .inl (Text.isDigit_of_mem_digits hc)

/-- The characters after the core: a hyphen and the identifiers, or none. -/
def suffixChars (ids : List String) : List Char :=
  match ids with
  | [] => []
  | ids => '-' :: Text.join '.' (ids.map String.toList)

theorem chars_eq (v : Version) :
    v.chars = Text.join '.' (v.components.map Text.digits) ++ suffixChars v.prerelease := rfl

theorem isVersionChar_of_mem_pieces {pieces : List (List Char)} {c : Char}
    (h : ∀ piece ∈ pieces, isIdentifier piece = true) (hc : c ∈ Text.join '.' pieces) :
    isVersionChar c = true := by
  rcases Text.mem_join hc with rfl | ⟨piece, hm, hpiece⟩
  · rfl
  · have hall := h piece hm
    rw [isIdentifier, Bool.and_eq_true, List.all_eq_true] at hall
    rw [isVersionChar, hall.2 c hpiece, Bool.true_or]

theorem isVersionChar_of_mem_join {ids : List String} {c : Char}
    (h : ∀ id ∈ ids, isIdentifier id.toList = true)
    (hc : c ∈ Text.join '.' (ids.map String.toList)) : isVersionChar c = true :=
  isVersionChar_of_mem_pieces (List.forall_mem_map.2 h) hc

theorem WellFormed.isVersionChar_of_mem (wf : v.WellFormed) {c : Char} (h : c ∈ v.chars) :
    isVersionChar c = true := by
  rw [chars_eq, List.mem_append] at h
  rcases h with hcore | hsuffix
  · rcases mem_core hcore with hdigit | rfl
    · exact isVersionChar_of_isDigit hdigit
    · rfl
  · unfold suffixChars at hsuffix
    split at hsuffix
    · cases hsuffix
    · rcases List.mem_cons.1 hsuffix with rfl | hjoin
      · rfl
      · exact isVersionChar_of_mem_join wf.isIdentifier_prerelease hjoin

/-! ### Reading the parts -/

theorem component?_digits {n : Nat} (h : n ≤ maxComponent) :
    component? (Text.digits n) = some n := by
  have hzero : ¬ ((Text.digits n).head? = some '0' ∧ (Text.digits n).length ≠ 1) := fun hz =>
    hz.2 (Text.length_digits_of_head?_zero hz.1)
  simp [component?, hzero, h]

theorem components?_join {ns : List Nat} (hne : ns ≠ []) (hlen : ns.length ≤ maxComponents)
    (hle : ∀ n ∈ ns, n ≤ maxComponent) :
    components? (Text.join '.' (ns.map Text.digits)) = some ns := by
  have hdot : ∀ piece ∈ ns.map Text.digits, '.' ∉ piece := by
    intro piece hm
    obtain ⟨n, -, rfl⟩ := List.mem_map.1 hm
    exact Text.not_mem_digits rfl
  have hread : (ns.map Text.digits).mapM component? = some ns := by
    clear hne hlen hdot
    induction ns with
    | nil => rfl
    | cons n ns ih =>
      rw [List.forall_mem_cons] at hle
      rw [List.map_cons, List.mapM_cons, component?_digits hle.1, ih hle.2]
      rfl
  rw [components?, Text.split_join (by simpa using hne) hdot, List.length_map, if_pos hlen, hread]

theorem identifiers?_join {ids : List String} (hne : ids ≠ [])
    (h : ∀ id ∈ ids, isIdentifier id.toList = true) :
    identifiers? (Text.join '.' (ids.map String.toList)) = some (ids.map String.toList) := by
  have hdot : ∀ piece ∈ ids.map String.toList, '.' ∉ piece := by
    intro piece hm hc
    obtain ⟨id, hid, rfl⟩ := List.mem_map.1 hm
    exact ne_of_isIdentifier (h id hid) hc rfl rfl
  have hall : (ids.map String.toList).all isIdentifier = true := by
    rw [List.all_map, List.all_eq_true]
    exact h
  rw [identifiers?, Text.split_join (by simpa using hne) hdot]
  exact if_pos hall

/-- The first hyphen of a version's text ends its core, and the prerelease is read after it. -/
theorem WellFormed.cut_chars (wf : v.WellFormed) :
    ∃ tail, Text.cut '-' v.chars = (Text.join '.' (v.components.map Text.digits), tail) ∧
      suffix? tail = some (v.prerelease.map String.toList) := by
  have hcore : '-' ∉ Text.join '.' (v.components.map Text.digits) := fun h => by
    rcases mem_core h with hd | hd <;> cases hd
  cases hp : v.prerelease with
  | nil =>
    refine ⟨none, ?_, rfl⟩
    rw [chars_eq, hp, suffixChars, List.append_nil, Text.cut_eq_self hcore]
  | cons id ids =>
    refine ⟨some (Text.join '.' ((id :: ids).map String.toList)), ?_, ?_⟩
    · rw [chars_eq, hp]
      exact Text.cut_append_cons hcore
    · exact identifiers?_join (List.cons_ne_nil id ids) (hp ▸ wf.isIdentifier_prerelease)

/-! ### What is read is well formed -/

theorem isIdentifier_of_suffix? {tail : Option (List Char)} {ids : List (List Char)}
    (h : suffix? tail = some ids) : ∀ id ∈ ids, isIdentifier id = true := by
  cases tail with
  | none =>
    cases h
    simp
  | some cs =>
    simp only [suffix?, identifiers?] at h
    split at h
    · next hall =>
      cases h
      exact List.all_eq_true.1 hall
    · cases h

theorem component?_le {cs : List Char} {n : Nat} (h : component? cs = some n) :
    n ≤ maxComponent := by
  unfold component? at h
  split at h
  · cases h
  · split at h
    · cases h
    · split at h
      · next hle =>
        cases h
        exact hle
      · cases h

theorem length_of_mapM {parts : List (List Char)} {ns : List Nat}
    (h : parts.mapM component? = some ns) :
    ns.length = parts.length ∧ ∀ n ∈ ns, n ≤ maxComponent := by
  induction parts generalizing ns with
  | nil =>
    cases h
    simp
  | cons part parts ih =>
    simp only [List.mapM_cons, Option.bind_eq_bind, Option.bind_eq_some_iff,
      Option.pure_def, Option.some.injEq] at h
    obtain ⟨n, hn, ms, hms, rfl⟩ := h
    obtain ⟨hlen, hle⟩ := ih hms
    refine ⟨by simp [hlen], ?_⟩
    rw [List.forall_mem_cons]
    exact ⟨component?_le hn, hle⟩

theorem parse?_wellFormed {s : String} (h : parse? s = some v) : v.WellFormed := by
  simp only [parse?, ofChars?, Option.bind_eq_bind, Option.bind_eq_some_iff, Option.pure_def,
    Option.some.injEq] at h
  obtain ⟨_, -, ids, hids, ns, hns, rfl⟩ := h
  simp only [components?] at hns
  split at hns
  · next hlen =>
    obtain ⟨hsame, hle⟩ := length_of_mapM hns
    refine ⟨?_, by rwa [hsame], hle, ?_⟩
    · rintro rfl
      exact Text.split_ne_nil _ _ (List.length_eq_zero_iff.1 hsame.symm)
    · intro id hid
      obtain ⟨cs, hcs, rfl⟩ := List.mem_map.1 hid
      rw [String.toList_ofList]
      exact isIdentifier_of_suffix? hids cs hcs
  · cases hns

end Version

end Lineage
