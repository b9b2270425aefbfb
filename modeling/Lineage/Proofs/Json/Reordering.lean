/-
Equality of documents, as it shows in their texts.

A text fixes more than its document: the space between its tokens, the escapes of its strings and
the order of the members of its objects. Texts that differ in nothing else (`SameContent`) hold
equal documents, and documents that differ at some path are not equal (`equality_of_documents`). Of
texts with two members of one name nothing is said, because only the last of them counts.
-/

import Lineage.Proofs.Json.Derivation
import Lineage.Proofs.Json.Difference
import Lineage.Proofs.Json.Layout

namespace Lineage.Json

namespace Draft

/-! ### Drafts without double names -/

mutual

/-- No object has two members of one name. -/
def Distinct : Draft → Prop
  | .array xs => DistinctElements xs
  | .object ms => (ms.map Prod.fst).Nodup ∧ DistinctMembers ms
  | _ => True
termination_by structural x => x

/-- No object in any element has two members of one name. -/
def DistinctElements : List Draft → Prop
  | [] => True
  | x :: xs => Distinct x ∧ DistinctElements xs
termination_by structural x => x

/-- No object in any member has two members of one name. -/
def DistinctMembers : List (String × Draft) → Prop
  | [] => True
  | (_, x) :: ms => Distinct x ∧ DistinctMembers ms
termination_by structural x => x

end

mutual

/-- The members of objects may stand in another order, and nothing else differs. -/
inductive Reordered : Draft → Draft → Prop where
  | same (x : Draft) : Reordered x x
  | array {xs ys : List Draft} (h : ReorderedElements xs ys) : Reordered (.array xs) (.array ys)
  | object {ms ns ns' : List (String × Draft)} (h : ReorderedMembers ms ns) (hperm : ns.Perm ns') :
      Reordered (.object ms) (.object ns')

/-- Elements that are reordered one by one. -/
inductive ReorderedElements : List Draft → List Draft → Prop where
  | nil : ReorderedElements [] []
  | cons {x y : Draft} {xs ys : List Draft} (h : Reordered x y) (hs : ReorderedElements xs ys) :
      ReorderedElements (x :: xs) (y :: ys)

/-- Members whose values are reordered one by one. -/
inductive ReorderedMembers : List (String × Draft) → List (String × Draft) → Prop where
  | nil : ReorderedMembers [] []
  | cons {name : String} {x y : Draft} {ms ns : List (String × Draft)} (h : Reordered x y)
      (hs : ReorderedMembers ms ns) : ReorderedMembers ((name, x) :: ms) ((name, y) :: ns)

end

/-! ### The documents of reordered drafts -/

variable {levels : Nat} {ms ns : List (String × Draft)} {ys : List (String × Json)}

theorem jsonMembers?_outlinedMembers_cons {name : String} {x : Draft} :
    Outline.jsonMembers? levels (outlinedMembers ((name, x) :: ms)) = some ys ↔
      ∃ y ys', x.outlined.json? levels = some y ∧
        Outline.jsonMembers? levels (outlinedMembers ms) = some ys' ∧ ys = (name, y) :: ys' := by
  rw [outlinedMembers, Outline.jsonMembers?]
  cases x.outlined.json? levels <;>
    cases Outline.jsonMembers? levels (outlinedMembers ms) <;> simp [eq_comm]

theorem names_jsonMembers? (h : Outline.jsonMembers? levels (outlinedMembers ms) = some ys) :
    ys.map Prod.fst = ms.map Prod.fst := by
  induction ms generalizing ys with
  | nil =>
    cases h
    rfl
  | cons m ms ih =>
    obtain ⟨y, ys', -, hys, rfl⟩ := jsonMembers?_outlinedMembers_cons.1 h
    rw [List.map_cons, List.map_cons, ih hys]

/-- Members in another order are read as the same members in another order. -/
theorem exists_jsonMembers?_of_perm (hperm : ms.Perm ns)
    (h : Outline.jsonMembers? levels (outlinedMembers ms) = some ys) :
    ∃ zs, Outline.jsonMembers? levels (outlinedMembers ns) = some zs ∧ ys.Perm zs := by
  induction hperm generalizing ys with
  | nil => exact ⟨ys, h, .refl ys⟩
  | cons m _ ih =>
    obtain ⟨y, ys', hy, hys, rfl⟩ := jsonMembers?_outlinedMembers_cons.1 h
    obtain ⟨zs, hzs, hperm⟩ := ih hys
    exact ⟨_, jsonMembers?_outlinedMembers_cons.2 ⟨y, zs, hy, hzs, rfl⟩, hperm.cons _⟩
  | swap m m' ms =>
    obtain ⟨y', ys', hy', hys, rfl⟩ := jsonMembers?_outlinedMembers_cons.1 h
    obtain ⟨y, zs, hy, hzs, rfl⟩ := jsonMembers?_outlinedMembers_cons.1 hys
    refine ⟨_, jsonMembers?_outlinedMembers_cons.2 ⟨y, _, hy, ?_, rfl⟩, .swap _ _ zs⟩
    exact jsonMembers?_outlinedMembers_cons.2 ⟨y', zs, hy', hzs, rfl⟩
  | trans _ _ ih ih' =>
    obtain ⟨zs, hzs, hperm⟩ := ih h
    obtain ⟨zs', hzs', hperm'⟩ := ih' hzs
    exact ⟨zs', hzs', hperm.trans hperm'⟩

/-- Members of different names make one object in any order. -/
theorem map_ofMembers_of_perm (hnames : (ms.map Prod.fst).Nodup) (hperm : ms.Perm ns) :
    (Outline.jsonMembers? levels (outlinedMembers ns)).map ofMembers =
      (Outline.jsonMembers? levels (outlinedMembers ms)).map ofMembers := by
  cases hms : Outline.jsonMembers? levels (outlinedMembers ms) with
  | none =>
    cases hns : Outline.jsonMembers? levels (outlinedMembers ns) with
    | none => rfl
    | some zs =>
      obtain ⟨ys, hys, -⟩ := exists_jsonMembers?_of_perm hperm.symm hns
      rw [hms] at hys
      cases hys
  | some ys =>
    obtain ⟨zs, hzs, hys⟩ := exists_jsonMembers?_of_perm hperm hms
    have hdistinct : Json.Distinct ys := by
      rw [Json.Distinct, names_jsonMembers? hms]
      exact hnames
    rw [hzs, Option.map_some, Option.map_some, ofMembers_perm hdistinct hys]

theorem ReorderedMembers.names (h : ReorderedMembers ms ns) :
    ms.map Prod.fst = ns.map Prod.fst := by
  induction ms generalizing ns with
  | nil =>
    cases h
    rfl
  | cons m ms ih =>
    cases h with
    | cons _ hs => rw [List.map_cons, List.map_cons, ih hs]

mutual

/-- Reordered drafts hold one document. -/
theorem Reordered.json? : {x y : Draft} → Reordered x y → x.Distinct → ∀ levels : Nat,
    y.outlined.json? levels = x.outlined.json? levels
  | _, _, .same _, _, _ => rfl
  | _, _, .array h, hx, levels => by
    rw [outlined, outlined, Outline.json?, Outline.json?, h.jsons? hx]
  | _, _, .object h hperm, hx, levels => by
    -- The members that are put in another order have the names of those that were written first.
    have hnames := h.names ▸ hx.1
    rw [outlined, outlined, Outline.json?, Outline.json?, map_ofMembers_of_perm hnames hperm,
      h.jsonMembers? hx.2]

theorem ReorderedElements.jsons? : {xs ys : List Draft} → ReorderedElements xs ys →
    DistinctElements xs → ∀ levels : Nat,
      Outline.jsons? levels (outlinedElements ys) = Outline.jsons? levels (outlinedElements xs)
  | _, _, .nil, _, _ => rfl
  | _, _, .cons h hs, hxs, levels => by
    rw [outlinedElements, outlinedElements, Outline.jsons?, Outline.jsons?, h.json? hxs.1,
      hs.jsons? hxs.2]

theorem ReorderedMembers.jsonMembers? : {ms ns : List (String × Draft)} →
    ReorderedMembers ms ns → DistinctMembers ms → ∀ levels : Nat,
      Outline.jsonMembers? levels (outlinedMembers ns) =
        Outline.jsonMembers? levels (outlinedMembers ms)
  | _, _, .nil, _, _ => rfl
  | _, _, .cons h hs, hms, levels => by
    rw [outlinedMembers, outlinedMembers, Outline.jsonMembers?, Outline.jsonMembers?,
      h.json? hms.1, hs.jsonMembers? hms.2]

end

end Draft

/-! ### Texts -/

/-- Two texts without double names that differ in nothing but the space between their tokens, the
escapes of their strings and the order of the members of their objects. -/
def SameContent (s t : String) : Prop :=
  ∃ d e : Draft, d.Padded s.toList ∧ e.Padded t.toList ∧ d.Distinct ∧ d.Reordered e

/-- Texts of one content hold one document. -/
theorem SameContent.parse {s t : String} {x : Json} (h : SameContent s t) (hx : parse s = .ok x) :
    parse t = .ok x := by
  obtain ⟨d, e, hd, he, hdistinct, hreordered⟩ := h
  rw [he.parse_eq_ok_iff, hreordered.json? hdistinct]
  exact hd.parse_eq_ok_iff.1 hx

/-- The text of an object, and a text of its content that has space in it, starts with the other
member and writes a letter by its number. -/
theorem sameContent_spaced :
    SameContent (object [("a", string "A"), ("b", array [number (.integer 1)])]).text
      " \x7b \"b\" : [ 1 ] , \"a\" : \"\\u0041\" \x7d " := by
  have hplain : ∀ c : Char, 32 ≤ c.toNat → c ≠ '"' → c ≠ '\\' → WrittenChars [c] [c] :=
    fun c h hquote hslash => .cons (.short (.plain h hquote hslash)) .nil
  have hb : WrittenChars "b".toList ['b'] := hplain 'b' (by decide) (by decide) (by decide)
  have ha : WrittenChars "a".toList ['a'] := hplain 'a' (by decide) (by decide) (by decide)
  have hA : WrittenChars "A".toList ['\\', 'u', '0', '0', '4', '1'] :=
    .cons (.unit rfl (.digits rfl)) .nil
  have hone : Draft.Padded (.numeral ['1']) [' ', '1', ' '] :=
    .spaces spaces_blank (written_numeral (.integer 1)) spaces_blank
  have hlist : Draft.Padded (.array [.numeral ['1']]) [' ', '[', ' ', '1', ' ', ']', ' '] :=
    .spaces spaces_blank (.array (.last hone)) spaces_blank
  have hstring : Draft.Padded (.string "A")
      [' ', '"', '\\', 'u', '0', '0', '4', '1', '"', ' '] :=
    .spaces spaces_blank (.string hA) spaces_blank
  refine ⟨_, .object [("b", .array [.numeral ['1']]), ("a", .string "A")], padded_text _, ?_, ?_, ?_⟩
  · have hchars : " \x7b \"b\" : [ 1 ] , \"a\" : \"\\u0041\" \x7d ".toList =
        [' ', '\x7b', ' ', '"', 'b', '"', ' ', ':', ' ', '[', ' ', '1', ' ', ']', ' ', ',', ' ', '"',
          'a', '"', ' ', ':', ' ', '"', '\\', 'u', '0', '0', '4', '1', '"', ' ', '\x7d', ' '] := by
      decide
    rw [hchars]
    exact .spaces spaces_blank (.object (.more (.quoted spaces_blank hb spaces_blank) hlist
      (.last (.quoted spaces_blank ha spaces_blank) hstring))) spaces_blank
  · exact ⟨by decide, trivial, ⟨trivial, trivial⟩, trivial⟩
  · exact .object (.cons (.same _) (.cons (.same _) .nil)) (.swap _ _ [])

/-- Equality of documents is an equivalence. Texts of one content hold equal documents, which says
something of every text that is read, because each is written from a draft. Documents that differ at
some path are not equal, and those that are read from texts are equal otherwise: an integer is never
a floating-point number, and floating-point numbers are equal by their values, of which both zeros
have one. -/
theorem equality_of_documents :
    Equivalence (fun x y : Json => x.equal y = true) ∧
    (∀ (s : String) (x : Json), parse s = .ok x → ∃ d : Draft, d.Padded s.toList) ∧
    (∀ (s t : String) (x : Json), parse s = .ok x → SameContent s t →
      ∃ y, parse t = .ok y ∧ x.equal y = true) ∧
    (∀ (x y : Json) (path : List Step), DiffersAt path x y → x.equal y = false) ∧
    (∀ (s t : String) (x y : Json), parse s = .ok x → parse t = .ok y →
      (x.equal y = false ↔ ∃ path, DiffersAt path x y)) ∧
    (∀ (n : Int) (a : Binary64), (number (.integer n)).equal (number (.real a)) = false) ∧
    ∀ a b : Binary64, (number (.real a)).equal (number (.real b)) = true ↔ a.value = b.value := by
  refine ⟨⟨equal_self, equal_symm, equal_trans⟩, ?_, ?_, ?_, ?_, ?_, ?_⟩
  · intro s x hx
    exact exists_padded_of_parse hx
  · intro s t x hx hst
    exact ⟨x, hst.parse hx, equal_self x⟩
  · intro x y path h
    exact h.equal_eq_false
  · intro s t x y hx hy
    exact equal_eq_false_iff (ordered_of_parse hx) (ordered_of_parse hy)
  · intro n a
    rfl
  · intro a b
    rw [Binary64.value_eq_iff, ← Binary64.equal_iff]
    rfl

/-- An object that is read from a text of its content, and that differs from another one in a member. -/
theorem equality_of_documents_spaced :
    let x := object [("a", string "A"), ("b", array [number (.integer 1)])]
    let y := object [("b", null)]
    let t := " \x7b \"b\" : [ 1 ] , \"a\" : \"\\u0041\" \x7d "
    parse x.text = .ok x ∧ SameContent x.text t ∧ (∃ z, parse t = .ok z ∧ x.equal z = true) ∧
      parse y.text = .ok y ∧ DiffersAt [.member "b"] x y ∧ x.equal y = false ∧
        (x.equal y = false ↔ ∃ path, DiffersAt path x y) := by
  intro x y t
  have hx : parse x.text = .ok x := by
    apply parse_text
    · refine ⟨?_, trivial, ⟨⟨by decide, by decide⟩, trivial⟩, trivial⟩
      simp only [List.map_cons, List.map_nil, List.pairwise_pair]
      decide
    · decide
  have hy : parse y.text = .ok y :=
    parse_text ⟨List.pairwise_singleton .., trivial, trivial⟩ (by decide)
  have hdiffers : DiffersAt [.member "b"] x y :=
    ⟨array [number (.integer 1)], null, rfl, rfl, .kind nofun⟩
  have hsame := sameContent_spaced
  exact ⟨hx, hsame, equality_of_documents.2.2.1 _ _ _ hx hsame, hy, hdiffers,
    equality_of_documents.2.2.2.1 _ _ _ hdiffers, equality_of_documents.2.2.2.2.1 _ _ _ _ hx hy⟩

end Lineage.Json
