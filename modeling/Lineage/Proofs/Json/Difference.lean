/-
Where documents differ that are not equal.

`at?` goes down a path of elements and members to a part of a document. Two parts differ in themselves
(`Differs`) if they are of different kinds, if they are arrays of different lengths or objects with
different names, or if they are leaves with different values; an integer and a floating-point number are
of different kinds, and both zeros have one value. Documents that differ at some path are not equal, and
documents whose objects are in order and that are not equal differ at some path (`equal_eq_false_iff`).
-/

import Lineage.Proofs.Binary64.Rounding
import Lineage.Proofs.Json.Equality
import Lineage.Proofs.Json.Members
import Lineage.Proofs.Json.Range

namespace Lineage

/-! ### Values of floating-point numbers -/

namespace Binary64

theorem units_strictMono : StrictMono units :=
  strictMono_nat_of_lt_succ fun w => by
    rw [units_succ]
    exact Nat.lt_add_of_pos_right (Nat.two_pow_pos _)

/-- The number that is denoted, in units of 2⁻¹⁰⁷⁴. -/
def value (x : Binary64) : Int :=
  if x.negative then -units x.magnitude else units x.magnitude

theorem value_unsignZero (x : Binary64) : x.unsignZero.value = x.value := by
  unfold unsignZero
  split
  · next hzero => simp [value, hzero, units]
  · rfl

/-- The value is all that is left of a number without the sign of a zero. -/
theorem value_eq_iff {x y : Binary64} : x.value = y.value ↔ x.unsignZero = y.unsignZero := by
  constructor
  · intro h
    obtain ⟨s, w⟩ := x
    obtain ⟨t, v⟩ := y
    have hw : 0 < w.val → 0 < units w := units_pos
    have hv : 0 < v.val → 0 < units v := units_pos
    have hmagnitude : units w = units v := by
      cases s <;> cases t <;> simp only [value, if_true, Bool.false_eq_true, if_false] at h <;> omega
    obtain rfl : w = v := Fin.ext (units_strictMono.injective hmagnitude)
    unfold unsignZero
    split
    · rfl
    · next hne =>
      have hpos := hw (Nat.pos_of_ne_zero hne)
      have hsign : s = t := by
        cases s <;> cases t <;> simp only [value, if_true, Bool.false_eq_true, if_false] at h <;>
          first
          | rfl
          | omega
      rw [hsign]
  · intro h
    rw [← value_unsignZero x, h, value_unsignZero]

end Binary64

namespace Json

/-! ### Parts of a document -/

/-- The kind of a document. -/
inductive Kind where
  | null
  | bool
  | integer
  | real
  | string
  | array
  | object
deriving DecidableEq

/-- The kind of a document. The two kinds of numbers are kinds of their own. -/
def kind : Json → Kind
  | null => .null
  | bool _ => .bool
  | number (.integer _) => .integer
  | number (.real _) => .real
  | string _ => .string
  | array _ => .array
  | object _ => .object

/-- A step from a document to one of its parts. -/
inductive Step where
  | element (i : Nat)
  | member (name : String)

/-- The part of a document at a path. -/
def at? : List Step → Json → Option Json
  | [], x => some x
  | .element i :: path, array xs => xs[i]?.bind (at? path)
  | .member name :: path, object ms => (ms.lookup name).bind (at? path)
  | _ :: _, _ => none

/-- Two documents differ in themselves, and not only in their parts. -/
inductive Differs : Json → Json → Prop where
  | kind {x y : Json} (h : x.kind ≠ y.kind) : Differs x y
  | bool {a b : Bool} (h : a ≠ b) : Differs (.bool a) (.bool b)
  | string {s t : String} (h : s ≠ t) : Differs (.string s) (.string t)
  | integer {m n : Int} (h : m ≠ n) : Differs (.number (.integer m)) (.number (.integer n))
  | real {x y : Binary64} (h : x.value ≠ y.value) : Differs (.number (.real x)) (.number (.real y))
  | length {xs ys : List Json} (h : xs.length ≠ ys.length) : Differs (.array xs) (.array ys)
  | names {ms ms' : List (String × Json)} {name : String}
      (h : ¬ (name ∈ ms.map Prod.fst ↔ name ∈ ms'.map Prod.fst)) : Differs (.object ms) (.object ms')

/-- Two documents have parts at a path that differ in themselves. -/
def DiffersAt (path : List Step) (x y : Json) : Prop :=
  ∃ a b, x.at? path = some a ∧ y.at? path = some b ∧ a.Differs b

/-! ### Documents that differ are not equal -/

variable {x y : Json} {path : List Step}

theorem unsignElements_eq_map (xs : List Json) : unsignElements xs = xs.map unsignZeros := by
  induction xs with
  | nil => rfl
  | cons x xs ih => rw [unsignElements, ih, List.map_cons]

theorem unsignMembers_eq_map (ms : List (String × Json)) :
    unsignMembers ms = ms.map fun m => (m.1, m.2.unsignZeros) := by
  induction ms with
  | nil => rfl
  | cons m ms ih => rw [unsignMembers, ih, List.map_cons]

theorem kind_unsignZeros (x : Json) : x.unsignZeros.kind = x.kind := by
  cases x with
  | number n => cases n <;> rfl
  | _ => rfl

theorem names_unsignMembers (ms : List (String × Json)) :
    (unsignMembers ms).map Prod.fst = ms.map Prod.fst := by
  rw [unsignMembers_eq_map, List.map_map]
  rfl

theorem lookup_unsignMembers (name : String) (ms : List (String × Json)) :
    (unsignMembers ms).lookup name = (ms.lookup name).map unsignZeros := by
  induction ms with
  | nil => rfl
  | cons m ms ih =>
    rw [unsignMembers, List.lookup_cons, List.lookup_cons, ih]
    split <;> rfl

/-- The parts lose the signs of their zeros with the document. -/
theorem at?_unsignZeros (path : List Step) (x : Json) :
    x.unsignZeros.at? path = (x.at? path).map unsignZeros := by
  induction path generalizing x with
  | nil => rfl
  | cons step path ih =>
    cases step with
    | element i =>
      cases x with
      | array xs =>
        rw [unsignZeros, at?, at?, unsignElements_eq_map, List.getElem?_map]
        cases xs[i]? with
        | none => rfl
        | some part => exact ih part
      | _ => rfl
    | member name =>
      cases x with
      | object ms =>
        rw [unsignZeros, at?, at?, lookup_unsignMembers]
        cases ms.lookup name with
        | none => rfl
        | some part => exact ih part
      | _ => rfl

theorem Differs.unsignZeros_ne (h : x.Differs y) : x.unsignZeros ≠ y.unsignZeros := by
  intro heq
  cases h with
  | kind h => exact h (by rw [← kind_unsignZeros, heq, kind_unsignZeros])
  | bool h => exact h (Json.bool.inj heq)
  | string h => exact h (Json.string.inj heq)
  | integer h => exact h (Number.integer.inj (Json.number.inj heq))
  | real h => exact h (Binary64.value_eq_iff.2 (Number.real.inj (Json.number.inj heq)))
  | length h =>
    have hlength := congrArg List.length (Json.array.inj heq)
    rw [unsignElements_eq_map, unsignElements_eq_map, List.length_map, List.length_map] at hlength
    exact h hlength
  | names h =>
    have hnames := congrArg (List.map Prod.fst) (Json.object.inj heq)
    rw [names_unsignMembers, names_unsignMembers] at hnames
    exact h (by rw [hnames])

theorem DiffersAt.unsignZeros_ne (h : DiffersAt path x y) : x.unsignZeros ≠ y.unsignZeros := by
  intro heq
  obtain ⟨a, b, ha, hb, hdiffers⟩ := h
  have hparts := congrArg (at? path) heq
  rw [at?_unsignZeros, at?_unsignZeros, ha, hb] at hparts
  exact hdiffers.unsignZeros_ne (Option.some.inj hparts)

/-! ### Documents that are not equal differ -/

mutual

/-- A document whose objects have their members in the order of their names, each name once. -/
def Ordered : Json → Prop
  | .array xs => OrderedElements xs
  | .object ms => InOrder ms ∧ OrderedMembers ms
  | _ => True
termination_by structural x => x

/-- Elements whose objects are in order. -/
def OrderedElements : List Json → Prop
  | [] => True
  | x :: xs => Ordered x ∧ OrderedElements xs
termination_by structural x => x

/-- Members whose objects are in order. -/
def OrderedMembers : List (String × Json) → Prop
  | [] => True
  | (_, x) :: ms => Ordered x ∧ OrderedMembers ms
termination_by structural x => x

end

theorem differsAt_nil (h : x.Differs y) : DiffersAt [] x y :=
  ⟨x, y, rfl, rfl, h⟩

theorem differs_number (n : Number) (h : x.kind ≠ .integer ∧ x.kind ≠ .real) : x.Differs (.number n) := by
  cases n with
  | integer m => exact .kind h.1
  | real a => exact .kind h.2

theorem DiffersAt.element {xs ys : List Json} {i : Nat} (hx : xs[i]? = some x) (hy : ys[i]? = some y)
    (h : DiffersAt path x y) : DiffersAt (.element i :: path) (.array xs) (.array ys) := by
  obtain ⟨a, b, ha, hb, hdiffers⟩ := h
  refine ⟨a, b, ?_, ?_, hdiffers⟩
  · rw [at?, hx, Option.bind_some, ha]
  · rw [at?, hy, Option.bind_some, hb]

theorem DiffersAt.member {ms ms' : List (String × Json)} {name : String}
    (hx : ms.lookup name = some x) (hy : ms'.lookup name = some y) (h : DiffersAt path x y) :
    DiffersAt (.member name :: path) (.object ms) (.object ms') := by
  obtain ⟨a, b, ha, hb, hdiffers⟩ := h
  refine ⟨a, b, ?_, ?_, hdiffers⟩
  · rw [at?, hx, Option.bind_some, ha]
  · rw [at?, hy, Option.bind_some, hb]

mutual

/-- Where documents differ that are not equal. -/
theorem exists_differsAt : (x y : Json) → x.Ordered → y.Ordered → x.unsignZeros ≠ y.unsignZeros →
    ∃ path, DiffersAt path x y
  | .null, y, _, _, hne => by
    cases y with
    | null => exact absurd rfl hne
    | number n => exact ⟨[], differsAt_nil (differs_number n ⟨nofun, nofun⟩)⟩
    | _ => exact ⟨[], differsAt_nil (.kind nofun)⟩
  | .bool a, y, _, _, hne => by
    cases y with
    | bool b => exact ⟨[], differsAt_nil (.bool fun h => hne (h ▸ rfl))⟩
    | number n => exact ⟨[], differsAt_nil (differs_number n ⟨nofun, nofun⟩)⟩
    | _ => exact ⟨[], differsAt_nil (.kind nofun)⟩
  | .number (.integer m), y, _, _, hne => by
    cases y with
    | number n =>
      cases n with
      | integer n => exact ⟨[], differsAt_nil (.integer fun h => hne (h ▸ rfl))⟩
      | real b => exact ⟨[], differsAt_nil (.kind nofun)⟩
    | _ => exact ⟨[], differsAt_nil (.kind nofun)⟩
  | .number (.real a), y, _, _, hne => by
    cases y with
    | number n =>
      cases n with
      | integer n => exact ⟨[], differsAt_nil (.kind nofun)⟩
      | real b =>
        refine ⟨[], differsAt_nil (.real fun h => hne ?_)⟩
        exact congrArg (number ∘ Number.real) (Binary64.value_eq_iff.1 h)
    | _ => exact ⟨[], differsAt_nil (.kind nofun)⟩
  | .string s, y, _, _, hne => by
    cases y with
    | string t => exact ⟨[], differsAt_nil (.string fun h => hne (h ▸ rfl))⟩
    | number n => exact ⟨[], differsAt_nil (differs_number n ⟨nofun, nofun⟩)⟩
    | _ => exact ⟨[], differsAt_nil (.kind nofun)⟩
  | .array xs, y, hx, hy, hne => by
    cases y with
    | array ys =>
      by_cases hlength : xs.length = ys.length
      · obtain ⟨i, a, b, path, ha, hb, h⟩ := exists_differsAt_elements xs ys hx hy hlength
          fun h => hne (congrArg array h)
        exact ⟨_, h.element ha hb⟩
      · exact ⟨[], differsAt_nil (.length hlength)⟩
    | number n => exact ⟨[], differsAt_nil (differs_number n ⟨nofun, nofun⟩)⟩
    | _ => exact ⟨[], differsAt_nil (.kind nofun)⟩
  | .object ms, y, hx, hy, hne => by
    cases y with
    | object ms' =>
      by_cases hnames : ∀ name, name ∈ ms.map Prod.fst ↔ name ∈ ms'.map Prod.fst
      · obtain ⟨name, a, b, path, ha, hb, h⟩ := exists_differsAt_members ms ms' hx.2 hy.2 hx.1
          (hx.1.names_eq hy.1 ((List.perm_ext_iff_of_nodup hx.1.distinct hy.1.distinct).2 hnames))
          fun h => hne (congrArg object h)
        exact ⟨_, h.member ha hb⟩
      · obtain ⟨name, hname⟩ := not_forall.1 hnames
        exact ⟨[], differsAt_nil (.names hname)⟩
    | number n => exact ⟨[], differsAt_nil (differs_number n ⟨nofun, nofun⟩)⟩
    | _ => exact ⟨[], differsAt_nil (.kind nofun)⟩
termination_by structural x => x

theorem exists_differsAt_elements : (xs ys : List Json) → OrderedElements xs → OrderedElements ys →
    xs.length = ys.length → unsignElements xs ≠ unsignElements ys →
      ∃ (i : Nat) (a b : Json) (path : List Step),
        xs[i]? = some a ∧ ys[i]? = some b ∧ DiffersAt path a b
  | [], ys, _, _, hlength, hne => by
    cases ys with
    | nil => exact absurd rfl hne
    | cons y ys => cases hlength
  | x :: xs, ys, hx, hy, hlength, hne => by
    cases ys with
    | nil => cases hlength
    | cons y ys =>
      by_cases hfirst : x.unsignZeros = y.unsignZeros
      · obtain ⟨i, a, b, path, ha, hb, h⟩ := exists_differsAt_elements xs ys hx.2 hy.2
          (Nat.succ.inj hlength) fun h => hne (by rw [unsignElements, unsignElements, hfirst, h])
        exact ⟨i + 1, a, b, path, ha, hb, h⟩
      · obtain ⟨path, h⟩ := exists_differsAt x y hx.1 hy.1 hfirst
        exact ⟨0, x, y, path, rfl, rfl, h⟩
termination_by structural xs => xs

theorem exists_differsAt_members : (ms ms' : List (String × Json)) → OrderedMembers ms →
    OrderedMembers ms' → InOrder ms → ms.map Prod.fst = ms'.map Prod.fst →
      unsignMembers ms ≠ unsignMembers ms' →
        ∃ (name : String) (a b : Json) (path : List Step),
          ms.lookup name = some a ∧ ms'.lookup name = some b ∧ DiffersAt path a b
  | [], ms', _, _, _, hnames, hne => by
    cases ms' with
    | nil => exact absurd rfl hne
    | cons m ms' => cases hnames
  | (name, x) :: ms, ms', hx, hy, horder, hnames, hne => by
    cases ms' with
    | nil => cases hnames
    | cons m ms' =>
      obtain ⟨_, y⟩ := m
      obtain ⟨rfl, hrest⟩ := List.cons.inj hnames
      by_cases hfirst : x.unsignZeros = y.unsignZeros
      · obtain ⟨other, a, b, path, ha, hb, h⟩ := exists_differsAt_members ms ms' hx.2 hy.2
          (List.pairwise_cons.1 horder).2 hrest
          fun h => hne (by rw [unsignMembers, unsignMembers, hfirst, h])
        -- The name is in order after that of the first member, so it is another one.
        have hother : (other == name) = false := by
          refine beq_false_of_ne fun heq => ?_
          have hmem : other ∈ ms.map Prod.fst := by
            obtain ⟨before, after, hsplit, -⟩ := List.lookup_eq_some_iff.1 ha
            simp [hsplit]
          exact (List.nodup_cons.1 horder.distinct).1 (heq ▸ hmem)
        exact ⟨other, a, b, path, by rw [List.lookup_cons, hother]; exact ha,
          by rw [List.lookup_cons, hother]; exact hb, h⟩
      · obtain ⟨path, h⟩ := exists_differsAt x y hx.1 hy.1 hfirst
        exact ⟨_, x, y, path, List.lookup_cons_self, List.lookup_cons_self, h⟩
termination_by structural ms => ms

end

/-- Documents that differ at some path are not equal. -/
theorem DiffersAt.equal_eq_false (h : DiffersAt path x y) : x.equal y = false := by
  rw [← Bool.not_eq_true, equal_iff]
  exact h.unsignZeros_ne

/-- Documents in order are equal unless they differ at some path. -/
theorem equal_eq_false_iff (hx : x.Ordered) (hy : y.Ordered) :
    x.equal y = false ↔ ∃ path, DiffersAt path x y := by
  constructor
  · intro h
    apply exists_differsAt x y hx hy
    rwa [← Bool.not_eq_true, equal_iff] at h
  · rintro ⟨path, h⟩
    exact h.equal_eq_false

/-! ### Documents that are read are in order -/

theorem orderedElements_iff {xs : List Json} : OrderedElements xs ↔ ∀ x ∈ xs, x.Ordered := by
  induction xs with
  | nil => simp [OrderedElements]
  | cons x xs ih => rw [OrderedElements, ih, List.forall_mem_cons]

theorem orderedMembers_iff {ms : List (String × Json)} :
    OrderedMembers ms ↔ ∀ m ∈ ms, m.2.Ordered := by
  induction ms with
  | nil => simp [OrderedMembers]
  | cons m ms ih => rw [OrderedMembers, ih, List.forall_mem_cons]

/-- An object is in order in whatever order its members come. -/
theorem ordered_ofMembers {ms : List (String × Json)} (h : ∀ m ∈ ms, m.2.Ordered) :
    (ofMembers ms).Ordered := by
  have hnil : InOrder [] := List.Pairwise.nil
  refine ⟨inOrder_insertMembers hnil ms, orderedMembers_iff.2 fun m hm => h m ?_⟩
  obtain ⟨sorted, hsorted, hmem⟩ := exists_ofMembers ms
  exact hmem m (Json.object.inj hsorted ▸ hm)

theorem inherited_ordered : Inherited fun _ x => x.Ordered where
  leaf := by
    intro levels x _ _ hdepth
    cases x with
    | array xs => cases hdepth
    | object ms => cases hdepth
    | _ => trivial
  array := fun _ h => orderedElements_iff.2 h
  object := fun _ h => ordered_ofMembers h

/-- A document that is read from a text is in order. -/
theorem ordered_of_parse {s : String} (h : parse s = .ok x) : x.Ordered := by
  obtain ⟨-, hread⟩ := parse_eq_ok_iff.1 h
  exact inherited_ordered.json? _ (Outline.inRange_outline s) (by decide) hread

end Json

end Lineage
