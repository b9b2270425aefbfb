/-
Equality of documents is an equivalence.

Documents are equal exactly if they are the same once every floating-point zero has lost its sign
(`equal_iff`).
-/

import Lineage.Json.Value

namespace Lineage

/-- The number without the sign of a zero. -/
def Binary64.unsignZero (x : Binary64) : Binary64 :=
  if x.magnitude.val = 0 then ⟨false, x.magnitude⟩ else x

theorem Binary64.equal_iff {x y : Binary64} : x.equal y = true ↔ x.unsignZero = y.unsignZero := by
  obtain ⟨s, w⟩ := x
  obtain ⟨t, v⟩ := y
  simp only [equal, unsignZero, Bool.and_eq_true, Bool.or_eq_true, decide_eq_true_iff]
  constructor
  · rintro ⟨rfl, rfl | hzero⟩
    · rfl
    · simp only [if_pos hzero]
  · intro h
    split at h <;> split at h
    · next hzero _ => exact ⟨congrArg magnitude h, .inr hzero⟩
    · next hzero hne => exact absurd (congrArg (·.magnitude.val) h ▸ hzero) hne
    · next hne hzero => exact absurd ((congrArg (·.magnitude.val) h).trans hzero) hne
    · exact ⟨congrArg magnitude h, .inl (congrArg negative h)⟩

/-- The number without the sign of a zero. -/
def Number.unsignZero : Number → Number
  | .integer n => .integer n
  | .real x => .real x.unsignZero

theorem Number.equal_iff {m n : Number} : m.equal n = true ↔ m.unsignZero = n.unsignZero := by
  cases m <;> cases n <;> simp [equal, unsignZero, Binary64.equal_iff]

namespace Json

mutual

/-- The document without the signs of its zeros. -/
def unsignZeros : Json → Json
  | .number n => .number n.unsignZero
  | .array xs => .array (unsignElements xs)
  | .object ms => .object (unsignMembers ms)
  | x => x
termination_by structural x => x

/-- The elements without the signs of their zeros. -/
def unsignElements : List Json → List Json
  | [] => []
  | x :: xs => unsignZeros x :: unsignElements xs
termination_by structural x => x

/-- The members without the signs of their zeros. -/
def unsignMembers : List (String × Json) → List (String × Json)
  | [] => []
  | (name, x) :: ms => (name, unsignZeros x) :: unsignMembers ms
termination_by structural x => x

end

mutual

/-- Documents are equal if nothing but the signs of zeros sets them apart. -/
theorem equal_iff : (x y : Json) → (x.equal y = true ↔ x.unsignZeros = y.unsignZeros)
  | .null, y => by cases y <;> simp [equal, unsignZeros]
  | .bool a, y => by cases y <;> simp [equal, unsignZeros]
  | .number n, y => by cases y <;> simp [equal, unsignZeros, Number.equal_iff]
  | .string s, y => by cases y <;> simp [equal, unsignZeros]
  | .array xs, y => by
    cases y with
    | array ys => simp [equal, unsignZeros, equalElements_iff xs ys]
    | _ => simp [equal, unsignZeros]
  | .object ms, y => by
    cases y with
    | object ms' => simp [equal, unsignZeros, equalMembers_iff ms ms']
    | _ => simp [equal, unsignZeros]
termination_by structural x => x

theorem equalElements_iff :
    (xs ys : List Json) → (equalElements xs ys = true ↔ unsignElements xs = unsignElements ys)
  | [], ys => by cases ys <;> simp [equalElements, unsignElements]
  | x :: xs, ys => by
    cases ys with
    | nil => simp [equalElements, unsignElements]
    | cons y ys => simp [equalElements, unsignElements, equal_iff x y, equalElements_iff xs ys]
termination_by structural xs => xs

theorem equalMembers_iff : (ms ms' : List (String × Json)) →
    (equalMembers ms ms' = true ↔ unsignMembers ms = unsignMembers ms')
  | [], ms' => by cases ms' <;> simp [equalMembers, unsignMembers]
  | (name, x) :: ms, ms' => by
    cases ms' with
    | nil => simp [equalMembers, unsignMembers]
    | cons m ms' =>
      simp [equalMembers, unsignMembers, equal_iff x m.2, equalMembers_iff ms ms', and_assoc]
termination_by structural ms => ms

end

theorem equal_self (x : Json) : x.equal x = true :=
  (equal_iff x x).2 rfl

theorem equal_symm {x y : Json} (h : x.equal y = true) : y.equal x = true :=
  (equal_iff y x).2 ((equal_iff x y).1 h).symm

theorem equal_trans {x y z : Json} (hxy : x.equal y = true) (hyz : y.equal z = true) :
    x.equal z = true :=
  (equal_iff x z).2 (((equal_iff x y).1 hxy).trans ((equal_iff y z).1 hyz))

end Json

end Lineage
