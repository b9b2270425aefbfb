/-
JSON documents.

A number is an integer between -2⁶³ and 2⁶⁴ - 1 or a 64-bit floating-point number, and the two
kinds are never equal. The members of an object are kept in the code point order of their names,
each name once; `Json.ofMembers` builds such an object and lets a later member replace an earlier
one of its name. `Json.equal` is equality of documents: member by member, element by element, with
both floating-point zeros equal.
-/

import Lineage.Binary64
import Lineage.Text.Order

namespace Lineage

/-- A JSON number. -/
inductive Number where
  | integer (n : Int)
  | real (x : Binary64)
deriving DecidableEq, Repr

/-- A JSON document. -/
inductive Json where
  | null
  | bool (b : Bool)
  | number (n : Number)
  | string (s : String)
  | array (elements : List Json)
  | object (members : List (String × Json))
deriving Repr, Inhabited

/-- Numbers of one kind and one value. -/
def Number.equal : Number → Number → Bool
  | .integer m, .integer n => m = n
  | .real x, .real y => x.equal y
  | _, _ => false

namespace Json

/-! ### Equality -/

mutual

/-- Equality of documents. -/
def equal : Json → Json → Bool
  | .null, .null => true
  | .bool a, .bool b => a = b
  | .number m, .number n => m.equal n
  | .string s, .string t => s = t
  | .array xs, .array ys => equalElements xs ys
  | .object xs, .object ys => equalMembers xs ys
  | _, _ => false
termination_by structural x => x

/-- Equality of documents, place by place. -/
def equalElements : List Json → List Json → Bool
  | [], [] => true
  | x :: xs, y :: ys => equal x y && equalElements xs ys
  | _, _ => false
termination_by structural x => x

/-- Equality of names and documents, place by place. -/
def equalMembers : List (String × Json) → List (String × Json) → Bool
  | [], [] => true
  | (a, x) :: xs, (b, y) :: ys => a = b && equal x y && equalMembers xs ys
  | _, _ => false
termination_by structural x => x

end

/-! ### Nesting -/

mutual

/-- How deep arrays and objects nest: 0 for a document that is neither. -/
def depth : Json → Nat
  | .array xs => depthElements xs + 1
  | .object xs => depthMembers xs + 1
  | _ => 0
termination_by structural x => x

/-- The depth of the deepest element. -/
def depthElements : List Json → Nat
  | [] => 0
  | x :: xs => max (depth x) (depthElements xs)
termination_by structural x => x

/-- The depth of the deepest member. -/
def depthMembers : List (String × Json) → Nat
  | [] => 0
  | (_, x) :: xs => max (depth x) (depthMembers xs)
termination_by structural x => x

end

/-! ### Members -/

/-- Puts a member at its place among members in code point order; a member of the same name gives
way. -/
def insertMember (name : String) (x : Json) : List (String × Json) → List (String × Json)
  | [] => [(name, x)]
  | (other, y) :: rest =>
    match Text.compareText name other with
    | .lt => (name, x) :: (other, y) :: rest
    | .eq => (name, x) :: rest
    | .gt => (other, y) :: insertMember name x rest

/-- The object with the given members; the last one of each name counts. -/
def ofMembers (members : List (String × Json)) : Json :=
  .object (members.foldl (fun sorted m => insertMember m.1 m.2 sorted) [])

/-- The member of an object with the given name. -/
def member? (name : String) : Json → Option Json
  | .object members => members.lookup name
  | _ => none

/-- The text of a string. -/
def text? : Json → Option String
  | .string s => some s
  | _ => none

end Json

end Lineage
