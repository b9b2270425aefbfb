/-
Reading versions.

A text is read without the blank characters around it and without one leading `v`. Its core is one
to three numerals with dots between them; a prerelease may follow after a hyphen and build metadata
after a plus sign, each a list of identifiers with dots between them. The build is checked and
forgotten.
-/

import Lineage.Version.Basic
import Lineage.Text.Blank

namespace Lineage.Version

/-- The characters of prerelease and build identifiers. -/
def isIdentifierChar (c : Char) : Bool :=
  c.isAlphanum || c == '-'

/-- A nonempty row of identifier characters. -/
def isIdentifier (cs : List Char) : Bool :=
  !cs.isEmpty && cs.all isIdentifierChar

/-- The identifiers of a list with dots between them, if each of them is one. -/
def identifiers? (cs : List Char) : Option (List (List Char)) :=
  let ids := Text.split '.' cs
  if ids.all isIdentifier then some ids else none

/-- A component: decimal digits without a superfluous leading zero, up to `maxComponent`. -/
def component? (cs : List Char) : Option Nat :=
  if !Text.isDigits cs then none
  else if cs.head? = some '0' ∧ cs.length ≠ 1 then none
  else if Text.value cs ≤ maxComponent then some (Text.value cs)
  else none

/-- The components of a core. -/
def components? (cs : List Char) : Option (List Nat) :=
  let parts := Text.split '.' cs
  if parts.length ≤ maxComponents then parts.mapM component? else none

/-- The text of a version without what is ignored at its start and its end. -/
def body (cs : List Char) : List Char :=
  match Text.trimChars cs with
  | 'v' :: rest => rest
  | rest => rest

/-- The identifiers after a separator, none if the separator does not occur. -/
def suffix? : Option (List Char) → Option (List (List Char))
  | none => some []
  | some cs => identifiers? cs

/-- The version that characters denote. -/
def ofChars? (cs : List Char) : Option Version := do
  let (rest, build) := Text.cut '+' (body cs)
  let _ ← suffix? build
  let (core, prerelease) := Text.cut '-' rest
  let ids ← suffix? prerelease
  let components ← components? core
  return ⟨components, ids.map String.ofList⟩

/-- The version that a text denotes. -/
def parse? (s : String) : Option Version :=
  ofChars? s.toList

end Lineage.Version
