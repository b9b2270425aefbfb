/-
The order of versions.

Versions are compared by their three components, then a prerelease comes before its release, then
prereleases are compared identifier by identifier: numbers by value, numbers before other
identifiers, other identifiers by their characters, and a list before every longer list that starts
with it. `compareVersions` extends this to all texts: one that is no version comes before every
version, and such texts are ordered by their code points.
-/

import Lineage.Version.Parser
import Lineage.Text.Order

namespace Lineage

namespace Version

/-- The number that a prerelease identifier counts as. Digits that denote more than `maxComponent`
count as text. -/
def identifierValue? (id : String) : Option Nat :=
  let cs := id.toList
  if Text.isDigits cs ∧ Text.value cs ≤ maxComponent then some (Text.value cs) else none

/-- Compares two prerelease identifiers. -/
def compareIdentifier (a b : String) : Ordering :=
  match identifierValue? a, identifierValue? b with
  | some m, some n => compare m n
  | some _, none => .lt
  | none, some _ => .gt
  | none, none => Text.compareText a b

/-- Compares two lists of identifiers at the first place where they differ. -/
def compareIdentifiers : List String → List String → Ordering
  | [], [] => .eq
  | [], _ :: _ => .lt
  | _ :: _, [] => .gt
  | a :: as, b :: bs => (compareIdentifier a b).then (compareIdentifiers as bs)

/-- Compares two prereleases, where a release comes after each of its prereleases. -/
def comparePrerelease : List String → List String → Ordering
  | [], [] => .eq
  | [], _ :: _ => .gt
  | _ :: _, [] => .lt
  | as, bs => compareIdentifiers as bs

/-- Compares the components of two versions. -/
def compareCore (a b : Version) : Ordering :=
  (compare a.major b.major).then ((compare a.minor b.minor).then (compare a.patch b.patch))

/-- The precedence of two versions. -/
def precedence (a b : Version) : Ordering :=
  (compareCore a b).then (comparePrerelease a.prerelease b.prerelease)

end Version

/-- Compares two version texts. -/
def compareVersions (a b : String) : Ordering :=
  match Version.parse? a, Version.parse? b with
  | some v, some w => v.precedence w
  | some _, none => .gt
  | none, some _ => .lt
  | none, none => Text.compareText a b

/-- Sorts by version, the highest first. Entries of equal versions keep their order. -/
def sortLatestFirst {α : Type} (version : α → String) (entries : List α) : List α :=
  entries.mergeSort fun a b => compareVersions (version a) (version b) != .lt

end Lineage
