/-
The next release after a version.

Raising a component sets the ones after it to zero. A prerelease of the very release that would be
reached by that is first released as it stands. The number of components stays, except that raising
the minor component writes at least two.
-/

import Lineage.Version.Parser

namespace Lineage

/-- The component that an increment raises. -/
inductive ReleaseField where
  | major
  | minor
deriving DecidableEq, Repr

/-- The fields that can be raised. -/
def ReleaseField.all : List ReleaseField := [.major, .minor]

/-- The name of a field. -/
def ReleaseField.name : ReleaseField → String
  | .major => "major"
  | .minor => "minor"

/-- An increment that is not possible: the version text as given, and the field. -/
structure IncrementError where
  version : String
  field : ReleaseField
deriving DecidableEq, Repr

/-- The text of a failed increment. -/
def IncrementError.message (e : IncrementError) : String :=
  s!"could not increment {e.field.name} version on `{e.version}`"

namespace Version

/-- Whether a version is a prerelease of a release whose components after the field are zero. -/
def releasesItself (v : Version) : ReleaseField → Bool
  | .major => !v.isRelease && v.minor = 0 && v.patch = 0
  | .minor => !v.isRelease && v.patch = 0

/-- The three components of the next release, unless one would become too large. -/
def nextComponents? (v : Version) (field : ReleaseField) : Option (List Nat) :=
  if v.releasesItself field then some [v.major, v.minor, v.patch]
  else
    match field with
    | .major => if v.major < maxComponent then some [v.major + 1, 0, 0] else none
    | .minor => if v.minor < maxComponent then some [v.major, v.minor + 1, 0] else none

/-- The number of components that the next release is written with. -/
def nextLength (v : Version) : ReleaseField → Nat
  | .major => v.components.length
  | .minor => max v.components.length 2

/-- The next release. -/
def next? (v : Version) (field : ReleaseField) : Option Version :=
  (v.nextComponents? field).map fun cs => ⟨cs.take (v.nextLength field), []⟩

end Version

/-- Computes the version after a given one, or fails. -/
abbrev Incrementer := String → ReleaseField → Except IncrementError String

/-- The incrementer by precedence: the text of the next release. -/
def nextRelease : Incrementer := fun version field =>
  match (Version.parse? version).bind (·.next? field) with
  | some v => .ok v.render
  | none => .error ⟨version, field⟩

end Lineage
