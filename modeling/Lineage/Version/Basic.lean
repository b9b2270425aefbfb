/-
Versions: one to three numeric components and an optional prerelease.

The missing components of a version count as zero, so `1` and `1.0.0` name the same release, but a
version remembers how many components it is written with. Build metadata is not part of it.
-/

import Lineage.Text.Split
import Lineage.Text.Numeral

namespace Lineage

/-- A version: its components, major first, and the identifiers of its prerelease, of which a
release has none. -/
structure Version where
  components : List Nat
  prerelease : List String
deriving DecidableEq, Repr

namespace Version

/-- The largest number that a component may be, 2⁶⁴ - 1. -/
def maxComponent : Nat := 18446744073709551615

/-- The largest number of components. -/
def maxComponents : Nat := 3

/-- The component at a place, zero where none is written. -/
def component (v : Version) (place : Nat) : Nat :=
  v.components.getD place 0

/-- The first component. -/
def major (v : Version) : Nat :=
  v.component 0

/-- The second component. -/
def minor (v : Version) : Nat :=
  v.component 1

/-- The third component. -/
def patch (v : Version) : Nat :=
  v.component 2

/-- A version is a release when it has no prerelease. -/
def isRelease (v : Version) : Bool :=
  v.prerelease.isEmpty

/-- The characters of a version: its components, and its prerelease after a hyphen. -/
def chars (v : Version) : List Char :=
  Text.join '.' (v.components.map Text.digits) ++
    match v.prerelease with
    | [] => []
    | ids => '-' :: Text.join '.' (ids.map String.toList)

/-- The text of a version. -/
def render (v : Version) : String :=
  String.ofList v.chars

end Version

end Lineage
