/-
Finite 64-bit binary floating-point numbers, as exact data.

A number is a sign and a magnitude, and the magnitudes are numbered in increasing order: magnitude
`w + 1` is the next representable number after magnitude `w`. `units` gives the exact value of a
magnitude in units of 2⁻¹⁰⁷⁴, so every operation here is arithmetic on natural numbers. Rounding is
to nearest, and a tie goes to the even magnitude.

`ofDecimal?` reads a decimal as a whole significand scaled by one multiplication or division with a
power of ten. `Shortest` (in `Lineage.Binary64.Shortest`) writes one with the fewest digits.
-/

namespace Lineage

/-- The number of magnitudes between two neighbouring powers of two, 2⁵². -/
abbrev Binary64.binade : Nat := 4503599627370496

/-- The number of finite magnitudes, zero included. -/
abbrev Binary64.magnitudes : Nat := 2047 * Binary64.binade

/-- A finite 64-bit floating-point number: its sign and the index of its magnitude. -/
structure Binary64 where
  negative : Bool
  magnitude : Fin Binary64.magnitudes
deriving DecidableEq, Repr

namespace Binary64

/-- The value of a magnitude, in units of 2⁻¹⁰⁷⁴. The magnitudes of the lowest binade are the
multiples of one unit, and so are those of the next one; from there on each binade has steps twice
as wide as the one before it. -/
def units (w : Nat) : Nat :=
  if w < binade then w else (binade + w % binade) <<< (w / binade - 1)

/-- Two numbers are equal when they denote the same real number, so both zeros are equal. -/
def equal (a b : Binary64) : Bool :=
  a.magnitude = b.magnitude && (a.negative = b.negative || a.magnitude.val = 0)

/-- The zero without a sign. -/
def zero : Binary64 := ⟨false, ⟨0, by decide⟩⟩

/-- The same number with the opposite sign. -/
def neg (x : Binary64) : Binary64 :=
  { x with negative := !x.negative }

/-- The integer nearest to `num / den`, the even one when two are nearest. -/
def roundToEven (num den : Nat) : Nat :=
  let q := num / den
  let r := num % den
  if 2 * r < den then q
  else if den < 2 * r then q + 1
  else q + q % 2

/-- The magnitude nearest to `num / den` units, or none beyond the largest finite one. -/
def ofUnits? (num den : Nat) : Option (Fin magnitudes) :=
  let shift := Nat.log2 (num / den) - 52
  let w := shift * binade + roundToEven num (den <<< shift)
  if h : w < magnitudes then some ⟨w, h⟩ else none

/-- One, in units. -/
def one : Nat := 1 <<< 1074

/-- The natural number `10^k`. -/
def tenTo (k : Nat) : Nat :=
  Nat.pow 10 k

/-- The number nearest to a natural number. -/
def ofNat? (n : Nat) : Option Binary64 :=
  (ofUnits? (n * one) 1).map (⟨false, ·⟩)

/-- The product of two numbers, rounded; none when it is too large. -/
def mul? (a b : Binary64) : Option Binary64 :=
  (ofUnits? (units a.magnitude * units b.magnitude) one).map (⟨a.negative != b.negative, ·⟩)

/-- The quotient of two numbers, rounded; none when it is too large. -/
def div? (a b : Binary64) : Option Binary64 :=
  (ofUnits? (units a.magnitude * one) (units b.magnitude)).map (⟨a.negative != b.negative, ·⟩)

/-- The largest exponent of ten that has a finite number. -/
def maxPower : Nat := 308

/-- The number nearest to a power of ten, for exponents up to `maxPower`. -/
def powerOfTen (k : Nat) : Binary64 :=
  (ofNat? (tenTo k)).getD zero

/-- `x · 10^k` by one multiplication or division where `k` allows it; a smaller exponent is first
brought into range by divisions with the largest power, `fuel` times at most. None when the result
is too large. -/
def scaleWithin? (x : Binary64) (k : Int) : Nat → Option Binary64
  | 0 => some zero
  | fuel + 1 =>
    if k.natAbs ≤ maxPower then
      if 0 ≤ k then x.mul? (powerOfTen k.natAbs) else x.div? (powerOfTen k.natAbs)
    else if x.magnitude.val = 0 then some x
    else if 0 ≤ k then none
    else (x.div? (powerOfTen maxPower)).bind fun y => scaleWithin? y (k + maxPower) fuel

/-- `x · 10^k`, or none when it is too large. -/
def scale? (x : Binary64) (k : Int) : Option Binary64 :=
  scaleWithin? x k (k.natAbs / maxPower + 1)

/-- The number that a significand and a decimal exponent denote, rounded at each step. -/
def ofDecimal? (negative : Bool) (significand : Nat) (exponent : Int) : Option Binary64 := do
  let x ← ofNat? significand
  let y ← x.scale? exponent
  return if negative then y.neg else y

end Binary64

end Lineage
