/-
The shortest decimal that reads back as a given floating-point number.

The reals that round to a number form an interval around it, whose ends belong to it exactly when
the magnitude is even. `shortest` tries one, two, … seventeen digits: the first decimal grid with a
point in the interval wins, of two such points the nearer one, and of two equally near ones the one
with an even last digit. `Layout` says how the digits are set out.
-/

import Lineage.Binary64
import Lineage.Text.Numeral

namespace Lineage.Binary64

/-- A positive decimal `digits · 10^exponent`. -/
structure Decimal where
  digits : Nat
  exponent : Int
deriving DecidableEq, Repr

/-- `x · 10^k` as a fraction, where `x` counts units. -/
def scaled (x : Nat) (k : Int) : Nat × Nat :=
  if 0 ≤ k then (x * tenTo k.natAbs, one) else (x, one * tenTo k.natAbs)

/-- The decimal exponent of the leading digit of a positive value in units. -/
def leadingExponent (x : Nat) : Int :=
  ((Text.digits (x * tenTo 400 / one)).length : Int) - 401

/-- Whether `n · 10^k` lies in the interval of reals that round to magnitude `w`. -/
def roundsTo (w : Nat) (n : Nat) (k : Int) : Bool :=
  let low := units (w - 1) + units w
  let high := units w + units (w + 1)
  let (point, unit) := if 0 ≤ k then (n * tenTo k.natAbs * one, 1) else (n * one, tenTo k.natAbs)
  let doubled := 2 * point
  if w % 2 = 0 then low * unit ≤ doubled && doubled ≤ high * unit
  else low * unit < doubled && doubled < high * unit

/-- The best point of the grid of multiples of `10^k` for magnitude `w`, if one rounds to it. -/
def onGrid? (w : Nat) (k : Int) : Option Nat :=
  let (num, den) := scaled (units w) (-k)
  let below := num / den
  let rest := num % den
  match roundsTo w below k, roundsTo w (below + 1) k with
  | true, true =>
    some (if 2 * rest < den then below
      else if den < 2 * rest then below + 1
      else below + below % 2)
  | true, false => some below
  | false, true => some (below + 1)
  | false, false => none

/-- The decimal without the zeros at the end of its digits. -/
def Decimal.normalize (d : Decimal) : Nat → Decimal
  | 0 => d
  | fuel + 1 =>
    if d.digits ≠ 0 ∧ d.digits % 10 = 0 then
      Decimal.normalize ⟨d.digits / 10, d.exponent + 1⟩ fuel
    else d

/-- The first grid with a point for magnitude `w`, from the coarsest one on. -/
def firstGrid (w : Nat) (k : Int) : Nat → Decimal
  | 0 => ⟨(onGrid? w k).getD 0, k⟩
  | fuel + 1 =>
    match onGrid? w k with
    | some n => ⟨n, k⟩
    | none => firstGrid w (k - 1) fuel

/-- The shortest decimal that reads back as a positive magnitude. -/
def shortest (w : Nat) : Decimal :=
  (firstGrid w (leadingExponent (units w)) 17).normalize 20

/-- How the digits of a number are set out: the range of exponents of the leading digit that is
written without an exponent, and whether a positive exponent has a sign. -/
structure Layout where
  lowestPositional : Int
  highestPositional : Int
  plusSign : Bool

/-- The text of a decimal: positional with at least one digit on either side of the point, or one
digit before the point and an exponent. -/
def Layout.decimal (layout : Layout) (d : Decimal) : List Char :=
  let ds := Text.digits d.digits
  let lead := d.exponent + ds.length - 1
  if layout.lowestPositional ≤ lead && lead ≤ layout.highestPositional then
    if 0 ≤ d.exponent then ds ++ List.replicate d.exponent.natAbs '0' ++ ['.', '0']
    else if 0 ≤ lead then
      let whole := lead.natAbs + 1
      ds.take whole ++ '.' :: ds.drop whole
    else '0' :: '.' :: List.replicate (lead.natAbs - 1) '0' ++ ds
  else
    let mantissa :=
      match ds with
      | [c] => [c]
      | c :: cs => c :: '.' :: cs
      | [] => []
    let sign := if lead < 0 then ['-'] else if layout.plusSign then ['+'] else []
    mantissa ++ 'e' :: sign ++ Text.digits lead.natAbs

/-- The text of a number: `0.0` for zero, the shortest decimal otherwise, after a minus sign if the
number is negative. -/
def Layout.text (layout : Layout) (x : Binary64) : List Char :=
  let body :=
    if x.magnitude.val = 0 then ['0', '.', '0'] else layout.decimal (shortest x.magnitude)
  if x.negative then '-' :: body else body

end Lineage.Binary64
