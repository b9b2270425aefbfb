/-
The strings and numerals of a JSON text.

Each reader takes the characters from the start of a token and gives the token and what follows it,
or nothing when no token stands there. A string may be well written and still hold no text, because
an escaped half of a surrogate pair stands alone; `assemble` decides that. A numeral may be well
written and still be no number, because it is too large; `Numeral.number?` decides that.
-/

import Lineage.Json.Value
import Lineage.Text.Numeral

namespace Lineage.Json

/-! ### Strings -/

/-- A piece of a string: a character, or a 16-bit unit that is written as four digits. -/
inductive Piece where
  | char (c : Char)
  | unit (n : Nat)
deriving DecidableEq, Repr

/-- The unit that four hexadecimal digits denote. -/
def unit? (a b c d : Char) : Option Nat :=
  Text.hexNumber? [a, b, c, d]

/-- The character that a letter after a backslash stands for. -/
def escapeLetter? (c : Char) : Option Char :=
  if c = '"' ∨ c = '\\' ∨ c = '/' then some c
  else if c = 'b' then some '\x08'
  else if c = 'f' then some '\x0c'
  else if c = 'n' then some '\n'
  else if c = 'r' then some '\r'
  else if c = 't' then some '\t'
  else none

/-- The pieces of a string up to its closing quote, and what follows the quote. -/
def pieces? : List Char → Option (List Piece × List Char)
  | [] => none
  | '"' :: rest => some ([], rest)
  | '\\' :: 'u' :: a :: b :: c :: d :: rest => do
    let n ← unit? a b c d
    let (ps, rest) ← pieces? rest
    return (.unit n :: ps, rest)
  | '\\' :: e :: rest => do
    let c ← escapeLetter? e
    let (ps, rest) ← pieces? rest
    return (.char c :: ps, rest)
  | c :: rest =>
    if c.toNat < 32 ∨ c = '\\' then none
    else do
      let (ps, rest) ← pieces? rest
      return (.char c :: ps, rest)

/-- The characters of a string. A high and a low surrogate in this order make one character; any
other surrogate makes the string unreadable. -/
def assemble : List Piece → Option (List Char)
  | [] => some []
  | .char c :: ps => (assemble ps).map (c :: ·)
  | .unit n :: ps =>
    if n < 0xd800 ∨ 0xdfff < n then (assemble ps).map (Char.ofNat n :: ·)
    else if 0xdc00 ≤ n then none
    else
      match ps with
      | .unit m :: ps =>
        if 0xdc00 ≤ m ∧ m ≤ 0xdfff then
          (assemble ps).map (Char.ofNat (0x10000 + (n - 0xd800) * 0x400 + (m - 0xdc00)) :: ·)
        else none
      | _ => none

/-! ### Numerals -/

/-- A numeral as it is written: the sign, the digits before the point, the digits after it if there
is a point, and the exponent if there is one. -/
structure Numeral where
  negative : Bool
  whole : List Char
  fraction : Option (List Char)
  exponent : Option Int
deriving DecidableEq, Repr

/-- The digits at the start of a text, at least one, and what follows them. -/
def digitRow? (cs : List Char) : Option (List Char × List Char) :=
  match cs.takeWhile Char.isDigit with
  | [] => none
  | ds => some (ds, cs.dropWhile Char.isDigit)

/-- The digits before the point: a single zero, or digits that do not start with one. -/
def wholePart? (cs : List Char) : Option (List Char × List Char) := do
  let (ds, rest) ← digitRow? cs
  if ds.head? = some '0' ∧ ds.length ≠ 1 then none else return (ds, rest)

/-- The digits after the point, if a point stands here. -/
def fractionPart? : List Char → Option (Option (List Char) × List Char)
  | '.' :: rest => do
    let (ds, rest) ← digitRow? rest
    return (some ds, rest)
  | cs => some (none, cs)

/-- The exponent, if one stands here. -/
def exponentPart? : List Char → Option (Option Int × List Char)
  | 'e' :: rest | 'E' :: rest => do
    let (negative, rest) : Bool × List Char :=
      match rest with
      | '-' :: rest => (true, rest)
      | '+' :: rest => (false, rest)
      | rest => (false, rest)
    let (ds, rest) ← digitRow? rest
    let n : Int := Text.value ds
    return (some (if negative then -n else n), rest)
  | cs => some (none, cs)

/-- The numeral at the start of a text, and what follows it. -/
def numeral? (cs : List Char) : Option (Numeral × List Char) := do
  let (negative, cs) : Bool × List Char :=
    match cs with
    | '-' :: rest => (true, rest)
    | cs => (false, cs)
  let (whole, cs) ← wholePart? cs
  let (fraction, cs) ← fractionPart? cs
  let (exponent, cs) ← exponentPart? cs
  return (⟨negative, whole, fraction, exponent⟩, cs)

/-! ### The number that a numeral denotes -/

/-- The largest significand that is kept, 2⁶⁴ - 1. -/
def maxSignificand : Nat := 18446744073709551615

/-- The largest magnitude of a negative integer, 2⁶³. -/
def maxNegative : Nat := 9223372036854775808

/-- Adds digits to a significand as long as it stays within `maxSignificand`, and gives it with the
digits that are left over. -/
def accumulate (significand : Nat) : List Char → Nat × List Char
  | [] => (significand, [])
  | d :: ds =>
    let next := 10 * significand + (d.toNat - '0'.toNat)
    if next ≤ maxSignificand then accumulate next ds else (significand, d :: ds)

namespace Numeral

/-- The significand and the decimal exponent. Digits that do not fit are dropped; before the point
each of them raises the exponent, after it each digit that is kept lowers it. -/
def scientific (n : Numeral) : Nat × Int :=
  let (significand, dropped) := accumulate 0 n.whole
  let fraction := n.fraction.getD []
  let (significand, lost) := accumulate significand fraction
  (significand, (dropped.length : Int) - (fraction.length - lost.length) + n.exponent.getD 0)

/-- A numeral without point and exponent is an integer if it lies in the range of integers and is
not a negative zero; every other one is the floating-point number that it is scaled to, if there is
one. -/
def number? (n : Numeral) : Option Number :=
  let size := Text.value n.whole
  let (significand, exponent) := n.scientific
  let real := (Binary64.ofDecimal? n.negative significand exponent).map Number.real
  if n.fraction.isSome ∨ n.exponent.isSome then real
  else if n.negative then
    if 0 < size ∧ size ≤ maxNegative then some (.integer (-size)) else real
  else if size ≤ maxSignificand then some (.integer size)
  else real

end Numeral

end Lineage.Json
