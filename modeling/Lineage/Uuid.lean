/-
Item identifiers: 128-bit numbers with a hexadecimal text.

`Uuid.text` writes the 32 lower-case digits in groups of 8, 4, 4, 4 and 12 with hyphens between
them. `Uuid.parse?` reads that form in either case, the bare 32 digits, the form in braces, and the
form after `urn:uuid:`.
-/

import Lineage.Text.Numeral

namespace Lineage

/-- An item identifier. -/
structure Uuid where
  bits : BitVec 128
deriving DecidableEq, Repr

namespace Uuid

/-- The 32 digits of an identifier. -/
def digits (id : Uuid) : List Char :=
  Text.hexDigits 32 id.bits.toNat

/-- Sets out 32 digits in groups of 8, 4, 4, 4 and 12. -/
def grouped (cs : List Char) : List Char :=
  cs.take 8 ++ '-' :: (cs.drop 8).take 4 ++ '-' :: (cs.drop 12).take 4 ++
    '-' :: (cs.drop 16).take 4 ++ '-' :: cs.drop 20

/-- The lower-case hyphenated text of an identifier. -/
def text (id : Uuid) : String :=
  String.ofList (grouped id.digits)

/-- Reads 32 digits without hyphens. -/
def ofDigits? (cs : List Char) : Option Uuid :=
  if cs.length = 32 then (Text.hexNumber? cs).map fun n => ⟨BitVec.ofNat 128 n⟩ else none

/-- Reads the hyphenated form: the digits that are left without the hyphens, set out in groups, must
give the same text. -/
def ofGrouped? (cs : List Char) : Option Uuid :=
  let ds := cs.filter (· ≠ '-')
  if grouped ds = cs then ofDigits? ds else none

/-- The text without the braces around it, if it stands in braces. -/
def unbraced? (cs : List Char) : Option (List Char) :=
  match cs with
  | '\x7b' :: rest => if rest.getLast? = some '\x7d' then some rest.dropLast else none
  | _ => none

/-- The text after `urn:uuid:` in either case, if it starts so. -/
def unprefixed? (cs : List Char) : Option (List Char) :=
  let mark := "urn:uuid:".toList
  if (cs.take mark.length).map Char.toLower = mark then some (cs.drop mark.length) else none

/-- Reads an identifier in any of its forms. -/
def parse? (s : String) : Option Uuid :=
  let cs := s.toList
  if cs.length = 32 then ofDigits? cs
  else if cs.length = 36 then ofGrouped? cs
  else if cs.length = 38 then (unbraced? cs).bind ofGrouped?
  else if cs.length = 45 then (unprefixed? cs).bind ofGrouped?
  else none

/-- The bits that tell how an identifier came about: a version of four bits and a variant of two. -/
def markBits : BitVec 128 :=
  0xf#128 <<< 76 ||| 0x3#128 <<< 62

/-- The identifier made of random bits: version 4, variant 2. -/
def ofRandom (bits : BitVec 128) : Uuid :=
  ⟨(bits &&& ~~~markBits) ||| 0x4#128 <<< 76 ||| 0x2#128 <<< 62⟩

end Uuid

end Lineage
