/-
Texts from bytes that may be no text.

Bytes that are UTF-8 are read as they are. Where they are not, the replacement character stands for
the longest start of a character that could go on, or for a single byte that starts none.
-/

namespace Lineage.Text

/-- The character that a whole list of bytes is. -/
def charOfBytes? (bs : List UInt8) : Option Char :=
  match (String.fromUTF8? ⟨bs.toArray⟩).map String.toList with
  | some [c] => some c
  | _ => none

/-- The character at the start of some bytes, with how many bytes it takes. -/
def firstChar? (bs : List UInt8) : Option (Char × Nat) :=
  [1, 2, 3, 4].findSome? fun n => (charOfBytes? (bs.take n)).map fun c => (c, n)

/-- Whether two bytes can start a character of three bytes or more. -/
def canStart (first second : UInt8) : Bool :=
  [(0xe0, 0xe0, 0xa0, 0xbf), (0xe1, 0xec, 0x80, 0xbf), (0xed, 0xed, 0x80, 0x9f),
    (0xee, 0xef, 0x80, 0xbf), (0xf0, 0xf0, 0x90, 0xbf), (0xf1, 0xf3, 0x80, 0xbf),
    (0xf4, 0xf4, 0x80, 0x8f)].any fun (low, high, least, greatest) =>
      low ≤ first ∧ first ≤ high ∧ least ≤ second ∧ second ≤ greatest

/-- How many bytes at the start of some that start no character count as one fault. -/
def faultLength : List UInt8 → Nat
  | a :: b :: c :: _ =>
    if canStart a b then if 0xf0 ≤ a ∧ 0x80 ≤ c ∧ c ≤ 0xbf then 3 else 2 else 1
  | [a, b] => if canStart a b then 2 else 1
  | _ => 1

/-- The character that stands for bytes that are no text. -/
def replacement : Char := '\ufffd'

/-- The characters of `fuel` bytes at most. -/
def decodeLossyWithin : Nat → List UInt8 → List Char
  | 0, _ => []
  | _, [] => []
  | fuel + 1, bs =>
    match firstChar? bs with
    | some (c, n) => c :: decodeLossyWithin fuel (bs.drop n)
    | none => replacement :: decodeLossyWithin fuel (bs.drop (faultLength bs))

/-- The characters that bytes stand for. Each takes at least one byte. -/
def decodeLossy (bs : List UInt8) : List Char :=
  decodeLossyWithin bs.length bs

end Lineage.Text
