/-
The text of a JSON document.

`Json.text` writes a document without any space, `Json.pretty` one member or element a line,
indented by two spaces for each level. Strings keep every character but the quote, the backslash
and the control characters below U+0020.
-/

import Lineage.Json.Value
import Lineage.Binary64.Shortest

namespace Lineage

/-- Numbers stand without an exponent from 10⁻⁵ up to below 10¹⁶, and exponents have a sign. -/
def Number.layout : Binary64.Layout := ⟨-5, 15, true⟩

/-- The text of a number. -/
def Number.chars : Number → List Char
  | .integer n => if n < 0 then '-' :: Text.digits n.natAbs else Text.digits n.natAbs
  | .real x => Number.layout.text x

/-- The text of a number. -/
def Number.text (n : Number) : String :=
  String.ofList n.chars

namespace Json

/-- How one character is written in a string. -/
def escapedChar (c : Char) : List Char :=
  if c = '"' ∨ c = '\\' then ['\\', c]
  else if c.toNat = 8 then ['\\', 'b']
  else if c.toNat = 9 then ['\\', 't']
  else if c.toNat = 10 then ['\\', 'n']
  else if c.toNat = 12 then ['\\', 'f']
  else if c.toNat = 13 then ['\\', 'r']
  else if c.toNat < 32 then
    ['\\', 'u', '0', '0', Nat.digitChar (c.toNat / 16), Nat.digitChar (c.toNat % 16)]
  else [c]

/-- A string in quotes. -/
def stringChars (s : String) : List Char :=
  '"' :: s.toList.flatMap escapedChar ++ ['"']

mutual

/-- The characters of a document, without any space. -/
def chars : Json → List Char
  | .null => ['n', 'u', 'l', 'l']
  | .bool true => ['t', 'r', 'u', 'e']
  | .bool false => ['f', 'a', 'l', 's', 'e']
  | .number n => n.chars
  | .string s => stringChars s
  | .array xs => '[' :: elementChars xs ++ [']']
  | .object ms => '\x7b' :: memberChars ms ++ ['\x7d']
termination_by structural x => x

/-- The elements of an array with commas between them. -/
def elementChars : List Json → List Char
  | [] => []
  | [x] => chars x
  | x :: xs => chars x ++ ',' :: elementChars xs
termination_by structural x => x

/-- The members of an object with commas between them. -/
def memberChars : List (String × Json) → List Char
  | [] => []
  | [(name, x)] => stringChars name ++ ':' :: chars x
  | (name, x) :: ms => stringChars name ++ ':' :: chars x ++ ',' :: memberChars ms
termination_by structural x => x

end

/-- The text of a document, without any space. -/
def text (x : Json) : String :=
  String.ofList x.chars

/-- A new line at a level of nesting. -/
def newline (level : Nat) : List Char :=
  '\n' :: List.replicate (2 * level) ' '

mutual

/-- The characters of a document at a level of nesting, one member or element a line. -/
def prettyChars (level : Nat) : Json → List Char
  | .array [] => ['[', ']']
  | .array xs => '[' :: prettyElements level xs ++ newline level ++ [']']
  | .object [] => ['\x7b', '\x7d']
  | .object ms => '\x7b' :: prettyMembers level ms ++ newline level ++ ['\x7d']
  | .null => ['n', 'u', 'l', 'l']
  | .bool true => ['t', 'r', 'u', 'e']
  | .bool false => ['f', 'a', 'l', 's', 'e']
  | .number n => n.chars
  | .string s => stringChars s
termination_by structural x => x

/-- The elements of an array, each on a line of its own one level deeper. -/
def prettyElements (level : Nat) : List Json → List Char
  | [] => []
  | [x] => newline (level + 1) ++ prettyChars (level + 1) x
  | x :: xs => newline (level + 1) ++ prettyChars (level + 1) x ++ ',' :: prettyElements level xs
termination_by structural x => x

/-- The members of an object, each on a line of its own one level deeper. -/
def prettyMembers (level : Nat) : List (String × Json) → List Char
  | [] => []
  | [(name, x)] =>
    newline (level + 1) ++ stringChars name ++ ':' :: ' ' :: prettyChars (level + 1) x
  | (name, x) :: ms =>
    newline (level + 1) ++ stringChars name ++ ':' :: ' ' :: prettyChars (level + 1) x ++
      ',' :: prettyMembers level ms
termination_by structural x => x

end

/-- The text of a document, one member or element a line. -/
def pretty (x : Json) : String :=
  String.ofList (x.prettyChars 0)

end Json

end Lineage
