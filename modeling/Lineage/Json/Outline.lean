/-
What a text holds as JSON, up to the first place where it stops being JSON.

An outline is a tree that may be broken: a value that does not start, an array or object that does
not end. Reading a record from it goes through the tree in the order of the text, so a member of the
wrong kind is found before a fault that stands further on. Strings that hold no text and numerals
that are too large keep their place in the tree without a value. What is no string in the place of
a member's name ends the object.
-/

import Lineage.Json.Token

namespace Lineage.Json

/-- A value as far as it can be read. -/
inductive Outline where
  | broken
  | null
  | bool (b : Bool)
  | number (n : Option Number)
  | string (s : Option String)
  | array (elements : List Outline) (closed : Bool)
  | object (members : List (Option String × Outline)) (closed : Bool)
deriving Repr, Inhabited

/-- The four characters that may stand between tokens. -/
def isSpace (c : Char) : Bool :=
  c == ' ' || c == '\t' || c == '\n' || c == '\r'

/-- The text from the next token on. -/
def skipSpace (cs : List Char) : List Char :=
  cs.dropWhile isSpace

/-- What follows a word at the start of a text, if it stands there. -/
def afterWord? (word cs : List Char) : Option (List Char) :=
  if cs.take word.length = word then some (cs.drop word.length) else none

/-- The string whose opening quote has been read, and what follows it. -/
def stringToken? (cs : List Char) : Option (Option String × List Char) := do
  let (ps, rest) ← pieces? cs
  return ((assemble ps).map String.ofList, rest)

namespace Outline

/-- An outline, and what follows it in the text unless it is broken somewhere. -/
abbrev Read := Outline × Option (List Char)

/-- The value without parts at the start of a text. -/
def ofToken (cs : List Char) : Read :=
  match cs with
  | '"' :: rest =>
    match stringToken? rest with
    | some (s, rest) => (.string s, some rest)
    | none => (.broken, none)
  | 'n' :: _ =>
    match afterWord? ['n', 'u', 'l', 'l'] cs with
    | some rest => (.null, some rest)
    | none => (.broken, none)
  | 't' :: _ =>
    match afterWord? ['t', 'r', 'u', 'e'] cs with
    | some rest => (.bool true, some rest)
    | none => (.broken, none)
  | 'f' :: _ =>
    match afterWord? ['f', 'a', 'l', 's', 'e'] cs with
    | some rest => (.bool false, some rest)
    | none => (.broken, none)
  | _ =>
    match numeral? cs with
    | some (n, rest) => (.number n.number?, some rest)
    | none => (.broken, none)

mutual

/-- The value at the start of a text. Every call reads a character or is the next part of the value
that its caller reads, so a fuel of twice the length of the text is enough. -/
def ofChars : Nat → List Char → Read
  | 0, _ => (.broken, none)
  | fuel + 1, cs =>
    match skipSpace cs with
    | '[' :: rest =>
      match skipSpace rest with
      | ']' :: rest => (.array [] true, some rest)
      | rest =>
        match elements fuel rest with
        | (xs, some rest) => (.array xs true, some rest)
        | (xs, none) => (.array xs false, none)
    | '\x7b' :: rest =>
      match skipSpace rest with
      | '\x7d' :: rest => (.object [] true, some rest)
      | rest =>
        match members fuel rest with
        | (ms, some rest) => (.object ms true, some rest)
        | (ms, none) => (.object ms false, none)
    | cs => ofToken cs

/-- The elements of an array from the next one on, and what follows the closing bracket. -/
def elements : Nat → List Char → List Outline × Option (List Char)
  | 0, _ => ([], none)
  | fuel + 1, cs =>
    match ofChars fuel cs with
    | (x, none) => ([x], none)
    | (x, some rest) =>
      match skipSpace rest with
      | ']' :: rest => ([x], some rest)
      | ',' :: rest =>
        let (xs, rest) := elements fuel rest
        (x :: xs, rest)
      | _ => ([x], none)

/-- The members of an object from the next one on, and what follows the closing brace. -/
def members : Nat → List Char → List (Option String × Outline) × Option (List Char)
  | 0, _ => ([], none)
  | fuel + 1, cs =>
    match skipSpace cs with
    | '"' :: rest =>
      match stringToken? rest with
      | none => ([], none)
      | some (name, rest) =>
        match skipSpace rest with
        | ':' :: rest =>
          match ofChars fuel rest with
          | (x, none) => ([(name, x)], none)
          | (x, some rest) =>
            match skipSpace rest with
            | '\x7d' :: rest => ([(name, x)], some rest)
            | ',' :: rest =>
              let (ms, rest) := members fuel rest
              ((name, x) :: ms, rest)
            | _ => ([(name, x)], none)
        | _ => ([(name, .broken)], none)
    | _ => ([], none)

end

mutual

/-- Whether nothing in a value is broken. This is all that is asked of a value that is passed over:
it may nest without bound, and its strings and numerals need not have a value. -/
def intact : Outline → Bool
  | .broken => false
  | .array xs closed => intactElements xs && closed
  | .object ms closed => intactMembers ms && closed
  | _ => true
termination_by structural x => x

/-- Whether nothing in any element is broken. -/
def intactElements : List Outline → Bool
  | [] => true
  | x :: xs => intact x && intactElements xs
termination_by structural x => x

/-- Whether nothing in any member is broken. -/
def intactMembers : List (Option String × Outline) → Bool
  | [] => true
  | (_, x) :: ms => intact x && intactMembers ms
termination_by structural x => x

end

end Outline

/-- The outline of a text, and whether nothing but space follows the value in it. -/
def outline (s : String) : Outline × Bool :=
  let cs := s.toList
  match Outline.ofChars (2 * cs.length + 1) cs with
  | (x, some rest) => (x, (skipSpace rest).isEmpty)
  | (x, none) => (x, false)

end Lineage.Json
