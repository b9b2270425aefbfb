/-
Edits of the raw table that bypass the store.

Such an edit puts any text, or no value, into one column of the row with a given id. Only the rules
of the table itself still hold: columns that must have a value, and the two unique keys. A text that
denotes an integer becomes a number in a column of time.
-/

import Lineage.Store.Table

namespace Lineage

namespace TimeCell

/-- Whether a character may stand around a number. -/
def isSpace (c : Char) : Bool :=
  c == ' ' || ('\t' ≤ c && c ≤ '\r')

/-- The decimal that a text is: digits after an optional sign, of which the point may be the first
or the last character, and an exponent, with spaces around all. -/
def decimal? (s : String) : Option Json.Numeral := do
  let cs := ((s.toList.dropWhile isSpace).reverse.dropWhile isSpace).reverse
  let (negative, cs) : Bool × List Char :=
    match cs with
    | '-' :: cs => (true, cs)
    | '+' :: cs => (false, cs)
    | cs => (false, cs)
  let whole := cs.takeWhile Char.isDigit
  let (fraction, cs) : Option (List Char) × List Char :=
    match cs.dropWhile Char.isDigit with
    | '.' :: cs => (some (cs.takeWhile Char.isDigit), cs.dropWhile Char.isDigit)
    | cs => (none, cs)
  let (exponent, cs) ← Json.exponentPart? cs
  if cs.isEmpty ∧ Text.isDigits (whole ++ fraction.getD []) then
    return ⟨negative, whole, fraction, exponent⟩
  else none

/-- The floating-point number nearest to `n · 10^k`, if it is an integer of at most twenty digits. A
number below every magnitude is zero. -/
def integerNear? (n : Nat) (k : Int) : Option Nat := do
  let places := (Text.digits n).length + k
  if n = 0 ∨ places < -400 then some 0
  else if 20 < places then none
  else
    let w ← Binary64.ofUnits? (n * Binary64.tenTo k.toNat * Binary64.one)
      (Binary64.tenTo (-k).toNat)
    let units := Binary64.units w
    if units % Binary64.one = 0 then some (units / Binary64.one) else none

/-- What a text becomes in a column of time. An integer of 64 bits becomes that number. A decimal
with a point or an exponent is rounded to a floating-point number, which becomes an integer if it
is one and lies strictly inside the range. -/
def ofText (s : String) : TimeCell :=
  match decimal? s with
  | none => .text s
  | some d =>
    let signed (n : Nat) : Int := if d.negative then -n else n
    match d.fraction, d.exponent with
    | none, none =>
      let n := signed (Text.value d.whole)
      if Int64.minValue.toInt ≤ n ∧ n ≤ Int64.maxValue.toInt then .millis (Int64.ofInt n)
      else .text s
    | _, _ =>
      let fraction := d.fraction.getD []
      match integerNear? (Text.value (d.whole ++ fraction))
          (d.exponent.getD 0 - fraction.length) with
      | none => .text s
      | some m =>
        let n := signed m
        if Int64.minValue.toInt < n ∧ n < Int64.maxValue.toInt then .millis (Int64.ofInt n)
        else .text s

end TimeCell

/-- The row with a value in one of its columns, or none if the column must have a value or does not
exist. -/
def Row.set? (row : Row) (column : String) (value : Option String) : Option Row :=
  match column, value with
  | "id", some s => some { row with id := s }
  | "definition_id", some s => some { row with definitionId := s }
  | "tenant_id", value => some { row with tenantId := value }
  | "version", some s => some { row with version := s }
  | "name", value => some { row with name := value }
  | "purpose", value => some { row with purpose := value }
  | "definition_payload", some s => some { row with payload := s }
  | "created_at", some s => some { row with createdAt := .ofText s }
  | "last_updated_at", some s => some { row with lastUpdatedAt := .ofText s }
  | _, _ => none

/-- Puts a value into a column of the row with the given id text, and counts the rows that are
changed; none if the table does not allow it. -/
def Table.edit? (t : Table) (id column : String) (value : Option String) : Option (Nat × Table) :=
  match t.rows.find? (·.id = id) with
  | none => some (0, t)
  | some stored => do
    let row ← stored.set? column value
    match t.obstacle? row (t.rows.filter (·.id ≠ id)) with
    | some _ => none
    | none =>
      some (1, { t with rows := t.rows.map fun other => if other.id = id then row else other })

end Lineage
