/-
Reading typed values from a JSON text.

A `Decoder` turns an outline into a value or gives the cause of the first failure in the order of
the text. A record is read from an object, whose unknown members are passed over, or from an array
of its fields in their order. Every array and object that is read takes one of the `maxDepth` levels
of nesting; a text that nests deeper is malformed.
-/

import Lineage.Json.Outline
import Lineage.Json.Printer
import Lineage.Text.Quoted
import Lineage.Uuid

namespace Lineage

/-- What stands in a text instead of the value that is expected. -/
inductive Json.Found where
  | null
  | bool (b : Bool)
  | number (n : Number)
  | string (s : String)
  | sequence
  | map
deriving Repr

/-- The kind of value that is expected. -/
inductive Json.Expected where
  | text
  | integer
  | unit
  | sequence
  | uuid
  | record (name : String)
deriving DecidableEq, Repr

/-- The cause of a failure to read a value from a JSON text. -/
inductive ReadError where
  /-- The text is not JSON, nests too deep, or is followed by more text. -/
  | malformed
  | missingField (name : String)
  | duplicateField (name : String)
  | unknownVariant (name : String) (variants : List String)
  | wrongLength (found : Nat) (record : String) (size : Nat)
  | outOfRange (n : Int)
  | unexpected (found : Json.Found) (expected : Json.Expected)
  | notUuid
deriving Repr

/-- How a found value is named in a message. -/
def Json.Found.describe : Found → String
  | .null => "null"
  | .bool b => s!"boolean `{b}`"
  | .number (.integer n) => s!"integer `{n}`"
  | .number (.real x) => "floating point `" ++ (Number.real x).text ++ "`"
  | .string s => "string " ++ Text.quoted s
  | .sequence => "sequence"
  | .map => "map"

/-- How an expected value is named in a message. -/
def Json.Expected.describe : Expected → String
  | .text => "a string"
  | .integer => "i64"
  | .unit => "unit"
  | .sequence => "a sequence"
  | .uuid => "a formatted UUID string"
  | .record name => s!"struct {name}"

/-- The text of a failure. -/
def ReadError.message : ReadError → String
  | .malformed => "<syntax>"
  | .missingField name => s!"missing field `{name}`"
  | .duplicateField name => s!"duplicate field `{name}`"
  | .unknownVariant name variants =>
    s!"unknown variant `{name}`, expected one of " ++
      ", ".intercalate (variants.map fun v => s!"`{v}`")
  | .wrongLength found record size =>
    s!"invalid length {found}, expected struct {record} with {size} elements"
  | .outOfRange n => s!"invalid value: integer `{n}`, expected i64"
  | .unexpected found expected =>
    s!"invalid type: {found.describe}, expected {expected.describe}"
  | .notUuid => "UUID parsing failed"

namespace Json

/-- A text may nest arrays and objects less deep than this. -/
def maxDepth : Nat := 128

/-- Reads a value from an outline, when the given number of levels of nesting is left. -/
abbrev Decoder (α : Type) := Nat → Outline → Except ReadError α

/-- Goes one level deeper. -/
def Decoder.nested {α : Type} (levels : Nat) (read : Nat → Except ReadError α) :
    Except ReadError α :=
  match levels with
  | 0 | 1 => .error .malformed
  | deeper + 1 => read deeper

namespace Outline

/-! ### Documents -/

mutual

/-- The document that an outline holds, if all of it can be read. -/
def json? (levels : Nat) : Outline → Option Json
  | .broken => none
  | .null => some .null
  | .bool b => some (.bool b)
  | .number n => n.map Json.number
  | .string s => s.map Json.string
  | .array xs closed =>
    if levels ≤ 1 ∨ closed = false then none else (jsons? (levels - 1) xs).map Json.array
  | .object ms closed =>
    if levels ≤ 1 ∨ closed = false then none
    else (jsonMembers? (levels - 1) ms).map Json.ofMembers
termination_by structural x => x

/-- The documents of the elements of an array. -/
def jsons? (levels : Nat) : List Outline → Option (List Json)
  | [] => some []
  | x :: xs => do return (← json? levels x) :: (← jsons? levels xs)
termination_by structural x => x

/-- The names and documents of the members of an object. -/
def jsonMembers? (levels : Nat) : List (Option String × Outline) → Option (List (String × Json))
  | [] => some []
  | (name, x) :: ms => do return (← name, ← json? levels x) :: (← jsonMembers? levels ms)
termination_by structural x => x

end

/-! ### Values of one kind -/

/-- The failure that another kind of value is expected where this one stands. -/
def unexpected (x : Outline) (expected : Expected) : ReadError :=
  match x with
  | .broken | .number none | .string none => .malformed
  | .null => .unexpected .null expected
  | .bool b => .unexpected (.bool b) expected
  | .number (some n) => .unexpected (.number n) expected
  | .string (some s) => .unexpected (.string s) expected
  | .array .. => .unexpected .sequence expected
  | .object .. => .unexpected .map expected

end Outline

namespace Decoder

/-- Reads any document. -/
def json : Decoder Json := fun levels x =>
  match x.json? levels with
  | some value => .ok value
  | none => .error .malformed

/-- Reads a string. -/
def text : Decoder String := fun _ x =>
  match x with
  | .string (some s) => .ok s
  | x => .error (x.unexpected .text)

/-- Reads an identifier. -/
def uuid : Decoder Uuid := fun _ x =>
  match x with
  | .string (some s) =>
    match Uuid.parse? s with
    | some id => .ok id
    | none => .error .notUuid
  | x => .error (x.unexpected .uuid)

/-- Reads a 64-bit integer. -/
def int64 : Decoder Int64 := fun _ x =>
  match x with
  | .number (some (.integer n)) =>
    if Int64.minValue.toInt ≤ n ∧ n ≤ Int64.maxValue.toInt then .ok (Int64.ofInt n)
    else .error (.outOfRange n)
  | x => .error (x.unexpected .integer)

/-- Reads a value that may be left out or written `null`. -/
def optional {α : Type} (read : Decoder α) : Decoder (Option α) := fun levels x =>
  match x with
  | .null => .ok none
  | x => (read levels x).map some

/-- Reads a value that must be given where another record may leave it out. -/
def given {α : Type} (read : Decoder α) : Decoder (Option α) := fun levels x =>
  (read levels x).map some

/-- Reads one of several names. It may be a string, or the name of the only member of an object that
holds `null`. -/
def variant {α : Type} (choices : List (String × α)) : Decoder α := fun levels x =>
  let choose (name : String) : Except ReadError α :=
    match choices.lookup name with
    | some value => .ok value
    | none => .error (.unknownVariant name (choices.map Prod.fst))
  match x with
  | .string (some name) => choose name
  | .object ((name, x) :: rest) closed =>
    nested levels fun _ => do
      let value ← match name with
        | some name => choose name
        | none => throw .malformed
      match x with
      | .null => if rest.isEmpty && closed then return value else throw .malformed
      | x => throw (x.unexpected .unit)
  | _ => .error .malformed

/-- Reads the elements of an array. -/
def listOf {α : Type} (read : Decoder α) : Decoder (List α) := fun levels x =>
  match x with
  | .array xs closed =>
    nested levels fun levels => do
      let values ← xs.mapM (read levels)
      if closed then return values else throw .malformed
  | x => .error (x.unexpected .sequence)

end Decoder

/-! ### Records -/

/-- A field of a record that is filled in step by step: its name, whether it is filled in, and how
its value is put in. -/
structure Field (σ : Type) where
  name : String
  isFilled : σ → Bool
  fill : σ → Nat → Outline → Except ReadError σ

/-- The field with the given name, way to look it up and way to set it. -/
def Field.of {σ α : Type} (name : String) (get : σ → Option α) (set : σ → α → σ)
    (read : Decoder α) : Field σ where
  name := name
  isFilled := fun s => (get s).isSome
  fill := fun s levels x => (read levels x).map (set s)

/-- How a record is read: the name that messages give it, its fields in their order, and whether
fields may be missing at the end of an array. -/
structure Record (σ : Type) where
  name : String
  fields : List (Field σ)
  mayEndEarly : Bool

namespace Record

/-- Fills in the members of an object one after the other. -/
def fillMembers {σ : Type} (record : Record σ) (levels : Nat) :
    σ → List (Option String × Outline) → Except ReadError σ
  | s, [] => .ok s
  | s, (some name, x) :: ms =>
    match record.fields.find? (·.name = name) with
    | none => if x.intact then fillMembers record levels s ms else .error .malformed
    | some field =>
      if field.isFilled s then .error (.duplicateField name)
      else do fillMembers record levels (← field.fill s levels x) ms
  | _, (none, _) :: _ => .error .malformed

/-- Fills in the fields one after the other from the elements of an array. -/
def fillElements {σ : Type} (record : Record σ) (levels : Nat) (closed : Bool) :
    σ → List (Field σ) → List Outline → Except ReadError σ
  | s, [], [] => if closed then .ok s else .error .malformed
  | _, [], _ :: _ => .error .malformed
  | s, field :: fields, x :: xs => do
    fillElements record levels closed (← field.fill s levels x) fields xs
  | s, field :: fields, [] =>
    if !closed then .error .malformed
    else if record.mayEndEarly then .ok s
    else .error (.wrongLength (record.fields.length - (field :: fields).length) record.name
      record.fields.length)

/-- Reads a record whose fields are not filled in yet, and completes it. -/
def decoder {σ α : Type} (record : Record σ) (start : σ) (complete : σ → Except ReadError α) :
    Decoder α := fun levels x =>
  match x with
  | .object ms closed =>
    Decoder.nested levels fun levels => do
      let s ← record.fillMembers levels start ms
      if closed then complete s else throw .malformed
  | .array xs closed =>
    Decoder.nested levels fun levels => do
      complete (← record.fillElements levels closed start record.fields xs)
  | x => .error (x.unexpected (.record record.name))

/-- The value of a field that a record cannot do without. -/
def require {α : Type} (name : String) : Option α → Except ReadError α
  | some value => .ok value
  | none => .error (.missingField name)

end Record

/-! ### Texts -/

/-- Reads a value from a whole text. -/
def decode {α : Type} (read : Decoder α) (s : String) : Except ReadError α := do
  let (x, complete) := outline s
  let value ← read maxDepth x
  if complete then return value else throw .malformed

/-- Reads a document from a whole text. -/
def parse (s : String) : Except ReadError Json :=
  decode Decoder.json s

end Json

end Lineage
