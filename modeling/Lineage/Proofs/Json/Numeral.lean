/-
The text of a floating-point number denotes a floating-point number.

The digits of a decimal are set out in four ways. Each of them reads as one numeral: digits, a point
with digits after it, and an exponent, where one of the last two may be missing. Its significand is
short enough to be kept as a whole, so the numeral denotes the decimal that was set out, which
denotes a number (`isSome_ofDecimal?_shortest`), or that decimal as a fraction, which always does.
-/

import Lineage.Proofs.Binary64.Shortest
import Lineage.Proofs.Json.Token

namespace Lineage.Json

open Binary64 (Decimal tenTo)

/-! ### Significands -/

section Significand

variable {n k : Nat} {cs ds : List Char}

/-- The number that digits denote behind a number that has been read. -/
def extend (n : Nat) (ds : List Char) : Nat :=
  ds.foldl (fun n c => 10 * n + (c.toNat - '0'.toNat)) n

theorem extend_append (n : Nat) (cs ds : List Char) :
    extend n (cs ++ ds) = extend (extend n cs) ds :=
  List.foldl_append

theorem extend_zeros (n k : Nat) : extend n (List.replicate k '0') = n * tenTo k := by
  induction k generalizing n with
  | zero => exact (Nat.mul_one n).symm
  | succ k ih =>
    rw [List.replicate_succ]
    calc extend n ('0' :: List.replicate k '0') = extend (10 * n + 0) (List.replicate k '0') := rfl
      _ = (10 * n + 0) * tenTo k := ih _
      _ = n * (tenTo k * 10) := by ring

theorem le_extend (n : Nat) (ds : List Char) : n ≤ extend n ds := by
  induction ds generalizing n with
  | nil => exact Nat.le_refl n
  | cons d ds ih =>
    have hle : n ≤ 10 * n + (d.toNat - '0'.toNat) := by omega
    exact hle.trans (ih _)

/-- No digit is left over when all of them fit. -/
theorem accumulate_of_le (h : extend n ds ≤ maxSignificand) :
    accumulate n ds = (extend n ds, []) := by
  induction ds generalizing n with
  | nil => rfl
  | cons d ds ih =>
    have hnext : 10 * n + (d.toNat - '0'.toNat) ≤ maxSignificand := (le_extend _ ds).trans h
    rw [accumulate, if_pos hnext]
    exact ih h

/-- A numeral whose digits all fit keeps them all. -/
theorem scientific_of_le (numeral : Numeral)
    (h : Text.value (numeral.whole ++ numeral.fraction.getD []) ≤ maxSignificand) :
    numeral.scientific = (Text.value (numeral.whole ++ numeral.fraction.getD []),
      numeral.exponent.getD 0 - (numeral.fraction.getD []).length) := by
  have hsplit : Text.value (numeral.whole ++ numeral.fraction.getD []) =
      extend (extend 0 numeral.whole) (numeral.fraction.getD []) := extend_append 0 _ _
  rw [hsplit] at h ⊢
  have hwhole : extend 0 numeral.whole ≤ maxSignificand := (le_extend _ _).trans h
  simp only [Numeral.scientific, accumulate_of_le hwhole, accumulate_of_le h, Prod.mk.injEq,
    List.length_nil, true_and]
  omega

end Significand

/-! ### The parts of a numeral -/

section Parts

variable {ds rest : List Char} {fraction : Option (List Char)}

theorem isDigits_of_mem {n : Nat} (hne : ds ≠ []) (h : ∀ c ∈ ds, c ∈ Text.digits n) :
    Text.isDigits ds = true :=
  Text.isDigits_iff.2 ⟨hne, fun c hc => Text.isDigit_of_mem_digits (h c hc)⟩

theorem digitRow?_of_digits (rest : List Char) (hds : Text.isDigits ds = true)
    (hrest : ∀ c ∈ rest.head?, c.isDigit = false) : digitRow? (ds ++ rest) = some (ds, rest) := by
  obtain ⟨hne, hall⟩ := Text.isDigits_iff.1 hds
  have hstop : rest.takeWhile Char.isDigit = [] ∧ rest.dropWhile Char.isDigit = rest := by
    cases rest with
    | nil => exact ⟨rfl, rfl⟩
    | cons c cs =>
      have hc := hrest c rfl
      exact ⟨List.takeWhile_cons_of_neg (by simp [hc]), List.dropWhile_cons_of_neg (by simp [hc])⟩
  rw [digitRow?, List.takeWhile_append_of_pos hall, List.dropWhile_append_of_pos hall, hstop.1,
    hstop.2, List.append_nil]
  cases ds with
  | nil => exact absurd rfl hne
  | cons => rfl

theorem wholePart?_of_digits (hds : Text.isDigits ds = true)
    (hzero : ds.head? = some '0' → ds.length = 1) (hrest : ∀ c ∈ rest.head?, c.isDigit = false) :
    wholePart? (ds ++ rest) = some (ds, rest) := by
  rw [wholePart?, digitRow?_of_digits rest hds hrest]
  exact if_neg fun h => h.2 (hzero h.1)

/-- A point and the digits after it, if there are any. -/
def point : Option (List Char) → List Char
  | none => []
  | some ds => '.' :: ds

theorem fractionPart?_point (hfraction : ∀ ds ∈ fraction, Text.isDigits ds = true)
    (hrest : ∀ c ∈ rest.head?, c.isDigit = false ∧ c ≠ '.') :
    fractionPart? (point fraction ++ rest) = some (fraction, rest) := by
  cases fraction with
  | none =>
    rw [point, List.nil_append, fractionPart?.eq_2 rest]
    rintro cs rfl
    exact (hrest '.' rfl).2 rfl
  | some ds =>
    rw [point, List.cons_append, fractionPart?.eq_1,
      digitRow?_of_digits rest (hfraction ds rfl) fun c hc => (hrest c hc).1]
    rfl

/-- Digits, a point with digits, and an exponent make up a numeral. -/
theorem unsigned?_of_parts {negative : Bool} {exponent : Option Int}
    (hds : Text.isDigits ds = true) (hzero : ds.head? = some '0' → ds.length = 1)
    (hfraction : ∀ ds ∈ fraction, Text.isDigits ds = true)
    (hrest : ∀ c ∈ rest.head?, c.isDigit = false ∧ c ≠ '.')
    (hexponent : exponentPart? rest = some (exponent, [])) :
    unsigned? negative (ds ++ (point fraction ++ rest)) =
      some (⟨negative, ds, fraction, exponent⟩, []) := by
  have hpoint : ∀ c ∈ (point fraction ++ rest).head?, c.isDigit = false := by
    intro c hc
    cases fraction with
    | none => exact (hrest c hc).1
    | some ds =>
      cases hc
      rfl
  rw [unsigned?, wholePart?_of_digits hds hzero hpoint]
  simp only [Option.bind_eq_bind, Option.bind_some, fractionPart?_point hfraction hrest, hexponent]
  rfl

/-- An exponent that is written with its sign reads back. -/
theorem exponentPart?_signed (n : Int) :
    exponentPart? ('e' :: (if n < 0 then ['-'] else ['+']) ++ Text.digits n.natAbs) =
      some (some n, []) := by
  have hrow : digitRow? (Text.digits n.natAbs) = some (Text.digits n.natAbs, []) := by
    have happend := digitRow?_of_digits [] (Text.isDigits_digits n.natAbs) nofun
    rwa [List.append_nil] at happend
  by_cases hn : n < 0
  · rw [if_pos hn, List.cons_append, List.singleton_append, exponentPart?_minus (.inl rfl), hrow,
      Option.map_some, Text.value_digits]
    congr
    omega
  · rw [if_neg hn, List.cons_append, List.singleton_append, exponentPart?_plus (.inl rfl), hrow,
      Option.map_some, Text.value_digits]
    congr
    omega

end Parts

/-! ### Decimals -/

/-- A text that reads as a numeral of a decimal: a floating-point one, with the digits and the
exponent of the decimal unless it has been written as a fraction. -/
structure Spells (cs : List Char) (negative : Bool) (d : Decimal) (numeral : Numeral) : Prop where
  read : unsigned? negative cs = some (numeral, [])
  isReal : numeral.fraction.isSome ∨ numeral.exponent.isSome
  bounded : numeral.scientific.1 ≤ tenTo 18
  denotes : numeral.scientific = (d.digits, d.exponent) ∨ numeral.scientific.2 ≤ 0

section Spelling

variable {negative : Bool} {d : Decimal}

theorem spells_of_parts {exponent : Option Int} (ds : List Char) (fraction : Option (List Char))
    (rest : List Char) (hds : Text.isDigits ds = true)
    (hzero : ds.head? = some '0' → ds.length = 1)
    (hfraction : ∀ ds ∈ fraction, Text.isDigits ds = true)
    (hrest : ∀ c ∈ rest.head?, c.isDigit = false ∧ c ≠ '.')
    (hexponent : exponentPart? rest = some (exponent, []))
    (hreal : fraction.isSome ∨ exponent.isSome)
    (hvalue : Text.value (ds ++ fraction.getD []) ≤ tenTo 18)
    (hdenotes : Text.value (ds ++ fraction.getD []) = d.digits ∧
        exponent.getD 0 - ((fraction.getD []).length : Int) = d.exponent ∨
      exponent.getD 0 - ((fraction.getD []).length : Int) ≤ 0) :
    Spells (ds ++ (point fraction ++ rest)) negative d ⟨negative, ds, fraction, exponent⟩ := by
  have hfits : tenTo 18 ≤ maxSignificand := by decide
  have hscientific := scientific_of_le ⟨negative, ds, fraction, exponent⟩ (hvalue.trans hfits)
  refine ⟨unsigned?_of_parts hds hzero hfraction hrest hexponent, hreal, ?_, ?_⟩
  · rw [hscientific]
    exact hvalue
  · rw [hscientific]
    refine hdenotes.imp_left ?_
    rintro ⟨hdigits, hexponent⟩
    exact Prod.ext hdigits hexponent

/-- The digits of a decimal start with no zero. -/
theorem head?_digits (hne : d.digits ≠ 0) : (Text.digits d.digits).head? ≠ some '0' :=
  Text.head?_digits_ne_zero (Nat.pos_of_ne_zero hne)

/-- Digits, zeros for the exponent, and a zero after the point. -/
theorem exists_spells_whole (hne : d.digits ≠ 0) {k : Nat}
    (hlength : (Text.digits d.digits).length + k ≤ 16) :
    ∃ numeral, Spells (Text.digits d.digits ++ List.replicate k '0' ++ ['.', '0']) negative d
      numeral := by
  have hhead : (Text.digits d.digits ++ List.replicate k '0').head? ≠ some '0' := by
    rw [List.head?_append_of_ne_nil _ (Text.digits_ne_nil _)]
    exact head?_digits hne
  have hvalue : Text.value (Text.digits d.digits ++ List.replicate k '0' ++ ['0']) ≤ tenTo 18 := by
    rw [List.append_assoc, ← List.replicate_succ']
    calc Text.value (Text.digits d.digits ++ List.replicate (k + 1) '0') =
          extend (Text.value (Text.digits d.digits)) (List.replicate (k + 1) '0') :=
          extend_append 0 _ _
      _ = d.digits * tenTo (k + 1) := by rw [extend_zeros, Text.value_digits]
      _ ≤ tenTo (Text.digits d.digits).length * tenTo (k + 1) :=
          Nat.mul_le_mul_right _ (Text.lt_pow_length_digits d.digits).le
      _ = tenTo ((Text.digits d.digits).length + (k + 1)) := (Nat.pow_add ..).symm
      _ ≤ tenTo 18 := Binary64.tenTo_mono (by omega)
  refine ⟨_, spells_of_parts _ (some ['0']) [] ?_ (absurd · hhead) ?_ nofun rfl (.inl rfl) hvalue
    (.inr (by decide))⟩
  · refine Text.isDigits_iff.2 ⟨List.append_ne_nil_of_left_ne_nil (Text.digits_ne_nil _) _, ?_⟩
    intro c hc
    rcases List.mem_append.1 hc with hc | hc
    · exact Text.isDigit_of_mem_digits hc
    · rw [List.eq_of_mem_replicate hc]
      rfl
  · rintro _ ⟨⟩
    rfl

/-- Digits on both sides of the point. -/
theorem exists_spells_split (hne : d.digits ≠ 0) (hle : d.digits ≤ tenTo 18) {k : Nat}
    (hlength : k + 1 < (Text.digits d.digits).length) :
    ∃ numeral, Spells ((Text.digits d.digits).take (k + 1) ++
      '.' :: (Text.digits d.digits).drop (k + 1)) negative d numeral := by
  have hhead : ((Text.digits d.digits).take (k + 1)).head? ≠ some '0' := by
    rw [List.head?_take, if_neg (Nat.succ_ne_zero k)]
    exact head?_digits hne
  have hvalue : Text.value ((Text.digits d.digits).take (k + 1) ++
      (Text.digits d.digits).drop (k + 1)) ≤ tenTo 18 := by
    rw [List.take_append_drop, Text.value_digits]
    exact hle
  rw [← List.append_nil ('.' :: (Text.digits d.digits).drop (k + 1))]
  refine ⟨_, spells_of_parts _ (some ((Text.digits d.digits).drop (k + 1))) [] ?_
    (absurd · hhead) ?_ nofun rfl (.inl rfl) hvalue (.inr ?_)⟩
  · refine isDigits_of_mem ?_ fun c => List.mem_of_mem_take
    simp [Text.digits_ne_nil]
  · rintro _ ⟨⟩
    refine isDigits_of_mem ?_ fun c => List.mem_of_mem_drop
    rw [ne_eq, List.drop_eq_nil_iff]
    omega
  · simp

/-- A zero before the point, and zeros before the digits after it. -/
theorem exists_spells_fraction (hle : d.digits ≤ tenTo 18) (k : Nat) :
    ∃ numeral, Spells ('0' :: '.' :: List.replicate k '0' ++ Text.digits d.digits) negative d
      numeral := by
  have hvalue : Text.value ('0' :: (List.replicate k '0' ++ Text.digits d.digits)) ≤ tenTo 18 := by
    calc Text.value ('0' :: (List.replicate k '0' ++ Text.digits d.digits)) =
          extend (extend 0 (List.replicate k '0')) (Text.digits d.digits) := extend_append 0 _ _
      _ = Text.value (Text.digits d.digits) := by rw [extend_zeros, Nat.zero_mul]; rfl
      _ ≤ tenTo 18 := by rw [Text.value_digits]; exact hle
  rw [← List.append_nil ('0' :: '.' :: List.replicate k '0' ++ Text.digits d.digits)]
  refine ⟨_, spells_of_parts ['0'] (some (List.replicate k '0' ++ Text.digits d.digits)) [] rfl
    (fun _ => rfl) ?_ nofun rfl (.inl rfl) hvalue (.inr ?_)⟩
  · rintro _ ⟨⟩
    refine Text.isDigits_iff.2 ⟨List.append_ne_nil_of_right_ne_nil _ (Text.digits_ne_nil _), ?_⟩
    intro c hc
    rcases List.mem_append.1 hc with hc | hc
    · rw [List.eq_of_mem_replicate hc]
      rfl
    · exact Text.isDigit_of_mem_digits hc
  · simp

/-- The digits with a point after the first one. -/
def mantissa : List Char → List Char
  | [c] => [c]
  | c :: cs => c :: '.' :: cs
  | [] => []

/-- One digit before the point, the others after it, and the exponent of the leading digit. -/
theorem exists_spells_exponent (hne : d.digits ≠ 0) (hle : d.digits ≤ tenTo 18) {n : Int}
    (hn : n = d.exponent + (Text.digits d.digits).length - 1) :
    ∃ numeral, Spells (mantissa (Text.digits d.digits) ++
      'e' :: (if n < 0 then ['-'] else ['+']) ++ Text.digits n.natAbs) negative d numeral := by
  have hvalue := Text.value_digits d.digits
  have hhead := head?_digits hne
  have hall : ∀ c ∈ Text.digits d.digits, c.isDigit = true := fun c => Text.isDigit_of_mem_digits
  have hrest : ∀ c ∈ ('e' :: (if n < 0 then ['-'] else ['+']) ++ Text.digits n.natAbs).head?,
      c.isDigit = false ∧ c ≠ '.' := by
    rintro c ⟨⟩
    decide
  rw [List.append_assoc]
  rcases hds : Text.digits d.digits with _ | ⟨c, _ | ⟨c', cs⟩⟩
  · exact absurd hds (Text.digits_ne_nil _)
  · rw [hds] at hvalue hall hn
    have hc : Text.isDigits [c] = true := by simpa [Text.isDigits] using hall
    refine ⟨_, spells_of_parts [c] none _ hc (fun _ => rfl) ?_ hrest
      (exponentPart?_signed n) (.inr rfl) ?_ (.inl ⟨hvalue, ?_⟩)⟩
    · intro fraction hfraction
      cases hfraction
    · exact hvalue.trans_le hle
    · simp [hn]
  · rw [hds] at hvalue hall hn hhead
    have hc : Text.isDigits [c] = true := by simpa [Text.isDigits] using hall c List.mem_cons_self
    have hcs : Text.isDigits (c' :: cs) = true :=
      Text.isDigits_iff.2 ⟨List.cons_ne_nil c' cs, fun d hd => hall d (List.mem_cons_of_mem c hd)⟩
    refine ⟨_, spells_of_parts [c] (some (c' :: cs)) _ hc (fun _ => rfl) ?_ hrest
      (exponentPart?_signed n) (.inr rfl) ?_ (.inl ⟨hvalue, ?_⟩)⟩
    · rintro _ ⟨⟩
      exact hcs
    · exact hvalue.trans_le hle
    · simp [hn]
      omega

/-- However the digits of a decimal are set out, they are a numeral of it. -/
theorem exists_spells_decimal (negative : Bool) (hne : d.digits ≠ 0) (hle : d.digits ≤ tenTo 18) :
    ∃ numeral, Spells (Number.layout.decimal d) negative d numeral := by
  have hpos := Text.length_digits_pos d.digits
  unfold Binary64.Layout.decimal
  dsimp only
  generalize hlead : d.exponent + ((Text.digits d.digits).length : Int) - 1 = lead
  split
  · next hrange =>
    have hhigh : lead ≤ 15 := by
      rw [Bool.and_eq_true, decide_eq_true_eq, decide_eq_true_eq] at hrange
      exact hrange.2
    split
    · exact exists_spells_whole hne (by omega)
    · split
      · exact exists_spells_split hne hle (by omega)
      · exact exists_spells_fraction hle _
  · exact exists_spells_exponent hne hle hlead.symm

end Spelling

/-! ### Floating-point numbers -/

theorem Spells.isSome_number? {cs : List Char} {negative : Bool} {d : Decimal} {numeral : Numeral}
    (h : Spells cs negative d numeral)
    (hd : ∀ sign, (Binary64.ofDecimal? sign d.digits d.exponent).isSome) :
    numeral.number?.isSome := by
  have hreal : (Binary64.ofDecimal? numeral.negative numeral.scientific.1
      numeral.scientific.2).isSome := by
    rcases h.denotes with heq | hexponent
    · rw [heq]
      exact hd _
    · exact Binary64.isSome_ofDecimal?_of_nonpos (h.bounded.trans (Binary64.tenTo_mono (by decide)))
        hexponent
  rw [Numeral.number?]
  dsimp only
  rw [if_pos h.isReal, Option.isSome_map]
  exact hreal

/-- The text of a magnitude is a numeral of a number. -/
theorem exists_numeral_magnitude (negative : Bool) (w : Fin Binary64.magnitudes) :
    ∃ numeral, unsigned? negative (if w.val = 0 then ['0', '.', '0']
        else Number.layout.decimal (Binary64.shortest w)) = some (numeral, []) ∧
      numeral.number?.isSome := by
  by_cases hw : w.val = 0
  · refine ⟨⟨negative, ['0'], some ['0'], none⟩, ?_, ?_⟩
    · rw [if_pos hw]
      rfl
    · cases negative <;> decide +kernel
  · have hpos := Nat.pos_of_ne_zero hw
    obtain ⟨hne, hle, -⟩ := Binary64.shortest_spec hpos
    obtain ⟨numeral, hspells⟩ := exists_spells_decimal negative hne hle
    refine ⟨numeral, ?_, hspells.isSome_number? ?_⟩
    · rw [if_neg hw]
      exact hspells.read
    · exact fun sign => Binary64.isSome_ofDecimal?_shortest sign hpos w.isLt

theorem head?_ne_minus {negative : Bool} {cs : List Char} {read : Numeral × List Char}
    (h : unsigned? negative cs = some read) : cs.head? ≠ some '-' := by
  intro hhead
  cases cs with
  | nil => cases hhead
  | cons c cs =>
    cases hhead
    cases h

/-- The text of every floating-point number denotes a number, if not always the same one. -/
theorem exists_numeral_real (x : Binary64) :
    ∃ numeral, numeral? (Number.real x).chars = some (numeral, []) ∧ numeral.number?.isSome := by
  obtain ⟨numeral, hread, hnumber⟩ := exists_numeral_magnitude x.negative x.magnitude
  refine ⟨numeral, ?_, hnumber⟩
  rw [Number.chars, Binary64.Layout.text]
  cases hsign : x.negative with
  | true =>
    rw [hsign] at hread
    rw [if_pos rfl, numeral?_minus, hread]
  | false =>
    rw [hsign] at hread
    rw [if_neg Bool.false_ne_true, numeral?_of_head (head?_ne_minus hread), hread]

/-- The text of a number is a numeral. -/
theorem exists_numeral_chars (n : Number) : ∃ numeral, numeral? n.chars = some (numeral, []) := by
  cases n with
  | integer n =>
    rw [Number.chars]
    by_cases hn : n < 0
    · rw [if_pos hn, numeral?_minus]
      exact ⟨_, unsigned?_digits true n.natAbs⟩
    · have hread := unsigned?_digits false n.natAbs
      rw [if_neg hn, numeral?_of_head (head?_ne_minus hread)]
      exact ⟨_, hread⟩
  | real x =>
    obtain ⟨numeral, hread, -⟩ := exists_numeral_real x
    exact ⟨numeral, hread⟩

end Lineage.Json
