/-
The text of an identifier reads back, so different identifiers have different texts.
-/

import Lineage.Proofs.Text.Digits
import Lineage.Uuid

namespace Lineage.Uuid

theorem length_digits (id : Uuid) : id.digits.length = 32 :=
  Text.length_hexDigits 32 id.bits.toNat

theorem hyphen_not_mem_digits (id : Uuid) : '-' ∉ id.digits := by
  intro h
  obtain ⟨d, hd, hchar⟩ := Text.isHexDigit_of_mem_hexDigits h
  have hne : ∀ d < 16, '-' ≠ Nat.digitChar d := by decide
  exact hne d hd hchar

theorem length_grouped {cs : List Char} (h : cs.length = 32) : (grouped cs).length = 36 := by
  simp [grouped, h]

/-- Setting digits out in groups only adds hyphens. -/
theorem filter_grouped {cs : List Char} (h : '-' ∉ cs) :
    (grouped cs).filter (· ≠ '-') = cs := by
  have hkeep : cs.filter (· ≠ '-') = cs := by
    rw [List.filter_eq_self]
    intro c hc
    rw [decide_eq_true_eq]
    rintro rfl
    exact h hc
  have hparts : cs.take 8 ++ (cs.drop 8).take 4 ++ (cs.drop 12).take 4 ++ (cs.drop 16).take 4 ++
      cs.drop 20 = cs := by
    rw [← List.take_add, ← List.take_add, ← List.take_add, List.take_append_drop]
  have hgrouped : (grouped cs).filter (· ≠ '-') = (cs.take 8 ++ (cs.drop 8).take 4 ++
      (cs.drop 12).take 4 ++ (cs.drop 16).take 4 ++ cs.drop 20).filter (· ≠ '-') := by
    simp [grouped]
  rw [hgrouped, hparts, hkeep]

theorem ofDigits?_digits (id : Uuid) : ofDigits? id.digits = some id := by
  have hsmall : id.bits.toNat < 16 ^ 32 := id.bits.isLt
  rw [ofDigits?, if_pos (length_digits id), digits, Text.hexNumber?_hexDigits,
    Nat.mod_eq_of_lt hsmall, Option.map_some, BitVec.ofNat_toNat, BitVec.setWidth_eq]

/-- The text of an identifier reads back. -/
theorem parse?_text (id : Uuid) : parse? id.text = some id := by
  have hlength : (grouped id.digits).length = 36 := length_grouped (length_digits id)
  rw [parse?, text, String.toList_ofList, if_neg (by omega), if_pos hlength, ofGrouped?,
    filter_grouped (hyphen_not_mem_digits id), if_pos rfl, ofDigits?_digits]

theorem text_injective : Function.Injective text := by
  intro a b h
  have hread : parse? a.text = parse? b.text := by rw [h]
  rw [parse?_text, parse?_text] at hread
  exact Option.some.inj hread

theorem text_inj {a b : Uuid} : a.text = b.text ↔ a = b :=
  text_injective.eq_iff

end Lineage.Uuid
