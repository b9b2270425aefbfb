/-
The rows that calls with a filter concern.

`Service.Concerns` says that the three calls with filters go by the same rows: one lists them, one
tells whether there are any, and one deletes and counts them. They concern the rows that the filter
holds of. The filter of a definition id and a tenant holds of the rows of one lineage if the tenant
is named; without a tenant it holds of the rows of all tenants, and with a blank one of no row
(`concerns_lineage_iff`).
-/

import Lineage.Proofs.Service.Isolation
import Lineage.Proofs.Store.Coherence

namespace Lineage

namespace Service

variable {filter : Filter} {rows : Item → Bool} {m : Memory}

/-- The calls with a filter concern certain rows of a store in memory and no others: they list them,
tell whether there are any, and delete them. -/
structure Concerns (filter : Filter) (rows : Item → Bool) (m : Memory) : Prop where
  list : ∀ stamp, ∃ listed,
    (Service.list filter).effect Memory.backend stamp m = (.ok listed, m) ∧
      listed.Perm (m.items.filter rows)
  hasAny : ∀ stamp,
    (Service.hasAny filter).effect Memory.backend stamp m =
      (.ok (!(m.items.filter rows).isEmpty), m)
  deleteAll : ∀ stamp,
    (Service.deleteAll filter).effect Memory.backend stamp m =
      (.ok (m.items.filter rows).length, ⟨m.items.filter (!rows ·)⟩)

/-- The calls with a filter concern the rows that it holds of. -/
theorem concerns_holds (filter : Filter) (m : Memory) : Concerns filter filter.holds m where
  list _ := ⟨listing m.items filter, rfl, (isListing_listing m.items filter).perm⟩
  hasAny _ := by
    rw [← Memory.hasAny_eq]
    rfl
  deleteAll stamp := by
    have hdelete := Memory.deleteAll_eq m filter
    simp only [Service.deleteAll, ask, Dialogue.effect_ask, Memory.backend, hdelete,
      Dialogue.effect_note, Dialogue.effect_done]

/-- The calls with a filter concern rows if the filter holds of just these among the stored ones. -/
theorem concerns_iff :
    Concerns filter rows m ↔ ∀ item ∈ m.items, filter.holds item = rows item := by
  have hholds := concerns_holds filter m
  constructor
  · intro h item hitem
    have hdeleted := (hholds.deleteAll ⟨item.id, 0⟩).symm.trans (h.deleteAll ⟨item.id, 0⟩)
    have hkept : m.items.filter (!filter.holds ·) = m.items.filter (!rows ·) :=
      congrArg Memory.items (Prod.mk.inj hdeleted).2
    have hmem : item ∈ m.items.filter (!filter.holds ·) ↔ item ∈ m.items.filter (!rows ·) := by
      rw [hkept]
    rw [List.mem_filter, List.mem_filter, and_iff_right hitem, and_iff_right hitem] at hmem
    exact Bool.not_inj (Bool.eq_iff_iff.2 hmem)
  · intro h
    have hlisted := List.filter_congr h
    have hkept : m.items.filter (!filter.holds ·) = m.items.filter (!rows ·) :=
      List.filter_congr fun item hitem => congrArg not (h item hitem)
    constructor
    · intro stamp
      rw [← hlisted]
      exact hholds.list stamp
    · intro stamp
      rw [← hlisted]
      exact hholds.hasAny stamp
    · intro stamp
      rw [← hlisted, ← hkept]
      exact hholds.deleteAll stamp

end Service

/-! ### Lineage filters -/

variable {m : Memory} {d : String} {t : Option String} {item : Item}

theorem Item.belongsTo_iff :
    item.belongsTo d t = true ↔ item.definitionId = d ∧ item.tenantId = t := by
  rw [Item.belongsTo, Bool.and_eq_true, decide_eq_true_eq, decide_eq_true_eq]

/-- A stored tenant, being normalized, is not blank. -/
theorem Item.tenantId_ne_some {s : String} (h : normalizeTenant item.tenantId = item.tenantId)
    (hs : normalizeTenant (some s) = none) : item.tenantId ≠ some s := by
  intro heq
  rw [heq, hs] at h
  cases h

theorem normalizeTenant_eq_some {s s' : String} (h : normalizeTenant (some s) = some s') :
    s' = s := by
  rw [normalizeTenant, Option.filter_some, Option.ite_none_right_eq_some] at h
  exact (Option.some.inj h.2).symm

namespace Filter

/-- A lineage filter holds of the items of the definition that have the tenant, if one is given. -/
theorem lineage_holds_iff :
    (lineage d t).holds item = true ↔ item.definitionId = d ∧ ∀ s ∈ t, item.tenantId = some s := by
  simp only [lineage, single, holds, Clause.holds, List.isEmpty_cons, List.any_cons, List.any_nil,
    Bool.false_or, Bool.or_false, Bool.and_eq_true, Clause.keyMatches_iff]
  simp

/-- A lineage filter holds of an item of the definition just if the item is in the lineage, except
that without a tenant it holds whatever the item's tenant, and that with a blank one it never does.
The tenant of the item is normalized, as stored ones are. -/
theorem lineage_holds_eq_belongsTo_iff (h : normalizeTenant item.tenantId = item.tenantId) :
    (lineage d t).holds item = item.belongsTo d (normalizeTenant t) ↔
      (item.definitionId = d → normalizeTenant t = none → (t = none ↔ item.tenantId = none)) := by
  rw [Bool.eq_iff_iff, lineage_holds_iff, Item.belongsTo_iff, and_congr_right_iff]
  refine imp_congr_right fun _ => ?_
  cases t with
  | none => simp [normalizeTenant]
  | some s =>
    cases hs : normalizeTenant (some s) with
    | none => simp [Item.tenantId_ne_some h hs]
    | some s' =>
      rw [normalizeTenant_eq_some hs]
      simp

end Filter

/-- In a reachable store in memory the calls with a lineage filter concern the rows of the lineage,
provided that the filter names a tenant, or names none and no tenant has rows of the definition, or
names a blank one and all rows of the definition have a tenant. A blank tenant acts as an absent one
only if there are no rows of the definition at all. -/
theorem concerns_lineage_iff (h : m.Reachable) (d : String) (t : Option String) :
    (Service.Concerns (.lineage d t) (·.belongsTo d (normalizeTenant t)) m ↔
      ∀ item ∈ m.items, item.definitionId = d → normalizeTenant t = none →
        (t = none ↔ item.tenantId = none)) ∧
      ∀ s, normalizeTenant (some s) = none →
        (Service.Concerns (.lineage d (some s)) (Filter.lineage d none).holds m ↔
          ∀ item ∈ m.items, item.definitionId ≠ d) := by
  constructor
  · rw [Service.concerns_iff]
    exact forall₂_congr fun item hitem =>
      Filter.lineage_holds_eq_belongsTo_iff (h.sound.tenants item hitem)
  · intro s hs
    rw [Service.concerns_iff]
    refine forall₂_congr fun item hitem => ?_
    have hne : item.tenantId ≠ some s := Item.tenantId_ne_some (h.sound.tenants item hitem) hs
    rw [Bool.eq_iff_iff, Filter.lineage_holds_iff, Filter.lineage_holds_iff]
    simp [hne]

/-- With a tenant that has a row beside one without a tenant, the calls concern its row only. -/
theorem concerns_lineage_iff_named :
    Service.Concerns (.lineage "order" (some "acme")) (·.belongsTo "order" (some "acme"))
      (.withTenant "acme") := by
  have hacme : normalizeTenant (some "acme") = some "acme" := by decide
  have hconcerns := (concerns_lineage_iff (Memory.reachable_withTenant "acme") "order"
    (some "acme")).1
  rw [hacme] at hconcerns
  exact hconcerns.2 fun _ _ _ hnone => by cases hnone

/-- A deletion in the lineage without a tenant takes away the row of a tenant too. -/
theorem not_forall_concerns_lineage :
    ¬ ∀ (m : Memory) (d : String) (t : Option String), m.Reachable →
      Service.Concerns (.lineage d t) (·.belongsTo d (normalizeTenant t)) m := by
  intro hall
  have hreachable := Memory.reachable_withTenant "acme"
  have hconcerns := (hall _ "order" none hreachable).deleteAll ⟨⟨3⟩, 30⟩
  have hcount : (Except.ok 2 : Except ServiceError Nat) = .ok 1 :=
    congrArg Prod.fst hconcerns
  cases hcount

end Lineage
