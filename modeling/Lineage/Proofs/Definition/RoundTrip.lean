/-
Every record reads back from its JSON text.

A record is written with its members in the order of its fields, or of their names, over one line or
many; `Json.Documents` allows any order. `records_read_back` says that each kind of record is read from
every such text as it was, if its payload is `Portable`: an optional field that is not set stays so, and
a payload that is `null` is `null`.
-/

import Lineage.Proofs.Definition.Export

namespace Lineage

open Json (Decoder Record)

/-! ### Values -/

namespace Json.Decoder

theorem optional_id (levels : Nat) (id : Option Uuid) :
    optional uuid levels (Json.ofId? id).outlined = .ok id := by
  cases id with
  | none => rfl
  | some id => exact optional_uuid levels id

theorem given_id (levels : Nat) (id : Uuid) :
    given uuid levels (Json.string id.text).outlined = .ok (some id) := by
  simp only [given, uuid, outlined, Uuid.parse?_text]
  rfl

theorem given_text (levels : Nat) (t : String) :
    given text levels (Json.string t).outlined = .ok (some t) := rfl

theorem int64_ofTime (levels : Nat) (t : Int64) : int64 levels (Json.ofTime t).outlined = .ok t := by
  have hmin : Int64.minValue.toInt ≤ t.toInt := t.minValue_le_toInt
  have hmax : t.toInt ≤ Int64.maxValue.toInt := t.toInt_le
  have hlegible : Number.Legible (.integer t.toInt) := by
    have hlow := t.le_toInt
    have hhigh := t.toInt_lt
    constructor <;> simp only [Json.maxNegative, Json.maxSignificand] <;> omega
  simp only [ofTime, outlined, hlegible.denoted?, int64]
  rw [if_pos ⟨hmin, hmax⟩, Int64.ofInt_toInt]

end Json.Decoder

/-! ### Fields -/

namespace Fields

/-- A field of a record, in whichever way its value is read. -/
inductive IsField : Json.Field Fields → Prop where
  | id (read : Decoder (Option Uuid)) :
      IsField (.of "id" (·.id) (fun s v => { s with id := some v }) read)
  | definitionId (read : Decoder (Option String)) :
      IsField (.of "definitionId" (·.definitionId) (fun s v => { s with definitionId := some v }) read)
  | tenantId (read : Decoder (Option String)) :
      IsField (.of "tenantId" (·.tenantId) (fun s v => { s with tenantId := some v }) read)
  | version (read : Decoder (Option String)) :
      IsField (.of "version" (·.version) (fun s v => { s with version := some v }) read)
  | name (read : Decoder (Option String)) :
      IsField (.of "name" (·.name) (fun s v => { s with name := some v }) read)
  | purpose (read : Decoder (Option String)) :
      IsField (.of "purpose" (·.purpose) (fun s v => { s with purpose := some v }) read)
  | payload (read : Decoder Json) :
      IsField (.of "definitionPayload" (·.payload) (fun s v => { s with payload := some v }) read)
  | createdAt (read : Decoder Int64) :
      IsField (.of "createdAt" (·.createdAt) (fun s v => { s with createdAt := some v }) read)
  | lastUpdatedAt (read : Decoder Int64) :
      IsField (.of "lastUpdatedAt" (·.lastUpdatedAt) (fun s v => { s with lastUpdatedAt := some v })
        read)

variable {field other : Json.Field Fields}

theorem IsField.apart (h : IsField field) (h' : IsField other) (hne : field.name ≠ other.name) :
    field.Apart other := by
  cases h <;> cases h'
  all_goals
    first
    | exact absurd rfl hne
    | exact Json.Field.apart_of (fun _ _ => rfl) (fun _ _ _ => rfl)

theorem IsField.fills (h : IsField field) : field.Fills := by
  cases h
  all_goals exact Json.Field.fills_of fun _ _ => rfl

/-- Fields with different names do not get into each other's way. -/
theorem orderly {record : Record Fields} (h : ∀ field ∈ record.fields, IsField field)
    (hnames : (record.fields.map Json.Field.name).Nodup) : record.Orderly := by
  constructor
  · apply (List.pairwise_map.1 hnames).imp_of_mem
    intro field other hfield hother hne
    exact ⟨(h _ hfield).apart (h _ hother) hne, (h _ hother).apart (h _ hfield) hne.symm⟩
  · exact fun field hfield => (h field hfield).fills

end Fields

/-! ### Records -/

theorem Item.orderly_record : Item.record.Orderly := by
  apply Fields.orderly
  · simp only [record, List.forall_mem_cons]
    exact ⟨.id _, .definitionId _, .tenantId _, .version _, .name _, .purpose _, .payload _,
      .createdAt _, .lastUpdatedAt _, List.forall_mem_nil _⟩
  · decide

theorem Candidate.orderly_record : Candidate.record.Orderly := by
  apply Fields.orderly
  · simp only [record, List.forall_mem_cons]
    exact ⟨.definitionId _, .tenantId _, .version _, .name _, .purpose _, .payload _,
      List.forall_mem_nil _⟩
  · decide

theorem Submission.orderly_record : Submission.record.Orderly := by
  apply Fields.orderly
  · simp only [record, List.forall_mem_cons]
    exact ⟨.id _, .definitionId _, .tenantId _, .version _, .name _, .purpose _, .payload _,
      List.forall_mem_nil _⟩
  · decide

theorem Clause.orderly_record : Clause.record.Orderly := by
  apply Fields.orderly
  · simp only [record, List.forall_mem_cons]
    exact ⟨.id _, .definitionId _, .tenantId _, .version _, List.forall_mem_nil _⟩
  · decide

/-! ### Reading -/

section Reading

variable {x : Json} {levels : Nat}

/-- A portable payload is read as a member of a record. -/
theorem Json.Portable.json_outlined (h : x.Portable) : Decoder.json 127 x.outlined = .ok x :=
  Decoder.json_outlined h.legible (Nat.lt_of_add_lt_add_right h.shallow)

/-- The fields of an item. -/
def Item.fields (item : Item) : Fields where
  id := some (some item.id)
  definitionId := some (some item.definitionId)
  tenantId := some item.tenantId
  version := some (some item.version)
  name := some item.name
  purpose := some item.purpose
  payload := some item.payload
  createdAt := some item.createdAt
  lastUpdatedAt := some item.lastUpdatedAt

/-- An item is read from its documents. -/
theorem Item.decoder_documents {item : Item} (h : Json.Documents item.toJson item.members x)
    (hp : item.payload.Portable) : Item.decoder Json.maxDepth x.outlined = .ok item := by
  have htext := Decoder.optional_text 127
  have hdistinct : Json.Distinct item.members := by simp [Json.Distinct, members]
  have hread : record.fillMembers 127 {} (Json.outlinedMembers item.members) = .ok item.fields := by
    refine Record.fillMembers_of rfl rfl (Decoder.given_id _ item.id) ?_
    refine Record.fillMembers_of rfl rfl (Decoder.given_text _ item.definitionId) ?_
    refine Record.fillMembers_of rfl rfl (htext item.tenantId) ?_
    refine Record.fillMembers_of rfl rfl (Decoder.given_text _ item.version) ?_
    refine Record.fillMembers_of rfl rfl (htext item.name) ?_
    refine Record.fillMembers_of rfl rfl (htext item.purpose) ?_
    refine Record.fillMembers_of rfl rfl hp.json_outlined ?_
    refine Record.fillMembers_of rfl rfl (Decoder.int64_ofTime _ item.createdAt) ?_
    exact Record.fillMembers_of rfl rfl (Decoder.int64_ofTime _ item.lastUpdatedAt) rfl
  exact h.decoder orderly_record hdistinct hread rfl

/-- The fields of a candidate. -/
def Candidate.fields (c : Candidate) : Fields where
  definitionId := some (some c.definitionId)
  tenantId := some c.tenantId
  version := some (some c.version)
  name := some c.name
  purpose := some c.purpose
  payload := some c.payload

/-- A candidate is read from its documents. -/
theorem Candidate.decoder_documents {c : Candidate} (h : Json.Documents c.toJson c.members x)
    (hp : c.payload.Portable) : Candidate.decoder Json.maxDepth x.outlined = .ok c := by
  have htext := Decoder.optional_text 127
  have hdistinct : Json.Distinct c.members := by simp [Json.Distinct, members]
  have hread : record.fillMembers 127 {} (Json.outlinedMembers c.members) = .ok c.fields := by
    refine Record.fillMembers_of rfl rfl (Decoder.given_text _ c.definitionId) ?_
    refine Record.fillMembers_of rfl rfl (htext c.tenantId) ?_
    refine Record.fillMembers_of rfl rfl (Decoder.given_text _ c.version) ?_
    refine Record.fillMembers_of rfl rfl (htext c.name) ?_
    refine Record.fillMembers_of rfl rfl (htext c.purpose) ?_
    exact Record.fillMembers_of rfl rfl hp.json_outlined rfl
  exact h.decoder orderly_record hdistinct hread rfl

/-- The fields of a submission. -/
def Submission.fields (s : Submission) : Fields where
  id := some s.id
  definitionId := some s.definitionId
  tenantId := some s.tenantId
  version := some s.version
  name := some s.name
  purpose := some s.purpose
  payload := some s.payload

/-- A submission is read from its documents. -/
theorem Submission.decoder_documents {s : Submission} (h : Json.Documents s.toJson s.members x)
    (hp : s.payload.Portable) : Submission.decoder Json.maxDepth x.outlined = .ok s := by
  have htext := Decoder.optional_text 127
  have hdistinct : Json.Distinct s.members := by simp [Json.Distinct, members]
  have hread : record.fillMembers 127 {} (Json.outlinedMembers s.members) = .ok s.fields := by
    refine Record.fillMembers_of rfl rfl (Decoder.optional_id _ s.id) ?_
    refine Record.fillMembers_of rfl rfl (htext s.definitionId) ?_
    refine Record.fillMembers_of rfl rfl (htext s.tenantId) ?_
    refine Record.fillMembers_of rfl rfl (htext s.version) ?_
    refine Record.fillMembers_of rfl rfl (htext s.name) ?_
    refine Record.fillMembers_of rfl rfl (htext s.purpose) ?_
    exact Record.fillMembers_of rfl rfl hp.json_outlined rfl
  exact h.decoder orderly_record hdistinct hread rfl

/-- The fields of a clause. -/
def Clause.fields (c : Clause) : Fields where
  id := some c.id
  definitionId := some c.definitionId
  tenantId := some c.tenantId
  version := some c.version

/-- A clause is read from its documents, also inside others. -/
theorem Clause.decoder_documents {c : Clause} (h : Json.Documents c.toJson c.members x)
    (levels : Nat) : Clause.decoder (levels + 2) x.outlined = .ok c := by
  have htext := Decoder.optional_text (levels + 1)
  have hdistinct : Json.Distinct c.members := by simp [Json.Distinct, members]
  have hread : record.fillMembers (levels + 1) {} (Json.outlinedMembers c.members) =
      .ok c.fields := by
    refine Record.fillMembers_of rfl rfl (Decoder.optional_id _ c.id) ?_
    refine Record.fillMembers_of rfl rfl (htext c.definitionId) ?_
    refine Record.fillMembers_of rfl rfl (htext c.tenantId) ?_
    exact Record.fillMembers_of rfl rfl (htext c.version) rfl
  exact h.decoder orderly_record hdistinct hread rfl

/-- The documents of a filter: the arrays of documents of its clauses. -/
inductive Filter.Documents (f : Filter) : Json → Prop where
  | clauses {xs : List Json}
      (each : List.Forall₂ (fun c x => Json.Documents c.toJson c.members x) f.clauses xs) :
      Documents f (.array xs)

theorem Filter.documents_toJson (f : Filter) : f.Documents f.toJson := by
  apply Documents.clauses
  rw [List.forall₂_map_right_iff, List.forall₂_same]
  exact fun c _ => .value

theorem Clause.mapM_decoder {clauses : List Clause} {xs : List Json}
    (h : List.Forall₂ (fun c x => Json.Documents c.toJson c.members x) clauses xs) (levels : Nat) :
    (Json.outlinedElements xs).mapM (Clause.decoder (levels + 2)) = .ok clauses := by
  induction h with
  | nil => rfl
  | cons hclause _ ih =>
    rw [Json.outlinedElements, List.mapM_cons, Clause.decoder_documents hclause, ih]
    rfl

/-- A filter is read from its documents. -/
theorem Filter.decoder_documents {f : Filter} (h : f.Documents x) :
    Filter.decoder Json.maxDepth x.outlined = .ok f := by
  obtain ⟨each⟩ := h
  have hclauses := Clause.mapM_decoder each 125
  simp only [decoder, Json.outlined, Decoder.listOf, Decoder.nested, Json.maxDepth, hclauses]
  rfl

end Reading

/-- Every record reads back as it was from every text of its documents. The members may stand in any
order, and on one line or over many. The printed filter is one of the documents of a filter. -/
theorem records_read_back :
    (∀ (item : Item) (x : Json) (text : String), item.payload.Portable →
      Json.Documents item.toJson item.members x → x.Prints text →
        Json.decode Item.decoder text = .ok item) ∧
    (∀ (c : Candidate) (x : Json) (text : String), c.payload.Portable →
      Json.Documents c.toJson c.members x → x.Prints text →
        Json.decode Candidate.decoder text = .ok c) ∧
    (∀ (s : Submission) (x : Json) (text : String), s.payload.Portable →
      Json.Documents s.toJson s.members x → x.Prints text →
        Json.decode Submission.decoder text = .ok s) ∧
    (∀ (c : Clause) (x : Json) (text : String), Json.Documents c.toJson c.members x → x.Prints text →
      Json.decode Clause.decoder text = .ok c) ∧
    ∀ f : Filter, f.Documents f.toJson ∧ ∀ (x : Json) (text : String), f.Documents x →
      x.Prints text → Json.decode Filter.decoder text = .ok f := by
  refine ⟨?_, ?_, ?_, ?_, ?_⟩
  · intro item x text hp hx htext
    exact htext.decode (Item.decoder_documents hx hp)
  · intro c x text hp hx htext
    exact htext.decode (Candidate.decoder_documents hx hp)
  · intro s x text hp hx htext
    exact htext.decode (Submission.decoder_documents hx hp)
  · intro c x text hx htext
    exact htext.decode (Clause.decoder_documents hx 126)
  · intro f
    refine ⟨f.documents_toJson, fun x text hx htext => ?_⟩
    exact htext.decode (Filter.decoder_documents hx)

/-- A payload in which containers nest and a text has to be escaped. -/
def parcels : Json :=
  .ofMembers [("parcels", .array [.array [], .null,
      .ofMembers [("weight", .number (.integer (-3))), ("label", .string "\"é\"\n")]]),
    ("id", .string "shipment")]

theorem portable_parcels : parcels.Portable where
  legible := by
    have hweight : Number.Legible (.integer (-3)) := by
      constructor <;> decide
    have hparcel : Json.Legible (.ofMembers [("weight", .number (.integer (-3))),
        ("label", .string "\"é\"\n")]) := by
      refine Json.legible_ofMembers ?_
      simp only [List.forall_mem_cons]
      exact ⟨hweight, trivial, List.forall_mem_nil _⟩
    refine Json.legible_ofMembers ?_
    simp only [List.forall_mem_cons]
    exact ⟨⟨trivial, trivial, hparcel, trivial⟩, trivial, List.forall_mem_nil _⟩
  shallow := by decide

/-- An item with such a payload, of which all but the purpose is set. -/
def shipment : Item :=
  ⟨⟨7⟩, "shipment", some "acme", "1.2.0-rc.1", some "Shipment", none, parcels, 1700000000000, -1⟩

/-- The shipments of a tenant, and the item with an id. -/
def shipments : Filter :=
  ⟨[{ definitionId := some "shipment", tenantId := some "acme" }, { id := some ⟨7⟩ }]⟩

/-- An item reads back with its payload and its times from its members in the opposite order, and a
filter from what is printed of it; and so does a submission of which nothing is set and whose payload
is `null`. -/
theorem records_read_back_shipment :
    parcels.Portable ∧
      Json.decode Item.decoder (Json.object shipment.members.reverse).pretty = .ok shipment ∧
      Json.decode Filter.decoder shipments.toJson.text = .ok shipments ∧
      Json.Portable .null ∧
      Json.decode Submission.decoder
        (Submission.toJson ⟨none, none, none, none, none, none, .null⟩).pretty =
          .ok ⟨none, none, none, none, none, none, .null⟩ := by
  obtain ⟨hitem, -, hsubmission, -, hfilter⟩ := records_read_back
  have hreverse : Json.Documents shipment.toJson shipment.members
      (.object shipment.members.reverse) := .members (List.reverse_perm _)
  have hnull : Json.Portable .null := ⟨trivial, by decide⟩
  refine ⟨portable_parcels, hitem _ _ _ portable_parcels hreverse .lines, ?_, hnull, ?_⟩
  · obtain ⟨hdocument, hread⟩ := hfilter shipments
    exact hread _ _ hdocument .line
  · exact hsubmission _ _ _ hnull .value .lines

end Lineage
