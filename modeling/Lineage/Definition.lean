/-
Definition items and the shapes they pass through on their way into a store.

A caller hands in a `Submission`, in which everything but the payload may be left out. Once its
definition id is known it becomes a `Candidate`, and the store makes an `Item` of that by giving it
an id and times. The items of one definition id and one tenant form a lineage, and a lineage holds
each version once. A blank tenant stands for the global scope, like no tenant at all.
-/

import Lineage.Json.Value
import Lineage.Text.Blank
import Lineage.Uuid

namespace Lineage

/-- A stored item. Times are in milliseconds. -/
structure Item where
  id : Uuid
  definitionId : String
  tenantId : Option String
  version : String
  name : Option String
  purpose : Option String
  payload : Json
  createdAt : Int64
  lastUpdatedAt : Int64
deriving Repr

/-- An item that is not stored yet. -/
structure Candidate where
  definitionId : String
  tenantId : Option String
  version : String
  name : Option String
  purpose : Option String
  payload : Json
deriving Repr

/-- What a caller hands in. -/
structure Submission where
  id : Option Uuid
  definitionId : Option String
  tenantId : Option String
  version : Option String
  name : Option String
  purpose : Option String
  payload : Json
deriving Repr

/-- The tenant that a given one stands for: none if it is blank. -/
def normalizeTenant (tenantId : Option String) : Option String :=
  tenantId.filter fun t => !Text.isBlankText t

/-- How messages name a tenant. -/
def describeTenant (tenantId : Option String) : String :=
  tenantId.getD "<global>"

/-- The version of a candidate that is not given one. -/
def defaultVersion : String := "1"

/-- The identifier that a payload carries: its member `id`, if that is a string and not blank. -/
def payloadIdentifier (payload : Json) : Option String :=
  ((payload.member? "id").bind Json.text?).filter fun id => !Text.isBlankText id

/-- Puts everything that a candidate says, but its version, into an item. -/
def Candidate.applyTo (c : Candidate) (item : Item) : Item :=
  { item with
    definitionId := c.definitionId
    tenantId := c.tenantId
    name := c.name
    purpose := c.purpose
    payload := c.payload }

namespace Submission

/-- The definition id of a submission: the given one, else the one that the payload carries. -/
def resolvedId (s : Submission) : Option String :=
  s.definitionId.or (payloadIdentifier s.payload)

/-- The candidate for a submission with the given definition id. -/
def toCandidate (s : Submission) (definitionId initialVersion : String) : Candidate where
  definitionId := definitionId
  tenantId := normalizeTenant s.tenantId
  version := s.version.getD initialVersion
  name := s.name
  purpose := s.purpose
  payload := s.payload

end Submission

/-- Decides whether a candidate leaves a stored item as it is. -/
abbrev Comparator := Item → Candidate → Bool

/-- The comparator by content: nothing but the payload counts. -/
def samePayload : Comparator := fun item candidate =>
  item.payload.equal candidate.payload

theorem normalizeTenant_idem (t : Option String) :
    normalizeTenant (normalizeTenant t) = normalizeTenant t := by
  cases t with
  | none => rfl
  | some t =>
    simp only [normalizeTenant, Option.filter_some]
    split <;> simp_all

end Lineage
