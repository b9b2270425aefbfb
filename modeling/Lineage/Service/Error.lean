/-
The causes of failed service calls and their texts.
-/

import Lineage.Mode
import Lineage.Plan
import Lineage.Store.Error

namespace Lineage

/-- The cause of a failed service call. -/
inductive ServiceError where
  /-- The manual mode does not change a row that is there. -/
  | conflict (definitionId : String) (tenantId : Option String) (version : String)
  /-- A name that is no mode. -/
  | invalidPolicy (name : String)
  /-- The latest version cannot be incremented. -/
  | versionComputation (cause : IncrementError)
  /-- Neither the submission nor its payload has a definition id. -/
  | missingDefinitionId
  | store (cause : StoreError)
deriving Repr

namespace ServiceError

/-- The service's view of a rejection. -/
def ofRejection : Rejection → ServiceError
  | .conflict definitionId tenantId version => .conflict definitionId tenantId version
  | .increment cause => .versionComputation cause

/-- The text of a failed service call. -/
def message : ServiceError → String
  | .conflict definitionId tenantId version =>
    s!"cannot update definition {definitionId} for tenant {describeTenant tenantId} " ++
      s!"version {version} because definition exists and manual version control is enabled"
  | .invalidPolicy name => Mode.unknownMessage name
  | .versionComputation cause => cause.message
  | .missingDefinitionId => "definition id is missing and the payload carries no `id` field"
  | .store cause => cause.message

/-- Whether a failure comes from the store. -/
def isFromStore : ServiceError → Bool
  | .store _ => true
  | _ => false

end ServiceError

end Lineage
