import ThetaDirectory.Catalog.Edge
import ThetaDirectory.Catalog.Json

/-!
# Resources

A row of the `Resource` table, and what the directory reads off its metadata
everywhere.
-/

namespace ThetaDirectory.Catalog

/-- A catalogue row. -/
structure Resource where
  id : String
  kind : String
  name : String
  slug : String
  description : Option String
  createdBy : Option String
  metadata : Metadata

namespace Resource

/-- The resource's subtype in lower case. -/
def subType (resource : Resource) : String :=
  let value := resource.metadata.field "subType"
  toLowerCase (if value.isTruthy then value.text else "")

/-- The flag set when an operator promotes or creates a row. -/
def managed (resource : Resource) : Bool := (resource.metadata.field "managed").isTrue

/-- The discovery sources that reported the row. -/
def discoverySources (resource : Resource) : Json := resource.metadata.field "discovery_sources"

end Resource

end ThetaDirectory.Catalog
