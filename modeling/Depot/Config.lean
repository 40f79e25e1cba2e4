/-!
# Configuration — region and endpoint

A **`Config`** may name a region and an endpoint. Variables of the environment count only when they
are not empty; where no region is named, there is a default one.
-/

namespace Depot

/-- What a client connects to. -/
structure Connection where
  region : String
  endpointUrl : Option String

/-- The region and the endpoint that are asked for. -/
structure Config where
  region : Option String
  endpointUrl : Option String

namespace Config

/-- The region when none is asked for. -/
def defaultRegion : String := "ap-south-1"

/-- The variable of the region. -/
def regionVariable : String := "AWS_REGION"

/-- The variable of the endpoint. -/
def endpointVariable : String := "AWS_ENDPOINT_URL"

/-- The configuration of an environment. -/
def ofEnvironment (lookup : String → Option String) : Config where
  region := (lookup regionVariable).filter (· ≠ "")
  endpointUrl := (lookup endpointVariable).filter (· ≠ "")

/-- The region that clients talk to. -/
def effectiveRegion (c : Config) : String := c.region.getD defaultRegion

/-- The connection of a configuration. -/
def load (c : Config) : Connection := ⟨c.effectiveRegion, c.endpointUrl⟩

end Config

end Depot
