import Telemetry.Configuration.Environment
import Telemetry.Configuration.Service
import Telemetry.Toml.Document

/-!
# Where the configuration comes from

The configuration of a service is gathered from a file, if there is one, and from environment
variables, which are laid over what the file says.
-/

namespace Telemetry.ServiceConfig

/-- The tree of settings that a file and variables give, if the file can be read. -/
def gather? (file : Option String) (vars : List (String × String)) : Option Json := do
  let base ← match file with
    | none => some (.object [])
    | some text => Toml.read? text
  let base := empty.toJson.merge base
  let base := base.merge (Environment.exporterSettings vars)
  return base.merge (Environment.settings vars)

/-- The configuration that a file and variables give, if they give one. -/
def load? (file : Option String) (vars : List (String × String)) : Option ServiceConfig := do
  let tree ← gather? file vars
  (read tree).toOption

end Telemetry.ServiceConfig
