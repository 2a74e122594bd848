/-!
# ClusterFilter — builds

What the program leaves to its build: whether sums are checked, and the words of what stands behind
it. Where a build makes a difference it is asked here, and what is proved holds in every build that
it does not name.
-/

namespace ClusterFilter

/-- A build of the program. -/
class Build where
  /-- Whether a sum that does not fit its type stops the program. Else it wraps around. -/
  overflowChecks : Bool
  /-- What the runtime writes when a check with the given message stops the program. -/
  stopReport : String → String
  /-- What the reader of TOML says of a text that holds no settings. -/
  tomlFault : String → String

namespace Build

/-- The build that is installed. -/
instance release : Build where
  overflowChecks := false
  stopReport message := message ++ "\n"
  tomlFault _ := "the text holds no settings"

/-- The build that is tested. -/
@[reducible]
def checked : Build :=
  { release with overflowChecks := true }

end Build

end ClusterFilter
