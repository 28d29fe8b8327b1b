import ArityCheck.FileSystem.Fault
import ArityCheck.Path.Basic

/-! What can be wrong with a configuration. -/

namespace ArityCheck

inductive ConfigError where
  | unreadable (path : Path) (fault : FileFault)
  /-- The text is no TOML, or does not have the form of a configuration. -/
  | malformed
  | invalidLimit (rule key value : String)
  | unknownOption (rule key : String)
deriving DecidableEq, Repr

def ConfigError.message : ConfigError → String
  | .unreadable path fault => "Failed to read config file " ++ path.text ++ ": " ++ fault.message
  | .malformed => "Failed to parse config: not a valid configuration"
  | .invalidLimit rule key value => "Invalid limit for \x60" ++ key ++ "\x60 in rule \x60" ++ rule ++
      "\x60: expected an integer >= -1, got " ++ value
  | .unknownOption rule key => "Unknown option \x60" ++ key ++ "\x60 for rule \x60" ++ rule ++ "\x60"

end ArityCheck
