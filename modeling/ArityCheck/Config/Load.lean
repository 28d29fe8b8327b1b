import ArityCheck.Config.Decode
import ArityCheck.Config.Error
import ArityCheck.FileSystem.Basic

/-! Loading configurations from files. -/

namespace ArityCheck.Config

/-- The configuration in a file. -/
def load (fs : FileSystem) (path : Path) : Except ConfigError Config :=
  match fs.read path with
  | .error fault => .error (.unreadable path fault)
  | .ok text =>
    match parse? text with
    | some config => .ok config
    | none => .error .malformed

end ArityCheck.Config
