/-! What can go wrong when a file is used. -/

namespace ArityCheck

inductive FileFault where
  | notFound
  | notDirectory
  | isDirectory
  /-- The bytes of the file are not UTF-8. -/
  | invalidText
deriving DecidableEq, Repr

def FileFault.message : FileFault → String
  | .notFound => "No such file or directory (os error 2)"
  | .notDirectory => "Not a directory (os error 20)"
  | .isDirectory => "Is a directory (os error 21)"
  | .invalidText => "stream did not contain valid UTF-8"

end ArityCheck
