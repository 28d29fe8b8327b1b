import ArityCheck.Path.Basic

/-! The languages a source file can be written in, told by its extension. -/

namespace ArityCheck

inductive Dialect where
  | javaScript
  | jsx
  | typeScript
  | tsx
deriving DecidableEq, Repr

namespace Dialect

/-- Every extension that belongs to a dialect, in the order in which they are listed. -/
def extensions : List String := ["js", "mjs", "cjs", "jsx", "ts", "mts", "cts", "tsx"]

/-- The dialect of an extension, which is written without its dot and in lower case. -/
def ofExtension? : String → Option Dialect
  | "js" | "mjs" | "cjs" => some .javaScript
  | "jsx" => some .jsx
  | "ts" | "mts" | "cts" => some .typeScript
  | "tsx" => some .tsx
  | _ => none

/-- The dialect of a file. A file of no known dialect is refused with its extension. -/
def ofPath (p : Path) : Except String Dialect :=
  let ext := p.extension?.getD ""
  match ofExtension? ext with
  | some d => .ok d
  | none => .error ext

/-- What is said about a file that is refused for its extension. -/
def unsupported (ext : String) : String := "unsupported file extension: " ++ ext

/-- Types may be written in this dialect. -/
def typed : Dialect → Bool
  | .typeScript | .tsx => true
  | .javaScript | .jsx => false

/-- Elements such as `<a/>` are expressions in this dialect. Plain JavaScript reads them too. -/
def markup : Dialect → Bool
  | .typeScript => false
  | .javaScript | .jsx | .tsx => true

end Dialect

end ArityCheck
