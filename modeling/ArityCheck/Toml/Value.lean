import ArityCheck.Number.Double

/-! TOML values. The entries of a table are kept in the order of their keys. -/

namespace ArityCheck.Toml

inductive Value where
  | string (text : String)
  | integer (value : Int)
  | float (value : Double)
  | boolean (value : Bool)
  /-- A date, a time or both, as they are written in full. -/
  | datetime (text : String)
  | array (items : List Value)
  | table (entries : List (String × Value))
deriving Repr

/-- The name of the type of a value. -/
def Value.type : Value → String
  | .string _ => "string"
  | .integer _ => "integer"
  | .float _ => "float"
  | .boolean _ => "boolean"
  | .datetime _ => "datetime"
  | .array _ => "array"
  | .table _ => "table"

end ArityCheck.Toml
