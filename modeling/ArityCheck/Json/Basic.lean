/-! JSON values.

Members of an object keep their order and their repetitions, which a decoder may want to refuse.
A number that is written as an integer is one; any other is kept as it is written. -/

namespace ArityCheck

inductive Json where
  | null
  | bool (value : Bool)
  | int (value : Int)
  /-- A number with a fraction or an exponent, or a negative zero. -/
  | real (literal : String)
  | string (value : String)
  /-- A string with half of a surrogate pair, which stands for no text. -/
  | brokenString
  | array (items : List Json)
  | object (members : List (String × Json))
deriving Repr

end ArityCheck
