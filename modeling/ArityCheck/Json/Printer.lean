import ArityCheck.Json.Basic

/-! Writing JSON text, on one line or with two blanks of indent for each level. -/

namespace ArityCheck.Json

/-! ### Strings -/

def hexDigit (n : Nat) : Char := Char.ofNat (if n < 10 then '0'.toNat + n else 'a'.toNat + (n - 10))

/-- A character inside a string. Only quotes, backslashes and control characters are escaped. -/
def escape (c : Char) : List Char :=
  match c with
  | '\x22' => ['\\', '\x22']
  | '\\' => ['\\', '\\']
  | '\x08' => ['\\', 'b']
  | '\x0c' => ['\\', 'f']
  | '\n' => ['\\', 'n']
  | '\r' => ['\\', 'r']
  | '\t' => ['\\', 't']
  | c =>
    if c.toNat < 0x20 then ['\\', 'u', '0', '0', hexDigit (c.toNat / 16), hexDigit (c.toNat % 16)]
    else [c]

def quote (s : String) : String := String.ofList ('\x22' :: s.toList.flatMap escape ++ ['\x22'])

/-! ### Values -/

/-- What stands between the parts of a container. -/
structure Layout where
  /-- The text after an opening bracket and after each comma, at a given depth. -/
  line : Nat → String
  colon : String

/-- Everything on one line. -/
def Layout.compact : Layout := ⟨fun _ => "", ":"⟩

/-- Each item on a line of its own. -/
def Layout.indented : Layout :=
  ⟨fun depth => String.ofList ('\n' :: List.replicate (2 * depth) ' '), ": "⟩

mutual

def write (l : Layout) (depth : Nat) : Json → String
  | .null => "null"
  | .bool true => "true"
  | .bool false => "false"
  | .int i => toString i
  | .real literal => literal
  | .string s => quote s
  | .brokenString => "null"
  | .array [] => "[]"
  | .array (x :: xs) =>
    "[" ++ l.line (depth + 1) ++ write l (depth + 1) x ++ writeItems l depth xs
  | .object [] => "\x7b\x7d"
  | .object ((k, v) :: ms) =>
    "\x7b" ++ l.line (depth + 1) ++ quote k ++ l.colon ++ write l (depth + 1) v ++
      writeMembers l depth ms

/-- The rest of an array, with its end. -/
def writeItems (l : Layout) (depth : Nat) : List Json → String
  | [] => l.line depth ++ "]"
  | x :: xs => "," ++ l.line (depth + 1) ++ write l (depth + 1) x ++ writeItems l depth xs

/-- The rest of an object, with its end. -/
def writeMembers (l : Layout) (depth : Nat) : List (String × Json) → String
  | [] => l.line depth ++ "\x7d"
  | (k, v) :: ms =>
    "," ++ l.line (depth + 1) ++ quote k ++ l.colon ++ write l (depth + 1) v ++
      writeMembers l depth ms

end

def compact (j : Json) : String := write .compact 0 j

def pretty (j : Json) : String := write .indented 0 j

end ArityCheck.Json
