import ArityCheck.Toml.Document
import ArityCheck.Toml.Quoted

/-! Reading TOML documents.

Values may be nested to a fixed depth, and so may dotted keys. Loops over the parts of a document
run on the length of its text, of which every turn reads some. -/

namespace ArityCheck.Toml

/-- Arrays, inline tables and dotted keys do not go deeper than this. -/
def depthLimit : Nat := 79

/-! ### Blanks and comments -/

def skipBlanks (cs : List Char) : List Char := cs.dropWhile fun c => c == ' ' || c == '\t'

/-- Skips blanks, comments and ends of lines. None if a comment holds a control character. -/
def skipLines (inComment : Bool) : List Char → Option (List Char)
  | [] => some []
  | '\r' :: '\n' :: rest => skipLines false rest
  | '\n' :: rest => skipLines false rest
  | c :: rest =>
    if inComment then if isPlain c then skipLines true rest else none
    else if c == ' ' || c == '\t' then skipLines false rest
    else if c == '#' then skipLines true rest
    else some (c :: rest)

/-- Skips the rest of a line, on which nothing but a comment may stand. -/
def endLine (inComment : Bool) : List Char → Option (List Char)
  | [] => some []
  | '\r' :: '\n' :: rest => some rest
  | '\n' :: rest => some rest
  | c :: rest =>
    if inComment then if isPlain c then endLine true rest else none
    else if c == ' ' || c == '\t' then endLine false rest
    else if c == '#' then endLine true rest
    else none

/-! ### Keys -/

def isBareChar (c : Char) : Bool := c.isAlphanum || c == '_' || c == '-'

def readSimpleKey (cs : List Char) : Option (String × List Char) :=
  match cs with
  | '\x22' :: _ | '\x27' :: _ => readLine cs
  | cs =>
    let (bare, rest) := cs.span isBareChar
    if bare.isEmpty then none else some (String.ofList bare, rest)

/-- Reads a dotted key with at most `n` parts and the blanks after it. -/
def readKeys : Nat → List Char → Option (List String × List Char)
  | 0, _ => none
  | n + 1, cs => do
    let (key, rest) ← readSimpleKey (skipBlanks cs)
    match skipBlanks rest with
    | '.' :: rest =>
      let (keys, rest) ← readKeys n rest
      return (key :: keys, rest)
    | rest => return ([key], rest)

/-- Reads a key, and parts it into the way to its table and its last part. -/
def readKey (cs : List Char) : Option ((List String × String) × List Char) := do
  let (keys, rest) ← readKeys depthLimit cs
  let last ← keys.getLast?
  return ((keys.dropLast, last), rest)

/-! ### Values -/

abbrev ReadValue := List Char → Option (Value × List Char)

/-- The items of an array up to its end. -/
def readItems (read : ReadValue) : Nat → List Char → Option (List Value × List Char)
  | 0, _ => none
  | n + 1, cs => do
    match ← skipLines false cs with
    | ']' :: rest => return ([], rest)
    | cs =>
      let (v, rest) ← read cs
      match ← skipLines false rest with
      | ',' :: rest =>
        let (vs, rest) ← readItems read n rest
        return (v :: vs, rest)
      | ']' :: rest => return ([v], rest)
      | _ => none

/-- The entries of an inline table after the first brace or a comma. -/
def readEntries (read : ReadValue) (entries : List (String × Item)) :
    Nat → List Char → Option (List (String × Item) × List Char)
  | 0, _ => none
  | n + 1, cs => do
    let ((path, key), rest) ← readKey cs
    match rest with
    | '=' :: rest =>
      let (v, rest) ← read (skipBlanks rest)
      let entries ← Document.addValue path key v entries
      match skipBlanks rest with
      | ',' :: rest => readEntries read entries n rest
      | '\x7d' :: rest => return (entries, rest)
      | _ => none
    | _ => none

def readInlineTable (read : ReadValue) (cs : List Char) : Option (Value × List Char) :=
  match skipBlanks cs with
  | '\x7d' :: rest => some (.table [], rest)
  | cs =>
    (readEntries read [] cs.length cs).map fun (entries, rest) =>
      (.table (Item.entryValues entries), rest)

/-- Reads a value with at most `depth` levels of brackets. -/
def readValue : Nat → ReadValue
  | depth, cs =>
    match cs with
    | '[' :: rest =>
      match depth with
      | 0 => none
      | depth + 1 =>
        (readItems (readValue depth) (rest.length + 1) rest).map fun (vs, rest) => (.array vs, rest)
    | '\x7b' :: rest =>
      match depth with
      | 0 => none
      | depth + 1 => readInlineTable (readValue depth) rest
    | '\x22' :: _ | '\x27' :: _ => (readQuoted cs).map fun (s, rest) => (.string s, rest)
    | cs => readScalar cs

/-! ### Documents -/

/-- The table that is open: the keys of its header, and all that was read so far. -/
structure State where
  header : List String
  entries : List (String × Item)

def readHeader (s : State) (cs : List Char) : Option (State × List Char) :=
  match cs with
  | '[' :: rest => do
    let ((path, key), rest) ← readKey rest
    match rest with
    | ']' :: ']' :: rest =>
      return ({ header := path ++ [key], entries := ← Document.openElement path key s.entries }, rest)
    | _ => none
  | cs => do
    let ((path, key), rest) ← readKey cs
    match rest with
    | ']' :: rest =>
      return ({ header := path ++ [key], entries := ← Document.openTable path key s.entries }, rest)
    | _ => none

def readAssignment (s : State) (cs : List Char) : Option (State × List Char) := do
  let ((path, key), rest) ← readKey cs
  match rest with
  | '=' :: rest =>
    let (v, rest) ← readValue depthLimit (skipBlanks rest)
    return ({ s with entries := ← Document.addUnder s.header path key v s.entries }, rest)
  | _ => none

/-- Reads at most `n` statements, each on a line of its own. -/
def readStatements : Nat → State → List Char → Option State
  | 0, _, _ => none
  | n + 1, s, cs => do
    match ← skipLines false cs with
    | [] => return s
    | '[' :: rest =>
      let (s, rest) ← readHeader s rest
      readStatements n s (← endLine false rest)
    | cs =>
      let (s, rest) ← readAssignment s cs
      readStatements n s (← endLine false rest)

/-- A mark of the byte order may come first. -/
def skipMark : List Char → List Char
  | '\uFEFF' :: cs => cs
  | cs => cs

/-- The table that a document stands for, if it is one. -/
def parse? (text : String) : Option (List (String × Value)) :=
  let cs := skipMark text.toList
  (readStatements (cs.length + 1) ⟨[], []⟩ cs).map fun s => Item.entryValues s.entries

end ArityCheck.Toml
