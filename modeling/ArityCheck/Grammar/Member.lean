import ArityCheck.Grammar.Parse

/-! Keys, modifiers and the lists in parentheses: what members of objects, classes and types
have in common. -/

namespace ArityCheck.Grammar

open Parse

/-- A key computed from an expression. -/
def computedKey (rec : Rec) : Rule :=
  under .computedPropertyName (seq [mark "[", rec (.expression {}), mark "]"])

/-- The key of a member. -/
def propertyName (rec : Rec) : Rule :=
  choice [propertyWord, privateName, string, number, computedKey rec]

/-- The next lexeme is a key, or the star of a generator. -/
def keyAhead : Parse Unit :=
  check fun s i =>
    let j := skipTrivia s.chars i
    match s.chars[j]? with
    | none => false
    | some c =>
      c == '[' || c == '#' || c == '*' || c == '\x22' || c == '\x27' || c.isDigit ||
        (wordEnd? s.chars j).isSome

/-- A word that modifies the member after it. It is the member's key where no other key follows
or, in a body of members that lines can divide, where a member may end. -/
def modifier (w : String) (divided : Bool) : Rule := do
  let found ← keyword w
  if divided then notEnding false
  keyAhead
  return found

def star : Rule := operator "*"

def question : Rule := operator "?"

/-- An initial value. -/
def initializer (rec : Rec) (scope : Scope := {}) : Rule :=
  seq [operator "=", field .value (rec (.expression scope))]

def spread (rec : Rec) : Rule :=
  under .spreadElement (seq [operator "...", rec (.expression {})])

def arguments (rec : Rec) : Rule :=
  under .arguments (seq [mark "(", sparseList (spread rec <|> rec (.expression {})), mark ")"])

/-- An expression in parentheses, which may have a type of its own. -/
def parenthesized (rec : Rec) : Rule :=
  under .parenthesizedExpression <| seq [mark "(", rec (.expressions {}),
    opt (whenTyped (field .type (under .typeAscription (seq [mark ":", rec .type])))), mark ")"]

/-- What a decorator names: a name, a member, or a call of one of them. -/
def decorated (rec : Rec) : Rule := do
  let first ← identifier
  let name ← iterate (fun object => do
    let rest ← seq [operator ".", field .property propertyWord]
    return group .memberExpression (assign .object object ++ rest)) first
  (do
    let types ← opt (whenTyped (field .typeArguments (rec .typeArguments)))
    let args ← field .arguments (arguments rec)
    return group .callExpression (assign .function name ++ types ++ args)) <|> pure name

def decorator (rec : Rec) : Rule :=
  under .decorator (seq [mark "@", decorated rec <|> parenthesized rec])

def decorators (rec : Rec) : Rule := repeated (field .decorator (decorator rec))

end ArityCheck.Grammar
