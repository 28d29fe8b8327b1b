import ArityCheck.Grammar.Pattern

/-! Functions, methods and classes. -/

namespace ArityCheck.Grammar

open Parse

/-! ### Functions -/

/-- The word `async` before a function on the same line. -/
def asyncWord : Rule := do
  let found ← keyword "async"
  sameLine
  return found

/-- A function with a body. `kinds` are what it is without and with the star of a generator. -/
def functionWith (rec : Rec) (kinds : Kind × Kind) (name : Rule) : Rule := do
  let head ← seq [opt asyncWord, keyword "function"]
  let mark ← opt star
  let rest ← seq [field .name name, signature rec, field .body (rec .block)]
  return group (if mark.isEmpty then kinds.1 else kinds.2) (head ++ mark ++ rest)

def functionExpression (rec : Rec) : Rule :=
  functionWith rec (.functionExpression, .generatorFunction) (opt identifier)

/-- A function that is declared without a body. -/
def functionSignature (rec : Rec) : Rule :=
  under .functionSignature <| seq [opt asyncWord, keyword "function", field .name identifier,
    signature rec, mark ";" <|> (do ending false true; return [])]

def functionDeclaration (rec : Rec) : Rule :=
  functionWith rec (.functionDeclaration, .generatorFunctionDeclaration) identifier <|>
    whenTyped (functionSignature rec)

/-- The next lexemes are a brace, a word and a colon, which reads better as an object. -/
def labelledBrace : Parse Unit := ahead (seq [openBrace, word .token (!isReserved ·), mark ":"])

/-- The body of an arrow function, a block or an expression. -/
def arrowBody (rec : Rec) (scope : Scope) : Rule :=
  choice [do labelledBrace; rec (.expression scope), rec .block, rec (.expression scope)]

def arrow (rec : Rec) (scope : Scope) : Rule :=
  under .arrowFunction <| seq [opt asyncWord,
    field .parameter identifierBeforeArrow <|> signature rec scope,
    operator "=>", field .body (arrowBody rec scope)]
where
  /-- A parameter without parentheses. -/
  identifierBeforeArrow : Rule := do
    let found ← identifier
    ahead (operator "=>")
    return found

/-! ### Methods of objects and of plain classes -/

/-- The words `static` and `get` before a line end, which read as one. -/
def staticGet : Rule :=
  lexeme .token fun cs i => do
    guard (wordAt? cs i == some "static")
    let afterStatic := i + 6
    let j := skipBlanks cs afterStatic
    guard (afterStatic < j && wordAt? cs j == some "get")
    let k := j + 3
    let blanks := (cs.extract k (skipBlanks cs k)).toList.reverse
    let kept := blanks.dropWhile (· != '\n')
    guard (!kept.isEmpty)
    return k + kept.length

def accessorWord (divided : Bool) : Rule :=
  choice [modifier "get" divided, modifier "set" divided, star]

def method (rec : Rec) (divided : Bool) : Rule :=
  under .methodDefinition <| seq [decorators rec, opt (staticGet <|> modifier "static" divided),
    opt (modifier "async" divided), opt (accessorWord divided), field .name (propertyName rec),
    signature rec, field .body (rec .block)]

/-- A method of an object in a typed dialect, which has no decorators. -/
def typedMethod (rec : Rec) : Rule :=
  under .methodDefinition <| seq [opt (modifier "async" false), opt (accessorWord false),
    field .name (propertyName rec), opt question, signature rec, field .body (rec .block)]

/-! ### Classes -/

def staticBlock (rec : Rec) : Rule :=
  under .classStaticBlock (seq [keyword "static", field .body (rec .block)])

/-- A field and the end of it. -/
def plainField (rec : Rec) : Rule := do
  let head ← seq [decorators rec, opt (modifier "static" true), field .property (propertyName rec)]
  let value ← opt (initializer rec)
  let stop ← semicolon (!value.isEmpty)
  return group .fieldDefinition (head ++ value) ++ stop

def plainMember (rec : Rec) : Rule :=
  choice [mark ";", staticBlock rec, seq [method rec true, opt (mark ";")], plainField rec]

/-- The words before a member of a class, in any order. -/
def typedModifiers : Rule :=
  repeated (choice [accessibility, override,
    choice (["static", "readonly", "abstract", "declare", "accessor", "async"].map (modifier · true))])

def typedField (rec : Rec) (decorators : List Tree) : Rule := do
  let head ← seq [typedModifiers, field .name (propertyName rec), opt (question <|> operator "!"),
    opt (field .type (typeAscription rec))]
  let value ← opt (initializer rec)
  let stop ← comma <|> semicolon (!value.isEmpty)
  return group .publicFieldDefinition (decorators ++ head ++ value) ++ stop

/-- A method of a class, which is a signature where it has no body. -/
def typedClassMethod (rec : Rec) : Rule := do
  let modifiers ← typedModifiers
  let rest ← seq [opt (accessorWord true), field .name (propertyName rec), opt question, signature rec]
  (do
    let body ← field .body (rec .block)
    let stop ← opt (mark ";")
    return group .methodDefinition (modifiers ++ rest ++ body) ++ stop) <|>
  (do
    let stop ← choice [comma, mark ";", do ending false true; return []]
    let isAbstract := modifiers.any fun t => t.kind == .token && t.text == "abstract"
    return group (if isAbstract then .abstractMethodSignature else .methodSignature)
      (modifiers ++ rest) ++ stop)

def typedMember (rec : Rec) : Rule :=
  choice [mark ";", staticBlock rec, do
    let found ← decorators rec
    choice [
      do return found ++ (← typedClassMethod rec),
      do return found ++ (← seq [opt (modifier "static" true), indexSignature rec, comma <|> semicolon false]),
      typedField rec found]]

def classBody (rec : Rec) : Rule := do
  let member := if ← typed then typedMember rec else plainMember rec
  under .classBody (seq [openBrace, repeated member, closeBrace])

def heritage (rec : Rec) : Rule := do
  if ← typed then
    let implemented := under .implementsClause (seq [keyword "implements", sepBy1 comma (rec .type)])
    under .classHeritage <| choice [
      seq [under .extendsClause (seq [keyword "extends", sepBy1 comma (seq [
        field .value (rec (.chain {})), opt (field .typeArguments (rec .typeArguments))])]),
        opt implemented],
      implemented]
  else under .classHeritage (seq [keyword "extends", rec (.chain {})])

def className : Rule := do
  if ← typed then word .typeIdentifier fun w => !isReserved w && w != "implements"
  else identifier

def classWith (rec : Rec) (kind : Kind) (name : Rule) : Rule :=
  under kind <| seq [decorators rec, keyword "class", field .name name,
    opt (whenTyped (typeParameters rec)), opt (heritage rec), field .body (rec .classBody)]

def classExpression (rec : Rec) : Rule := classWith rec .classExpression (opt className)

def classDeclaration (rec : Rec) : Rule := classWith rec .classDeclaration className

def abstractClass (rec : Rec) : Rule :=
  under .abstractClassDeclaration <| seq [decorators rec, keyword "abstract", keyword "class",
    field .name className, opt (typeParameters rec), opt (heritage rec), field .body (rec .classBody)]

end ArityCheck.Grammar
