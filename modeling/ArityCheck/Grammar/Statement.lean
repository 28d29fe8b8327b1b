import ArityCheck.Grammar.Expression

/-! Statements, declarations and modules. -/

namespace ArityCheck.Grammar

open Parse

/-! ### Blocks -/

def block (rec : Rec) : Rule :=
  under .statementBlock (seq [openBrace, repeated (rec .statement), htmlComments, closeBrace])

def expressionStatement (rec : Rec) : Rule :=
  under .expressionStatement (seq [rec (.expressions {}), semicolon true])

/-- A statement that begins with a brace: a block, or an object where that cannot be one. -/
def bracedStatement (rec : Rec) : Rule :=
  choice [do labelledBrace; expressionStatement rec, rec .block, expressionStatement rec]

/-! ### Variables -/

/-- A declared name, and whether it has an initial value. -/
def declarator (rec : Rec) (scope : Scope) : Parse (List Tree × Bool) := do
  let name ← field .name (destructuring rec <|> identifier)
  let ascribed ← opt (whenTyped (seq [opt (operator "!"), field .type (typeAscription rec)]))
  let value ← opt (initializer rec scope)
  return (group .variableDeclarator (name ++ ascribed ++ value), !value.isEmpty)

/-- Declared names with commas between them, and whether the last one has an initial value. -/
def declarators (rec : Rec) (scope : Scope) : Parse (List Tree × Bool) := do
  let first ← declarator rec scope
  iterate (fun (done, _) => do
    let mark ← comma
    let (next, valued) ← declarator rec scope
    return (done ++ mark ++ next, valued)) first

/-- The word that begins a declaration of variables, and what it declares. -/
def variableHead : Parse (Kind × List Tree) := do
  match ← nextWord with
  | some "var" => return (.variableDeclaration, ← keyword "var")
  | some "const" => return (.lexicalDeclaration, ← keyword "const")
  | some "let" =>
    let head ← keyword "let"
    notEnding false
    return (.lexicalDeclaration, head)
  | some "using" =>
    let head ← keyword "using"
    sameLine
    return (.usingDeclaration, head)
  | some "await" =>
    let head ← seq [keyword "await", do sameLine; keyword "using"]
    sameLine
    return (.usingDeclaration, head)
  | _ => failure

def variableStatement (rec : Rec) : Rule := do
  let (kind, head) ← variableHead
  let (names, valued) ← declarators rec {}
  let stop ← semicolon valued
  return group kind (head ++ names ++ stop)

/-! ### Declarations of the typed dialects -/

def nestedName : Rule := do
  let first ← identifier
  iterate (fun outer => do
    return group .nestedIdentifier (outer ++ (← seq [operator ".", propertyWord]))) first

def typeAlias (rec : Rec) : Rule :=
  under .typeAliasDeclaration <| seq [keyword "type", do notEnding false; field .name typeName,
    opt (typeParameters rec), operator "=", field .value (rec .type), semicolon false]

def interface (rec : Rec) : Rule :=
  under .interfaceDeclaration <| seq [keyword "interface", do notEnding false; field .name typeName,
    opt (typeParameters rec),
    opt (under .extendsTypeClause (seq [keyword "extends", sepBy1 comma (rec .typeOperand)])),
    field .body (rec .objectType)]

def enumBody (rec : Rec) : Rule :=
  under .enumBody <| seq [openBrace, commaList (choice [
    under .enumAssignment (seq [field .name (propertyName rec), initializer rec]),
    field .name (propertyName rec)]), closeBrace]

def enumeration (rec : Rec) : Rule :=
  under .enumDeclaration <| seq [opt (keyword "const"), keyword "enum",
    do notEnding false; field .name identifier, field .body (enumBody rec)]

def namespaceWith (rec : Rec) (kind : Kind) (w : String) : Rule :=
  under kind <| seq [keyword w, do notEnding false; field .name (string <|> nestedName),
    (field .body (rec .block)) <|> (do ending false; return []) <|> ahead (mark ";") *> pure []]

def importAlias : Rule :=
  under .importAlias <| seq [keyword "import", opt typeWord, identifier, operator "=", nestedName,
    semicolon false]
where
  /-- The word `type` before a name. -/
  typeWord : Rule := do
    let found ← keyword "type"
    notAhead (operator "=")
    return found

/-- A declaration that other files give a meaning to. -/
def ambient (rec : Rec) (declaration : Rule) : Rule :=
  under .ambientDeclaration <| seq [keyword "declare", do
    notEnding false
    choice [declaration, seq [keyword "global", rec .block]]]

/-- Declarations, by the word they begin with. `depth` bounds how many `declare` stand in a
row. -/
def declaration (rec : Rec) : Nat → Rule
  | 0 => failure
  | depth + 1 => do
    let types ← typed
    match ← nextWord with
    | some "function" => functionDeclaration rec
    | some "async" => functionDeclaration rec
    | some "class" => classDeclaration rec
    | some "const" => (if types then enumeration rec else failure) <|> variableStatement rec
    | some "var" | some "let" | some "using" | some "await" => variableStatement rec
    | some w =>
      if !types then failure
      else
        match w with
        | "type" => typeAlias rec
        | "interface" => interface rec
        | "enum" => enumeration rec
        | "abstract" => abstractClass rec
        | "namespace" => namespaceWith rec .namespaceDeclaration "namespace"
        | "module" => namespaceWith rec .moduleDeclaration "module"
        | "import" => importAlias
        | "declare" => ambient rec (declaration rec depth)
        | _ => failure
    | none =>
      if (← nextChar) == some '@' then classDeclaration rec <|> whenTyped (abstractClass rec)
      else failure

def declarationAny (rec : Rec) : Rule := do
  let bound ← look fun s i => s.chars.size - i + 1
  declaration rec bound

/-! ### Modules -/

def moduleName : Rule :=
  choice [word .identifier (!isReserved ·), string, keyword "default"]

def fromClause : Rule := seq [keyword "from", field .source string]

def attributes (rec : Rec) : Rule :=
  under .importAttribute (seq [keyword "with" <|> keyword "assert", object rec])

def namespaceImport : Rule :=
  under .namespaceImport (seq [star, keyword "as", identifier])

/-- A name that is brought in, perhaps as a type and perhaps under another name. -/
def specifier (kind : Kind) : Rule :=
  choice [
    under kind (seq [kindWord, field .name moduleName, keyword "as", moduleName]),
    under kind (seq [field .name moduleName, keyword "as", moduleName]),
    under kind (seq [kindWord, field .name moduleName]),
    under kind (field .name moduleName)]
where
  kindWord : Rule := whenTyped (keyword "type" <|> keyword "typeof")

def namedImports : Rule :=
  under .namedImports (seq [openBrace, commaList (specifier .importSpecifier), closeBrace])

def importClause : Rule :=
  under .importClause <| choice [namespaceImport, namedImports,
    seq [identifier, opt (seq [comma, namespaceImport <|> namedImports])]]

def importStatement (rec : Rec) : Rule := do
  let rest (head : Rule) : Rule := under .importStatement <| seq [head,
    choice [
      seq [importClause, fromClause],
      whenTyped (under .importRequire (seq [identifier, operator "=", keyword "require", mark "(",
        field .source string, mark ")"])),
      field .source string],
    opt (attributes rec), semicolon false]
  choice [rest (keyword "import"),
    whenTyped (rest (seq [keyword "import", keyword "type" <|> keyword "typeof"])),
    whenTyped importAlias]

def exportClause : Rule :=
  under .exportClause (seq [openBrace, commaList (specifier .exportSpecifier), closeBrace])

/-- What is exported under the name `default`: a declaration, or the value of an expression. -/
def defaultExport (rec : Rec) : Rule :=
  seq [keyword "default", choice [
    field .declaration (declarationAny rec),
    seq [field .value (rec (.expression {})), semicolon true]]]

def exportStatement (rec : Rec) : Rule :=
  under .exportStatement <| choice [
    seq [keyword "export", opt (whenTyped (keyword "type")), choice [
      seq [star, fromClause],
      seq [under .namespaceExport (seq [star, keyword "as", moduleName]), fromClause],
      seq [exportClause, opt fromClause]], opt (attributes rec), semicolon false],
    seq [decorators rec, keyword "export",
      choice [field .declaration (declarationAny rec), defaultExport rec]],
    whenTyped (seq [keyword "export", operator "=", rec (.expression {}), semicolon true]),
    whenTyped (seq [keyword "export", keyword "as", keyword "namespace", identifier, semicolon false])]

/-! ### Control -/

def condition (rec : Rec) : Rule := field .condition (parenthesized rec)

def body (rec : Rec) : Rule := field .body (rec .statement)

def ifStatement (rec : Rec) : Rule :=
  under .ifStatement <| seq [keyword "if", condition rec, field .consequence (rec .statement),
    opt (field .alternative (under .elseClause (seq [keyword "else", rec .statement])))]

def switchStatement (rec : Rec) : Rule :=
  under .switchStatement <| seq [keyword "switch", field .value (parenthesized rec),
    under .switchBody (seq [openBrace, repeated (choice [
      under .switchCase (seq [keyword "case", field .value (rec (.expressions {})), mark ":",
        repeated (rec .statement)]),
      under .switchDefault (seq [keyword "default", mark ":", repeated (rec .statement)])]),
      htmlComments, closeBrace])]

/-- The head of a loop over the keys or values of something. -/
def forInHead (rec : Rec) : Rule :=
  seq [choice [declared, seq [field .left (destructuring rec), inOrOf],
      seq [field .left (target rec <|> parenthesized rec), inOrOf]],
    field .right (rec (.expressions {}))]
where
  inOrOf : Rule := keyword "in" <|> keyword "of"
  declared : Rule := do
    let (_, head) ← variableHead
    let rest ← seq [field .left (destructuring rec <|> identifier),
      opt (initializer rec ⟨true, false⟩), inOrOf]
    return head ++ rest

/-- The head of a loop with a start, a condition and a step. -/
def forHead (rec : Rec) : Rule :=
  seq [
    choice [
      field .initializer (do
        let (kind, head) ← variableHead
        let (names, _) ← declarators rec ⟨true, false⟩
        return group kind (head ++ names ++ (← mark ";"))),
      seq [field .initializer (rec (.expressions ⟨true, false⟩)), mark ";"],
      mark ";"],
    opt (field .condition (rec (.expressions {}))), mark ";",
    opt (field .increment (rec (.expressions {})))]

def forStatement (rec : Rec) : Rule :=
  choice [
    under .forInStatement (seq [keyword "for", opt (keyword "await"), mark "(", forInHead rec,
      mark ")", body rec]),
    under .forStatement (seq [keyword "for", mark "(", forHead rec, mark ")", body rec])]

def tryStatement (rec : Rec) : Rule :=
  under .tryStatement <| seq [keyword "try", field .body (rec .block),
    opt (under .catchClause (seq [keyword "catch",
      opt (seq [mark "(", field .parameter (destructuring rec <|> identifier),
        opt (whenTyped (field .type (typeAscription rec))), mark ")"]),
      field .body (rec .block)])),
    opt (under .finallyClause (seq [keyword "finally", field .body (rec .block)]))]

/-- A statement that leaves a loop, perhaps one that a label names. -/
def jumpStatement (kind : Kind) (w : String) : Rule :=
  under kind <| seq [keyword w,
    opt (do notEnding false; field .label (word .statementIdentifier (!isReserved ·))),
    semicolon false]

def returnStatement (rec : Rec) : Rule := do
  let head ← keyword "return"
  (do
    notEnding false
    let value ← rec (.expressions {})
    let stop ← semicolon true
    return group .returnStatement (head ++ value ++ stop)) <|>
  (do return group .returnStatement (head ++ (← semicolon false)))

def labeledStatement (rec : Rec) : Rule :=
  under .labeledStatement <| seq [field .label (word .statementIdentifier (!isReserved ·)), mark ":",
    body rec]

/-- Statements that begin with a word that has no other meaning. -/
def keywordStatement (rec : Rec) : String → Rule
  | "if" => ifStatement rec
  | "for" => forStatement rec
  | "while" => under .whileStatement (seq [keyword "while", condition rec, body rec])
  | "do" => under .doStatement <| seq [keyword "do", body rec, keyword "while", condition rec,
      opt (semicolon true)]
  | "switch" => switchStatement rec
  | "try" => tryStatement rec
  | "with" => under .withStatement (seq [keyword "with", field .object (parenthesized rec), body rec])
  | "break" => jumpStatement .breakStatement "break"
  | "continue" => jumpStatement .continueStatement "continue"
  | "debugger" => under .debuggerStatement (seq [keyword "debugger", semicolon false])
  | "return" => returnStatement rec
  | "throw" => under .throwStatement (seq [keyword "throw", rec (.expressions {}), semicolon true])
  | _ => failure

def statement (rec : Rec) : Rule := do
  let comments ← htmlComments
  let found ← do
    match ← nextChar with
    | some '\x7b' => bracedStatement rec
    | some ';' => lexeme .emptyStatement fun cs i => literal? cs i ";"
    | some '@' => choice [declarationAny rec, exportStatement rec, expressionStatement rec]
    | _ =>
      match ← nextWord with
      | none => expressionStatement rec
      | some "import" => importStatement rec <|> expressionStatement rec
      | some "export" => exportStatement rec
      | some w =>
        choice [keywordStatement rec w, declarationAny rec, labeledStatement rec,
          expressionStatement rec]
  return comments ++ found

end ArityCheck.Grammar
