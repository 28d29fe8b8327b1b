import ArityCheck.Grammar.Member

/-! The types that may be written in the typed dialects. -/

namespace ArityCheck.Grammar

open Parse

def typeAscription (rec : Rec) : Rule := under .typeAscription (seq [mark ":", rec .type])

/-! ### Parameters and results of types -/

def typeParameter (rec : Rec) : Rule :=
  under .typeParameter <| seq [opt (keyword "const"), field .name typeName,
    opt (under .constraint (seq [keyword "extends", rec .type])),
    opt (under .defaultType (seq [operator "=", rec .type]))]

def typeParameters (rec : Rec) : Rule :=
  field .typeParameters <| under .typeParameters <|
    seq [mark "<", sepBy1 comma (typeParameter rec), opt comma, mark ">"]

def thisWord : Rule := word .thisExpression (· == "this")

/-- A result that says what its truth means for a parameter. -/
def typePredicate (rec : Rec) : Rule :=
  under .typePredicate (seq [field .name (identifier <|> thisWord), keyword "is", field .type (rec .type)])

def asserts (rec : Rec) : Rule :=
  under .asserts (seq [keyword "asserts", choice [typePredicate rec, identifier, thisWord]])

def resultType (rec : Rec) : Rule := choice [asserts rec, typePredicate rec, rec .type]

def returnType (rec : Rec) : Rule :=
  field .returnType <| choice [
    under .assertsAscription (seq [mark ":", asserts rec]),
    under .typePredicateAscription (seq [mark ":", typePredicate rec]),
    typeAscription rec]

/-- The parameters of a function and, where types are written, what stands around them. -/
def signature (rec : Rec) (scope : Scope := {}) : Rule := do
  if ← typed then
    seq [opt (typeParameters rec), field .parameters (rec .parameters),
      if scope.noReturnType then pure [] else opt (returnType rec)]
  else field .parameters (rec .parameters)

def functionType (rec : Rec) : Rule :=
  under .functionType <| seq [opt (typeParameters rec), field .parameters (rec .parameters),
    operator "=>", field .returnType (resultType rec)]

def constructorType (rec : Rec) : Rule :=
  under .constructorType <| seq [opt (keyword "abstract"), keyword "new", opt (typeParameters rec),
    field .parameters (rec .parameters), operator "=>", field .type (rec .type)]

/-! ### Members of object types -/

def accessibility : Rule :=
  under .accessibilityModifier
    (choice [modifier "public" true, modifier "private" true, modifier "protected" true])

def override : Rule := under .overrideModifier (modifier "override" true)

def memberModifiers : Rule :=
  seq [opt accessibility, opt (modifier "static" true), opt override, opt (modifier "readonly" true)]

def methodSignature (rec : Rec) : Rule :=
  under .methodSignature <| seq [memberModifiers, opt (modifier "async" true),
    opt (choice [modifier "get" true, modifier "set" true, star]),
    field .name (propertyName rec), opt question, signature rec]

def propertySignature (rec : Rec) : Rule :=
  under .propertySignature <| seq [memberModifiers, field .name (propertyName rec), opt question,
    opt (field .type (typeAscription rec))]

def constructSignature (rec : Rec) : Rule :=
  under .constructSignature <| seq [opt (keyword "abstract"), keyword "new", opt (typeParameters rec),
    field .parameters (rec .parameters), opt (field .type (typeAscription rec))]

/-- The type of what an index gives, perhaps with a change of optionality. -/
def indexResult (rec : Rec) : Rule :=
  field .type <| choice [
    typeAscription rec,
    under .omittingTypeAscription (seq [mark "-", mark "?", mark ":", rec .type]),
    under .addingTypeAscription (seq [mark "+", mark "?", mark ":", rec .type]),
    under .optingTypeAscription (seq [mark "?", mark ":", rec .type])]

def indexSignature (rec : Rec) : Rule :=
  under .indexSignature <| seq [
    opt (seq [opt (mark "-" <|> mark "+"), keyword "readonly"]),
    mark "[",
    choice [
      under .mappedTypeClause (seq [field .name typeName, keyword "in", field .type (rec .type),
        opt (seq [keyword "as", rec .type])]),
      seq [field .name identifier, mark ":", rec .type]],
    mark "]", indexResult rec]

def typeMember (rec : Rec) : Rule :=
  choice [under .callSignature (signature rec), constructSignature rec, indexSignature rec,
    methodSignature rec, propertySignature rec]

/-- Members in braces, each but the last with a comma, a semicolon or a line end after it. -/
def objectType (rec : Rec) : Rule :=
  under .objectType <| seq [openBrace, opt (comma <|> mark ";"),
    repeated (seq [typeMember rec, comma <|> semicolon false]), closeBrace]

/-! ### Basic types -/

def predefinedTypes : List String :=
  ["any", "number", "boolean", "string", "symbol", "void", "unknown", "never", "object"]

def literalWords : List String := ["true", "false", "null", "undefined"]

def typeArguments (rec : Rec) : Rule :=
  under .typeArguments (seq [mark "<", sepBy1 comma (rec .type), opt comma, mark ">"])

def importType (rec : Rec) : Rule :=
  under .importType <| seq [keyword "import", mark "(", rec .type,
    opt (seq [comma, rec (.expression {})]), opt comma, mark ")",
    repeated (seq [operator ".", propertyWord]), opt (rec .typeArguments)]

def typeQuery (rec : Rec) : Rule :=
  under .typeQuery <| seq [keyword "typeof", choice [importType rec, thisWord, identifier],
    repeated (seq [operator ".", propertyWord <|> privateName]), opt (rec .typeArguments)]

/-- A name, perhaps of a module's member and perhaps applied to types. -/
def namedType (rec : Rec) : Rule := do
  let first ← typeName
  let name ← iterate (fun outer => do
    let rest ← seq [operator ".", field .name (word .typeIdentifier fun _ => true)]
    return group .nestedTypeIdentifier (outer ++ rest)) first
  (do
    let args ← field .typeArguments (rec .typeArguments)
    return group .genericType (assign .name name ++ args)) <|> pure name

def tupleMember (rec : Rec) : Rule :=
  choice [
    under .optionalParameter (seq [identifier, question, typeAscription rec]),
    under .requiredParameter (seq [
      under .restPattern (seq [operator "...", identifier]) <|> identifier, typeAscription rec]),
    under .restType (seq [operator "...", rec .type]),
    do
      let t ← rec .type
      (do return group .optionalType (t ++ (← question))) <|> pure t]

def tupleType (rec : Rec) : Rule :=
  under .tupleType (seq [mark "[", commaList (tupleMember rec), mark "]"])

def templateType (rec : Rec) : Rule :=
  under .templateLiteralType <| seq [mark "\x60",
    repeated (choice [
      seq [rawText .token fun cs i => literal? cs i "$\x7b", rec .type, closeBrace],
      rawText .templateChars templateCharsEnd?]),
    rawText .token fun cs i => literal? cs i "\x60"]

def primaryType (rec : Rec) : Rule := do
  match ← nextChar with
  | some '(' => under .parenthesizedType (seq [mark "(", rec .type, mark ")"])
  | some '\x7b' => rec .objectType
  | some '[' => tupleType rec
  | some '\x60' => templateType rec
  | some '-' => under .literalType (seq [mark "-", number])
  | some _ =>
    match ← nextWord with
    | none => under .literalType (string <|> number)
    | some w =>
      if predefinedTypes.contains w then word .predefinedType (· == w)
      else if literalWords.contains w then under .literalType (keyword w)
      else
        match w with
        | "this" => word .thisType (· == w)
        | "typeof" => typeQuery rec
        | "import" => importType rec
        | _ => namedType rec
  | none => failure

/-- A type with the brackets of arrays and of members looked up, on the same line. -/
def postfixedType (rec : Rec) : Rule := do
  let first ← primaryType rec
  iterate (fun inner => do
    sameLine
    (do return group .arrayType (inner ++ (← seq [mark "[", mark "]"]))) <|>
      (do return group .lookupType (inner ++ (← seq [mark "[", rec .type, mark "]"])))) first

def inferType (rec : Rec) : Rule :=
  under .inferType (seq [keyword "infer", typeName, opt (seq [keyword "extends", rec .unionType])])

def typeOperand (rec : Rec) : Rule := do
  match ← nextChar with
  | some '(' | some '<' => functionType rec <|> postfixedType rec
  | _ =>
    match ← nextWord with
    | some "keyof" =>
      under .indexTypeQuery (seq [keyword "keyof", rec .typeOperand]) <|> postfixedType rec
    | some "readonly" =>
      under .readonlyType (seq [keyword "readonly", rec .typeOperand]) <|> postfixedType rec
    | some "unique" =>
      under .predefinedType (seq [keyword "unique", keyword "symbol"]) <|> postfixedType rec
    | some "infer" => inferType rec <|> postfixedType rec
    | some "new" => constructorType rec
    | some "abstract" => constructorType rec <|> postfixedType rec
    | _ => postfixedType rec

/-- Operands joined by one operator, which may also stand before the first. -/
def joined (kind : Kind) (op : String) (part : Rule) : Rule := do
  let first ← under kind (seq [operator op, part]) <|> part
  iterate (fun left => do return group kind (left ++ (← seq [operator op, part]))) first

def unionType (rec : Rec) : Rule :=
  joined .unionType "|" (joined .intersectionType "&" (rec .typeOperand))

/-- Any type: a union, or a choice that depends on whether one extends another. -/
def type (rec : Rec) : Rule := do
  let left ← rec .unionType
  (do
    let rest ← seq [keyword "extends", field .right (rec .unionType), question,
      field .consequence (rec .type), mark ":", field .alternative (rec .type)]
    return group .conditionalType (assign .left left ++ rest)) <|> pure left

end ArityCheck.Grammar
