/-! The kinds of node in a concrete tree, and the roles a node can have below its parent. -/

namespace ArityCheck

/-- What a node of the concrete tree is. A `token` is a keyword or a mark that has no kind
of its own; `error` covers text that could not be read. -/
inductive Kind where
  | token | error | comment | htmlComment | hashBang | program
  -- modules
  | importStatement | importClause | importSpecifier | namedImports | namespaceImport
  | importAttribute | importRequire | importAlias
  | exportStatement | exportClause | exportSpecifier | namespaceExport
  -- statements
  | expressionStatement | variableDeclaration | lexicalDeclaration | usingDeclaration
  | variableDeclarator | statementBlock | elseClause | ifStatement | switchStatement | switchBody
  | switchCase | switchDefault | forStatement | forInStatement | whileStatement | doStatement
  | tryStatement | catchClause | finallyClause | withStatement | breakStatement
  | continueStatement | debuggerStatement | returnStatement | throwStatement | emptyStatement
  | labeledStatement | statementIdentifier
  -- expressions
  | parenthesizedExpression | sequenceExpression | assignmentExpression
  | augmentedAssignmentExpression | awaitExpression | unaryExpression | binaryExpression
  | ternaryExpression | updateExpression | newExpression | yieldExpression | callExpression
  | arguments | memberExpression | subscriptExpression | optionalChain | metaProperty
  | importCallee | spreadElement | object | array | pair | arrowFunction | functionExpression
  | generatorFunction | classExpression
  | identifier | propertyIdentifier | privatePropertyIdentifier | shorthandPropertyIdentifier
  | computedPropertyName | undefinedLiteral | thisExpression | superExpression | trueLiteral
  | falseLiteral | nullLiteral | number | string | regex | templateString | templateChars
  | templateSubstitution
  -- declarations of functions and classes
  | functionDeclaration | generatorFunctionDeclaration | formalParameters | classDeclaration
  | classHeritage | classBody | classStaticBlock | methodDefinition | fieldDefinition | decorator
  -- patterns
  | objectPattern | arrayPattern | assignmentPattern | objectAssignmentPattern | restPattern
  | pairPattern | shorthandPropertyPattern
  -- markup
  | markupElement | markupOpening | markupClosing | markupSelfClosing | markupAttribute
  | markupExpression | markupText | markupName
  -- types
  | typeAscription | optingTypeAscription | omittingTypeAscription | addingTypeAscription
  | assertsAscription | typePredicateAscription | asserts | typePredicate | typeArguments
  | typeParameters | typeParameter | constraint | defaultType | predefinedType | typeIdentifier
  | nestedTypeIdentifier | genericType | objectType | arrayType | tupleType | typeQuery
  | indexTypeQuery | thisType | importType | literalType | lookupType | conditionalType
  | templateLiteralType | intersectionType | unionType | functionType | constructorType
  | readonlyType | inferType | parenthesizedType | optionalType | restType
  | requiredParameter | optionalParameter | accessibilityModifier | overrideModifier
  | publicFieldDefinition | methodSignature | abstractMethodSignature | functionSignature
  | callSignature | constructSignature | propertySignature | indexSignature | mappedTypeClause
  | typeAliasDeclaration | interfaceDeclaration | interfaceBody | extendsTypeClause
  | extendsClause | implementsClause | enumDeclaration | enumBody | enumAssignment
  | ambientDeclaration | abstractClassDeclaration | moduleDeclaration | namespaceDeclaration
  | nestedIdentifier | asExpression | satisfiesExpression | nonNullExpression | typeAssertion
  | instantiationExpression
deriving DecidableEq, Repr

namespace Kind

/-- A named kind counts as an argument or a parameter where it stands in a list of them. -/
def isNamed (k : Kind) : Bool := k != .token

def isComment : Kind → Bool
  | .comment | .htmlComment => true
  | _ => false

end Kind

/-- The part a node plays in its parent. -/
inductive Role where
  | name | body | condition | consequence | alternative | initializer | increment
  | left | right | operator | object | index | function | arguments | property | optionalChain
  | constructor | parameter | parameters | typeParameters | typeArguments | returnType
  | key | value | type | declaration | decorator | source | label | argument
deriving DecidableEq, Repr

namespace Kind

/-- Nodes of such a kind are lexemes: all that counts of them is their text. -/
def isLexeme : Kind → Bool
  | .token | .identifier | .propertyIdentifier | .privatePropertyIdentifier
  | .shorthandPropertyIdentifier | .typeIdentifier | .number | .string => true
  | _ => false

/-- The role of the child that a node of the kind is named by, if it is by the text of one. -/
def namedBy : Kind → Option Role
  | .functionDeclaration | .generatorFunctionDeclaration | .functionExpression | .generatorFunction
  | .functionSignature | .typeAliasDeclaration => some .name
  | .memberExpression => some .property
  | _ => none

end Kind

end ArityCheck
