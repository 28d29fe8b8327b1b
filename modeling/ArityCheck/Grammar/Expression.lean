import ArityCheck.Grammar.Functions
import ArityCheck.Grammar.Markup

/-! Expressions: operands with what is called on them, joined by operators. -/

namespace ArityCheck.Grammar

open Parse

/-! ### Literals -/

def regex : Rule := lexeme .regex regexEnd?

def template (rec : Rec) : Rule :=
  under .templateString <| seq [mark "\x60",
    repeated (choice [
      under .templateSubstitution (seq [rawText .token fun cs i => literal? cs i "$\x7b",
        rec (.expressions {}), closeBrace]),
      rawText .templateChars fun cs i => (templateCharsEnd? cs i).filter (i < ·)]),
    rawText .token fun cs i => literal? cs i "\x60"]

def array (rec : Rec) : Rule :=
  under .array (seq [mark "[", sparseList (spread rec <|> rec (.expression {})), mark "]"])

def objectMember (rec : Rec) : Rule :=
  choice [spread rec,
    do if ← typed then typedMethod rec else method rec false,
    under .pair (seq [field .key (propertyName rec), mark ":", field .value (rec (.expression {}))]),
    word .shorthandPropertyIdentifier (!isReserved ·)]

def object (rec : Rec) : Rule :=
  under .object (seq [openBrace, sparseList (objectMember rec), closeBrace])

/-! ### Operands without operators -/

/-- Something that a name alone can be: the parameter of an arrow function, or itself. -/
def named (rec : Rec) (scope : Scope) : Rule := arrow rec scope <|> identifier

def memberOf (object : List Tree) : Rule := do
  let rest ← seq [operator ".", field .property (privateName <|> propertyWord)]
  return group .memberExpression (assign .object object ++ rest)

def subscriptOf (rec : Rec) (object : List Tree) (link : List Tree) : Rule := do
  let rest ← seq [mark "[", field .index (rec (.expressions {})), mark "]"]
  return group .subscriptExpression (assign .object object ++ link ++ rest)

def taggedBy (rec : Rec) (tag : List Tree) : Rule := do
  let rest ← field .arguments (template rec)
  return group .callExpression (assign .function tag ++ rest)

/-- An object made by a constructor, which is read without any call on it. -/
def newExpression (rec : Rec) (primary : Rule) : Rule :=
  choice [under .metaProperty (seq [keyword "new", operator ".", keyword "target"]), do
    let head ← keyword "new"
    let first ← primary
    let maker ← iterate (fun object =>
      choice [memberOf object, subscriptOf rec object [], taggedBy rec object]) first
    let types ← opt (whenTyped (field .typeArguments (rec .typeArguments)))
    let args ← opt (field .arguments (arguments rec))
    return group .newExpression (head ++ assign .constructor maker ++ types ++ args)]

def importExpression : Rule :=
  choice [under .metaProperty (seq [keyword "import", operator ".", keyword "meta"]), do
    let found ← word .importCallee (· == "import")
    ahead (mark "(" <|> operator ".")
    return found]

/-- An angle bracket where an operand begins: an element, a generic arrow function or a type
assertion. -/
def angled (rec : Rec) (scope : Scope) : Rule := do
  let element := do guard (← markup); rec .element
  if ← typed then arrow rec scope <|> element else element

/-- The simplest operands. `depth` bounds how many `new` stand in a row. -/
def primary (rec : Rec) (scope : Scope) : Nat → Rule
  | 0 => failure
  | depth + 1 => do
    match ← nextChar with
    | none => failure
    | some '(' => arrow rec scope <|> parenthesized rec
    | some '[' => array rec
    | some '\x7b' => object rec
    | some '\x60' => template rec
    | some '/' => regex
    | some '<' => angled rec scope
    | some '#' => privateName
    | some '@' => classExpression rec
    | some _ =>
      match ← nextWord with
      | none => string <|> number
      | some w =>
        match w with
        | "function" => functionExpression rec
        | "async" => functionExpression rec <|> named rec scope
        | "class" => classExpression rec
        | "new" => newExpression rec (primary rec scope depth)
        | "import" => importExpression
        | "this" => thisWord
        | "super" => word .superExpression (· == w)
        | "null" => word .nullLiteral (· == w)
        | "true" => word .trueLiteral (· == w)
        | "false" => word .falseLiteral (· == w)
        | "undefined" => word .undefinedLiteral (· == w)
        | _ => named rec scope

/-! ### Members and calls -/

/-- A lexeme that an operand cannot begin with, so that types before it were meant as such. -/
def afterTypes : Parse Unit :=
  check fun s i =>
    let j := skipTrivia s.chars i
    match s.chars[j]? with
    | none => true
    | some c =>
      ")],;:\x7d\x7b?=|&.".toList.contains c || isAt s.chars j "!=" ||
        endsStatement s.chars ⟨s.typed, true, false⟩ i

/-- An operand applied to types, with arguments or by itself. -/
def instantiated (rec : Rec) (left : List Tree) : Rule := do
  guard (← typed)
  let types ← field .typeArguments (rec .typeArguments)
  (do
    let args ← field .arguments (arguments rec)
    return group .callExpression (assign .function left ++ types ++ args)) <|>
  (do
    let args ← field .arguments (template rec)
    return group .callExpression (assign .function left ++ types ++ args)) <|>
  (do
    afterTypes
    return group .instantiationExpression (left ++ types))

/-- What follows `?.`: a call, a subscript or a member. -/
def optionally (rec : Rec) (left : List Tree) : Rule := do
  let link ← field .optionalChain (under .optionalChain (operator "?."))
  choice [
    do
      let types ← opt (whenTyped (field .typeArguments (rec .typeArguments)))
      let args ← field .arguments (arguments rec)
      return group .callExpression (assign .function left ++ link ++ types ++ args),
    subscriptOf rec left link,
    do
      let property ← field .property (privateName <|> propertyWord)
      return group .memberExpression (assign .object left ++ link ++ property)]

def called (rec : Rec) (left : List Tree) : Rule := do
  let args ← field .arguments (arguments rec)
  return group .callExpression (assign .function left ++ args)

def updated (left : List Tree) : Rule := do
  sameLine
  let op ← operator "++" <|> operator "--"
  return group .updateExpression (assign .argument left ++ op)

def nonNull (left : List Tree) : Rule := do
  guard (← typed)
  sameLine
  return group .nonNullExpression (left ++ (← operator "!"))

/-- One more part of a chain of members and calls. -/
def link (rec : Rec) (left : List Tree) : Rule := do
  match ← nextChar with
  | some '.' => memberOf left
  | some '(' => called rec left
  | some '[' => subscriptOf rec left []
  | some '\x60' => taggedBy rec left
  | some '?' => optionally rec left
  | some '<' => instantiated rec left
  | some '+' | some '-' => updated left
  | some '!' => nonNull left
  | _ => failure

/-- A simple operand, with as many of the given links as follow. -/
def linked (rec : Rec) (scope : Scope) (next : List Tree → Rule) : Rule := do
  let bound ← look fun s i => s.chars.size - i + 1
  let first ← primary rec scope bound
  iterate next first

def chain (rec : Rec) (scope : Scope) : Rule := linked rec scope (link rec)

/-- A chain that ends before the first types which something in it is applied to. -/
def untypedChain (rec : Rec) (scope : Scope) : Rule :=
  linked rec scope fun left => do
    guard ((← nextChar) != some '<')
    link rec left

/-- Whether an operator with what it is applied to may be called in place of that: what is made
of the call is then of kind `made`, and what the operator makes is of kind `whole`. -/
def isCalledWhole (whole made : Kind) : Bool :=
  made == .callExpression ||
    (whole != .awaitExpression && (made == .memberExpression || made == .subscriptExpression))

/-- Applies an operator together with what stands under it to types and arguments: the function
of `await f<T>(x)` is `await f`. -/
def appliedWhole (rec : Rec) (whole : List Tree) : Rule := do
  guard (← typed)
  let made ← iterate (link rec) (← instantiated rec whole)
  guard ((lastKind? whole).any fun w => (lastKind? made).any (isCalledWhole w))
  return made

/-! ### Operands with unary operators, and assignments -/

def assignmentOperators : List String :=
  ["+=", "-=", "*=", "/=", "%=", "^=", "&=", "|=", ">>=", ">>>=", "<<=", "**=", "&&=", "||=", "??="]

/-- The value that is assigned to `left`, if there is one. -/
def assigned (rec : Rec) (scope : Scope) (left : List Tree) : Rule := do
  match ← nextOperator with
  | none => failure
  | some op =>
    let rest := seq [operator op, field .right (rec (.expression scope))]
    if op == "=" then
      return group .assignmentExpression (assign .left left ++ (← rest))
    else
      guard (assignmentOperators.contains op)
      return group .augmentedAssignmentExpression (assign .left left ++ (← rest))

def isAssignable (k : Kind) : Bool := isTarget k || k == .parenthesizedExpression

/-- A chain and, where something is assigned to it, the assignment. A literal in brackets or
braces that is assigned to is read again as a pattern. -/
def chainOrAssignment (rec : Rec) (scope : Scope) : Rule :=
  choice [
    do
      let left ← rec (.chain scope)
      if (lastKind? left).any isAssignable then assigned rec scope left <|> pure left
      else
        if (lastKind? left).any fun k => k == .array || k == .object then notAhead (operator "=")
        pure left,
    do
      let left ← destructuring rec
      guard ((← nextOperator) == some "=")
      assigned rec scope left]

/-- A pause for a value, which may be left out. -/
def yieldExpression (rec : Rec) (scope : Scope) : Rule := do
  let head ← keyword "yield"
  (do return group .yieldExpression (head ++ (← seq [star, rec (.expression scope)]))) <|>
  (do
    sameLine
    return group .yieldExpression (head ++ (← rec (.expression scope)))) <|>
  pure (group .yieldExpression head)

/-- Resources declared by an expression: `using x = open()`. -/
def usingAssignment (rec : Rec) (scope : Scope) : Rule := do
  let head ← keyword "using"
  sameLine
  let left ← identifier
  let value ← seq [operator "=", field .right (rec (.expression scope))]
  return group .assignmentExpression (head ++ assign .left left ++ value)

/-- A type before an operand, where angle brackets do not begin an element. -/
def typeAssertion (rec : Rec) (scope : Scope) : Rule := do
  guard !(← markup)
  whenTyped (under .typeAssertion (seq [rec .typeArguments, rec (.operand scope)]))

/-- An operator that stands before its operand, which `operand` reads. -/
def unary (operand : Rule) : Rule := do
  match ← nextChar with
  | some '!' => applied (operator "!")
  | some '~' => applied (operator "~")
  | some '+' | some '-' =>
    choice [
      under .updateExpression (seq [operator "++" <|> operator "--", field .argument operand]),
      applied (operator "+" <|> operator "-")]
  | _ =>
    match ← nextWord with
    | some "await" => under .awaitExpression (seq [keyword "await", do sameLine; operand])
    | some w =>
      guard (["typeof", "void", "delete"].contains w)
      applied (keyword w)
    | none => failure
where
  applied (op : Rule) : Rule := under .unaryExpression (seq [op, field .argument operand])

/-- An operand that ends before the first types which something in it is applied to. -/
def untypedOperand (rec : Rec) (scope : Scope) : Rule :=
  unary (rec (.untypedOperand scope)) <|> untypedChain rec scope

def operand (rec : Rec) (scope : Scope) : Rule := do
  let comments ← htmlComments
  let found ← choice [
    do
      ahead (unary (pure []))
      choice [
        do appliedWhole rec (← rec (.untypedOperand scope)),
        unary (rec (.operand scope))],
    do
      match ← nextChar with
      | some '<' => chainOrAssignment rec scope <|> typeAssertion rec scope
      | _ =>
        match ← nextWord with
        | some "yield" => yieldExpression rec scope
        | some "using" => usingAssignment rec scope <|> chainOrAssignment rec scope
        | _ => chainOrAssignment rec scope]
  return comments ++ found

/-! ### Binary operators -/

/-- How tightly an operator binds. -/
def precedence? : String → Option Nat
  | "??" => some 1
  | "||" => some 2
  | "&&" => some 3
  | "|" => some 4
  | "^" => some 5
  | "&" => some 6
  | "==" | "!=" | "===" | "!==" => some 7
  | "<" | ">" | "<=" | ">=" | "in" | "instanceof" => some 8
  | "<<" | ">>" | ">>>" => some 9
  | "+" | "-" => some 10
  | "*" | "/" | "%" => some 11
  | "**" => some 12
  | _ => none

/-- An operator and its right side. -/
structure Tail where
  kind : Kind
  level : Nat
  /-- A chain of this operator groups from the right. -/
  rightward : Bool
  trees : List Tree

/-- A left side that waits for the right side of its operator. -/
structure Pending where
  left : List Tree
  tail : Tail

/-- Groups the pending left sides that bind at least as tightly as an operator of the given
level, with `right` as the last right side. -/
def settle (level : Nat) (rightward : Bool) : List Pending → List Tree → List Pending × List Tree
  | [], right => ([], right)
  | p :: ps, right =>
    if level < p.tail.level || (level == p.tail.level && !rightward) then
      settle level rightward ps (group p.tail.kind (p.left ++ p.tail.trees ++ right))
    else (p :: ps, right)

/-- A run of operands up to the last one, grouped as far as the operators decide. -/
structure Run where
  pending : List Pending
  last : List Tree

/-- Adds an operator and its right operand. -/
def Run.push (run : Run) (tail : Tail) (right : List Tree) : Run :=
  let (rest, left) := settle tail.level tail.rightward run.pending run.last
  ⟨⟨left, tail⟩ :: rest, right⟩

/-- The expression that the run is when nothing follows it. -/
def Run.finish (run : Run) : List Tree := (settle 0 false run.pending run.last).2

/-- How tightly a comparison binds. -/
def comparison : Nat := 8

/-- The operands that bind more tightly than a comparison does, as one that is applied to types
and arguments: the function of `a + f<T>(x)` is `a + f`. An operator that binds even more
tightly leaves them apart. -/
def Run.apply (rec : Rec) (run : Run) : Parse Run := do
  let (rest, whole) := settle comparison true run.pending run.last
  let made ← appliedWhole rec whole
  let follows := (← nextOperator).bind precedence?
  guard (run.pending.head?.all fun p => follows.all (· ≤ p.tail.level))
  return ⟨rest, made⟩

/-- The run with one more operator and operand. -/
def Run.extend (rec : Rec) (scope : Scope) (run : Run) : Parse Run := do
  match ← nextWord with
  | some "in" =>
    guard !scope.noIn
    joinedBy "in" (keyword "in")
  | some "instanceof" => joinedBy "instanceof" (keyword "instanceof")
  | some "as" => cast .asExpression "as" (word .token (· == "const") <|> rec .type)
  | some "satisfies" => cast .satisfiesExpression "satisfies" (rec .type)
  | some _ => failure
  | none =>
    match ← nextOperator with
    | some op => joinedBy op (operator op)
    | none => failure
where
  joinedBy (op : String) (read : Rule) : Parse Run := do
    match precedence? op with
    | none => failure
    | some level =>
      let tail : Tail := ⟨.binaryExpression, level, op == "**", ← read⟩
      (do
        guard (comparison < level && (← typed))
        (run.push tail (← rec (.untypedOperand scope))).apply rec) <|>
      (do return run.push tail (← rec (.operand scope)))
  cast (kind : Kind) (op : String) (target : Rule) : Parse Run := do
    guard (← typed)
    sameLine
    let trees ← keyword op
    return run.push ⟨kind, comparison, false, trees⟩ (← target)

/-- A choice between two values. Between `?` and `:`, a colon after a parameter list is first
taken for a return type, and for the colon of the choice where that leaves none. -/
def ternaryOf (rec : Rec) (scope : Scope) (condition : List Tree) : Rule := do
  let head ← operator "?"
  let middle (noReturnType : Bool) : Rule :=
    seq [field .consequence (rec (.expression ⟨false, noReturnType⟩)), mark ":"]
  let chosen ← middle false <|> whenTyped (middle true)
  let other ← field .alternative (rec (.expression scope))
  return group .ternaryExpression (assign .condition condition ++ head ++ chosen ++ other)

def expression (rec : Rec) (scope : Scope) : Rule := do
  let first ← rec (.operand scope)
  let run ← iterate (·.extend rec scope) (⟨[], first⟩ : Run)
  let joined := run.finish
  ternaryOf rec scope joined <|> pure joined

/-- Expressions with commas between them. -/
def expressions (rec : Rec) (scope : Scope) : Rule := do
  let first ← rec (.expression scope)
  let rest ← repeated (seq [comma, rec (.expression scope)])
  return if rest.isEmpty then first else group .sequenceExpression (first ++ rest)

end ArityCheck.Grammar
