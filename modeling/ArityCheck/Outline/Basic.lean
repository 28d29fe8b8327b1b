import ArityCheck.Outline.Construct
import ArityCheck.Tree.Cursor

/-! The outline of a tree: its calls and functions in document order, and the places at which
the text does not follow the grammar.

What a construct is called depends on more than its own node. Parentheses around a callee are
looked through, and an unnamed function takes its name from the binding it is the value or the
type of, where only the wrappers of `Kind.isTransparent` may stand between the two. -/

namespace ArityCheck

namespace Tree

/-! ### Names -/

/-- The name of a property key. A string stands for its text without the quotes around it, and
a computed key has a name only if it is computed from a literal. -/
def propertyName? (key : Tree) : Option String :=
  match key.kind with
  | .propertyIdentifier | .privatePropertyIdentifier | .shorthandPropertyIdentifier
  | .identifier | .typeIdentifier | .number => some key.text
  | .string => some (unquoted key.text)
  | .computedPropertyName =>
    match key.children.find? fun c => c.kind == .string || c.kind == .number with
    | some inner => some (if inner.kind == .string then unquoted inner.text else inner.text)
    | none => none
  | _ => none
where
  /-- All quotes at either end are dropped, of whichever kind. -/
  unquoted (s : String) : String :=
    let isQuote (c : Char) : Bool := c == '\x22' || c == '\x27'
    String.ofList (((s.toList.dropWhile isQuote).reverse.dropWhile isQuote).reverse)

def declaredName? (t : Tree) : Option String := (t.child? .name).map text

/-- The name of a method, a member of a type or a field. -/
def keyName? (t : Tree) : Option String := (t.child? .name).bind propertyName?

/-! ### Calls -/

/-- The property of a member expression, without the `#` that marks it as private. -/
def memberName? (t : Tree) : Option String :=
  (t.child? .property).map fun p => String.ofList (p.text.toList.dropWhile (· == '#'))

mutual

/-- What is called, seen through any parentheses. -/
def callee : Tree → Callee
  | .leaf _ k token => if k = .identifier then .identifier token.text else .other
  | .node r k cs =>
    match k with
    | .identifier => .identifier (Tree.node r k cs).text
    | .memberExpression =>
      match (Tree.node r k cs).memberName? with
      | some name => .member name
      | none => .other
    | .parenthesizedExpression => calleeAmong cs
    | _ => .other

/-- The callee that is the first item of a list. -/
def calleeAmong : List Tree → Callee
  | [] => .other
  | c :: cs => if c.isNamed && !c.isComment then c.callee else calleeAmong cs

end

/-- The callee and the number of arguments of a call. A tagged template is no call, nor is a
dynamic import. -/
def call? (t : Tree) : Option (Callee × Nat) :=
  match t.child? .function, t.child? .arguments with
  | some function, some arguments =>
    if function.kind == .importCallee || arguments.kind != .arguments then none
    else some (function.callee, arguments.items.length)
  | _, _ => none

/-! ### Functions -/

def modifiers (t : Tree) : Modifiers where
  isAsync := t.hasToken "async"
  isGenerator :=
    t.kind == .generatorFunction || t.kind == .generatorFunctionDeclaration || t.hasToken "*"

/-- The number of parameters. A lone identifier before an arrow is one parameter. -/
def paramCount (t : Tree) : Nat :=
  if (t.child? .parameter).isSome then 1
  else
    match (t.child? .parameters).or (t.children.find? (·.kind == .formalParameters)) with
    | some params => params.items.length
    | none => 0

end Tree

/-- Wrappers that are looked through when the binding of a construct is sought. -/
def Kind.isTransparent : Kind → Bool
  | .typeAscription | .optingTypeAscription | .parenthesizedType | .parenthesizedExpression
  | .unionType => true
  | _ => false

namespace Cursor

/-- The nearest ancestor that is not transparent, and the child of it that leads here. -/
def site? (c : Cursor) : Option (Cursor × Cursor) :=
  match h : c.parent? with
  | none => none
  | some p => if p.focus.kind.isTransparent then p.site? else some (p, c)
termination_by c.path.length
decreasing_by exact path_parent? h

/-- The binding that the construct is directly the value or the type of. -/
def binding? (c : Cursor) : Option Binding := do
  let (site, child) ← c.site?
  match site.focus.kind with
  | .typeAliasDeclaration =>
    if child.isFirst .value then site.focus.declaredName?.map .typeAlias else none
  | .propertySignature =>
    if child.isFirst .type then site.focus.keyName?.map .member else none
  | .publicFieldDefinition =>
    if child.isFirst .value || child.isFirst .type then site.focus.keyName?.map .member else none
  | .fieldDefinition =>
    if child.isFirst .value then
      ((site.focus.child? .property).bind Tree.propertyName?).map .member
    else none
  | .pair =>
    if child.isFirst .value then ((site.focus.child? .key).bind Tree.propertyName?).map .member
    else none
  | .variableDeclarator =>
    if child.isFirst .value || child.isFirst .type then
      ((site.focus.child? .name).filter (·.kind == .identifier)).map (.variable ·.text)
    else none
  | .assignmentExpression =>
    if child.isFirst .right then
      match site.focus.child? .left with
      | none => none
      | some left =>
        match left.kind with
        | .identifier => some (.variable left.text)
        | .memberExpression => (left.child? .property).map (.member ·.text)
        | _ => none
    else none
  | _ => none

/-- The value of `export default`. -/
def isDefaultExport (c : Cursor) : Bool :=
  match c.parent? with
  | none => false
  | some p =>
    p.focus.kind == .exportStatement && p.focus.hasToken "default" &&
      (c.isFirst .value || c.isFirst .declaration)

def methodKind (c : Cursor) : MethodKind :=
  if c.focus.hasToken "get" then .getter
  else if c.focus.hasToken "set" then .setter
  else if (c.parent?.any (·.focus.kind == .classBody)) && c.focus.keyName? == some "constructor" then
    .constructor
  else .method

/-- The shape of the node, if it is one that has parameters. An unnamed function that is the
default export counts as a declaration. -/
def shape? (c : Cursor) : Option Shape :=
  let t := c.focus
  match t.kind with
  | .functionDeclaration | .generatorFunctionDeclaration =>
    some (.declaration t.declaredName? t.modifiers)
  | .functionExpression | .generatorFunction =>
    if c.isDefaultExport then some (.declaration t.declaredName? t.modifiers)
    else some (.expression t.declaredName? t.modifiers)
  | .methodDefinition => some (.method t.keyName? c.methodKind t.modifiers)
  | .arrowFunction => some (.arrow (t.hasToken "async"))
  | .functionType => some (.signature none .functionType)
  | .constructorType => some (.signature none .constructorType)
  | .callSignature => some (.signature none .callSignature)
  | .constructSignature => some (.signature none .constructSignature)
  | .methodSignature | .abstractMethodSignature => some (.signature t.keyName? .methodSignature)
  | .functionSignature => some (.signature t.declaredName? .functionSignature)
  | _ => none

/-- The construct at the cursor, if there is one. -/
def construct? (c : Cursor) : Option Construct :=
  if c.focus.kind == .callExpression then
    c.focus.call?.map fun (callee, count) => .call callee count c.span
  else
    c.shape?.map fun shape => .function shape c.focus.paramCount c.binding? c.span

end Cursor

/-- What a source text holds, as far as counting goes. -/
structure Outline where
  constructs : List Construct
  faults : List Span
deriving DecidableEq, Repr

namespace Outline

def hasFaults (o : Outline) : Bool := !o.faults.isEmpty

/-- The outline of a tree, in pre-order. What lies below a fault still counts. -/
def ofTree (t : Tree) : Outline :=
  let nodes := (Cursor.ofTree t).walk
  { constructs := (nodes.filter (!·.focus.isFault)).filterMap Cursor.construct?
    faults := (nodes.filter (·.focus.isFault)).map Cursor.span }

end Outline

end ArityCheck
