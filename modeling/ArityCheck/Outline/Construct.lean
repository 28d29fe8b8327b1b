import ArityCheck.Source.Position

/-! The constructs whose arguments or parameters are counted: calls, and whatever has a
parameter list, from function declarations to the signatures of types. -/

namespace ArityCheck

/-- What is called: a plain name, a member of something, or an expression without a name. -/
inductive Callee where
  | identifier (name : String)
  | member (property : String)
  | other
deriving DecidableEq, Repr

/-- The name that a call is known by. -/
def Callee.name? : Callee → Option String
  | .identifier name => some name
  | .member property => some property
  | .other => none

structure Modifiers where
  isAsync : Bool
  isGenerator : Bool
deriving DecidableEq, Repr

inductive MethodKind where
  | method
  | getter
  | setter
  | constructor
deriving DecidableEq, Repr

inductive SignatureKind where
  | functionType
  | constructorType
  | callSignature
  | constructSignature
  | methodSignature
  | functionSignature
deriving DecidableEq, Repr

/-- The form in which a parameter list is written. -/
inductive Shape where
  | declaration (name : Option String) (modifiers : Modifiers)
  | expression (name : Option String) (modifiers : Modifiers)
  | method (name : Option String) (kind : MethodKind) (modifiers : Modifiers)
  | arrow (isAsync : Bool)
  | signature (name : Option String) (kind : SignatureKind)
deriving DecidableEq, Repr

/-- The name a construct has by itself. An arrow function has none. -/
def Shape.name? : Shape → Option String
  | .declaration name _ | .expression name _ | .method name _ _ | .signature name _ => name
  | .arrow _ => none

/-- The place that a construct is directly attached to, and the name found there. -/
inductive Binding where
  | typeAlias (name : String)
  | member (name : String)
  | variable (name : String)
deriving DecidableEq, Repr

def Binding.name : Binding → String
  | .typeAlias name | .member name | .variable name => name

inductive Construct where
  | call (callee : Callee) (argumentCount : Nat) (span : Span)
  | function (shape : Shape) (paramCount : Nat) (binding : Option Binding) (span : Span)
deriving DecidableEq, Repr

def Construct.span : Construct → Span
  | .call _ _ span | .function _ _ _ span => span

end ArityCheck
