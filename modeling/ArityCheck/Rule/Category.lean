import ArityCheck.Outline.Construct

/-! The categories that limits on parameters are given for, and what a construct is called in a
message. -/

namespace ArityCheck

inductive Category where
  /-- Function declarations. -/
  | definition
  /-- Function expressions and methods. -/
  | expression
  | arrow
  /-- Function types and signatures without a body. -/
  | signature
deriving DecidableEq, Repr

namespace Category

def ofShape : Shape → Category
  | .declaration _ _ => .definition
  | .expression _ _ | .method _ _ _ => .expression
  | .arrow _ => .arrow
  | .signature _ _ => .signature

/-- The key under which the limit of a category is configured. -/
def key : Category → String
  | .definition => "funcDefinition"
  | .expression => "funcExpression"
  | .arrow => "arrowFuncExpression"
  | .signature => "funcTypeAnnotation"

def all : List Category := [.definition, .expression, .arrow, .signature]

end Category

def Modifiers.describe (m : Modifiers) (noun : String) : String :=
  (if m.isAsync then "async " else "") ++ (if m.isGenerator then "generator " else "") ++ noun

namespace Shape

/-- What kind of construct this is, in words. -/
def phrase : Shape → String
  | .declaration _ modifiers | .expression _ modifiers => modifiers.describe "function"
  | .method _ kind modifiers =>
    match kind with
    | .method => modifiers.describe "method"
    | .getter => "getter"
    | .setter => "setter"
    | .constructor => "constructor"
  | .arrow isAsync => if isAsync then "async arrow function" else "arrow function"
  | .signature _ kind =>
    match kind with
    | .functionType => "function type"
    | .constructorType => "constructor type"
    | .callSignature => "call signature"
    | .constructSignature => "construct signature"
    | .methodSignature => "method signature"
    | .functionSignature => "function signature"

/-- The name in a label: the one a construct has by itself, or else that of its binding. A
constructor is not named, since its name says nothing. -/
def labelName? (shape : Shape) (binding : Option Binding) : Option String :=
  match shape with
  | .method _ .constructor _ => none
  | shape => shape.name?.or (binding.map Binding.name)

/-- What a construct is called in a message, such as `arrow function 'handler'`. -/
def label (shape : Shape) (binding : Option Binding) : String :=
  match shape.labelName? binding with
  | some name => shape.phrase ++ " '" ++ name ++ "'"
  | none => shape.phrase

end Shape

end ArityCheck
