import ArityCheck.Grammar.Types

/-! Patterns, which take values apart, and lists of parameters. -/

namespace ArityCheck.Grammar

open Parse

/-- Kinds of expression that can be assigned to. -/
def isTarget : Kind → Bool
  | .identifier | .memberExpression | .subscriptExpression | .nonNullExpression => true
  | _ => false

/-- An expression that can be assigned to. -/
def target (rec : Rec) : Rule := do
  let found ← rec (.chain {})
  guard ((lastKind? found).any isTarget)
  return found

/-- A pattern that has a default value where one is given. -/
def withDefault (rec : Rec) (kind : Kind) (p : Rule) : Rule := do
  let left ← p
  (do
    let rest ← seq [operator "=", field .right (rec (.expression {}))]
    return group kind (assign .left left ++ rest)) <|> pure left

def restPattern (rec : Rec) : Rule := under .restPattern (seq [operator "...", rec .pattern])

def shorthandPattern : Rule := word .shorthandPropertyPattern (!isReserved ·)

def objectPattern (rec : Rec) : Rule :=
  under .objectPattern <| seq [openBrace,
    sparseList (choice [
      restPattern rec,
      under .pairPattern (seq [field .key (propertyName rec), mark ":",
        field .value (withDefault rec .assignmentPattern (rec .pattern))]),
      withDefault rec .objectAssignmentPattern shorthandPattern]),
    closeBrace]

def arrayPattern (rec : Rec) : Rule :=
  under .arrayPattern <| seq [mark "[",
    sparseList (withDefault rec .assignmentPattern (rec .pattern)), mark "]"]

/-- A pattern in braces or brackets. -/
def destructuring (rec : Rec) : Rule := objectPattern rec <|> arrayPattern rec

def pattern (rec : Rec) : Rule := do
  match ← nextChar with
  | some '\x7b' => objectPattern rec <|> target rec
  | some '[' => arrayPattern rec <|> target rec
  | some '.' => restPattern rec
  | _ => target rec

/-! ### Parameters -/

/-- A parameter of a typed dialect: modifiers, a pattern, whether it may be left out, its type
and its default value. -/
def typedParameter (rec : Rec) : Rule := do
  let modifiers ← seq [decorators rec, opt accessible, opt overriding, opt (modifying "readonly")]
  let pattern ← rec .pattern <|> thisWord
  let mark ← opt question
  let rest ← seq [opt (field .type (typeAscription rec)), opt (initializer rec)]
  return group (if mark.isEmpty then .requiredParameter else .optionalParameter)
    (modifiers ++ pattern ++ mark ++ rest)
where
  /-- A word before the parameter proper. -/
  modifying (w : String) : Rule := do
    let found ← keyword w
    check fun s i =>
      let j := skipTrivia s.chars i
      (s.chars[j]?).any fun c => c == '[' || c == '\x7b' || (wordEnd? s.chars j).isSome
    return found
  accessible : Rule :=
    under .accessibilityModifier
      (choice [modifying "public", modifying "private", modifying "protected"])
  overriding : Rule := under .overrideModifier (modifying "override")

def parameter (rec : Rec) : Rule := do
  if ← typed then typedParameter rec
  else withDefault rec .assignmentPattern (rec .pattern)

def parameters (rec : Rec) : Rule :=
  under .formalParameters (seq [mark "(", commaList (parameter rec), mark ")"])

end ArityCheck.Grammar
