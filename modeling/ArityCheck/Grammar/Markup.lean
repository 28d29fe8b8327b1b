import ArityCheck.Grammar.Member

/-! Elements in angle brackets, with the text and the expressions inside them. -/

namespace ArityCheck.Grammar

open Parse

/-- The end of a word that may also hold dashes. -/
def markupWordEnd? (cs : Chars) (i : Nat) : Option Nat :=
  (wordEnd? cs i).map fun j => skipWhile cs (fun c => isWordPart c || c == '-') j

def markupWord : Rule := lexeme .identifier markupWordEnd?

/-- The name of an element or an attribute: words joined by dots or by a colon. -/
def markupName : Rule :=
  under .markupName (seq [markupWord, repeated (seq [mark "." <|> mark ":", markupWord])])

/-- The end of a quoted value, in which no character is special. -/
def markupStringEnd? (cs : Chars) (i : Nat) : Option Nat :=
  match cs[i]? with
  | some q =>
    if q == '\x22' || q == '\x27' then
      let j := skipWhile cs (· != q) (i + 1)
      if j < cs.size then some (j + 1) else none
    else none
  | none => none

def markupExpression (rec : Rec) : Rule :=
  under .markupExpression
    (seq [openBrace, opt (spread rec <|> rec (.expressions {})), closeBrace])

def markupAttribute (rec : Rec) : Rule :=
  choice [markupExpression rec,
    under .markupAttribute (seq [markupName, opt (seq [mark "=", choice [
      lexeme .string markupStringEnd?, markupExpression rec, rec .element]])])]

/-- Text between tags. -/
def markupText : Rule :=
  rawText .markupText fun cs i =>
    let j := skipWhile cs (fun c => c != '<' && c != '>' && c != '\x7b' && c != '\x7d') i
    if i < j then some j else none

def markupChild (rec : Rec) : Rule :=
  choice [markupText, markupExpression rec, rec .element]

/-- The name and the attributes of a tag. -/
def markupTag (rec : Rec) : Rule :=
  seq [markupName, opt (whenTyped (rec .typeArguments)), repeated (markupAttribute rec)]

def markupClosing : Rule :=
  under .markupClosing (seq [mark "<", mark "/", opt markupName, mark ">"])

/-- An element, or a fragment, whose tags have no name. -/
def element (rec : Rec) : Rule :=
  choice [
    under .markupSelfClosing (seq [mark "<", markupTag rec, mark "/", mark ">"]),
    under .markupElement (seq [
      under .markupOpening (seq [mark "<", opt (markupTag rec), mark ">"]),
      repeated (markupChild rec), markupClosing])]

end ArityCheck.Grammar
