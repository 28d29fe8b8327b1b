/-! Finding a piece of text inside another, and putting something else in its place. -/

namespace ArityCheck.Text

/-- Leaves out `skip` characters, then puts `value` for each `pattern` from left to right. -/
def replaceAfter (pattern value : List Char) : Nat → List Char → List Char
  | _, [] => []
  | skip + 1, _ :: cs => replaceAfter pattern value skip cs
  | 0, c :: cs =>
    if pattern.isPrefixOf (c :: cs) then
      value ++ replaceAfter pattern value (pattern.length - 1) cs
    else c :: replaceAfter pattern value 0 cs

/-- Puts `value` in place of each `pattern`, from left to right. What is put in is not looked at
again. -/
def replaceAll (pattern value text : String) : String :=
  String.ofList (replaceAfter pattern.toList value.toList 0 text.toList)

def isPartOf (pattern : List Char) : List Char → Bool
  | [] => pattern.isEmpty
  | c :: cs => pattern.isPrefixOf (c :: cs) || isPartOf pattern cs

/-- The text `pattern` occurs in `text`. -/
def occursIn (pattern text : String) : Bool := isPartOf pattern.toList text.toList

end ArityCheck.Text
