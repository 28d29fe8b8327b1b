import ArityCheck.Text.Width

/-! Breaking a text into lines of a given width.

A line takes as many words as fit. The blanks between two words on a line are kept, those at its
end are not. A word that is wider than a whole line is cut. -/

namespace ArityCheck.Text

/-- A word, and how many blanks follow it. -/
structure Word where
  chars : List Char
  blanks : Nat
deriving DecidableEq, Repr

/-- The words of a text. Only a text that begins with blanks has an empty word, at its start. -/
def words : List Char → List Word
  | [] => []
  | c :: cs =>
    match words cs with
    | [] => if c = ' ' then [⟨[], 1⟩] else [⟨[c], 0⟩]
    | w :: ws =>
      if c = ' ' then
        if w.chars.isEmpty then ⟨[], w.blanks + 1⟩ :: ws else ⟨[], 1⟩ :: w :: ws
      else ⟨c :: w.chars, w.blanks⟩ :: ws

/-- Cuts characters into pieces that are at most `limit` wide, with `done` before them. -/
def cut (limit : Nat) (done : List Char) : List Char → List (List Char)
  | [] => [done]
  | c :: cs =>
    if !done.isEmpty && limit < width done + charWidth c then done :: cut limit [c] cs
    else cut limit (done ++ [c]) cs

/-- The pieces of a word, of which the last keeps the blanks. -/
def Word.pieces (limit : Nat) (w : Word) : List Word :=
  let pieces := cut limit [] w.chars
  pieces.dropLast.map (⟨·, 0⟩) ++ (pieces.getLast?.map (⟨·, w.blanks⟩)).toList

/-- Puts words on lines, with `line` as what the current one holds and `blanks` after that. -/
def fill (limit : Nat) (line : List Char) (blanks : Nat) : List Word → List (List Char)
  | [] => [line]
  | w :: ws =>
    let longer := line ++ List.replicate blanks ' ' ++ w.chars
    if width longer ≤ limit then fill limit longer w.blanks ws
    else line :: fill limit w.chars w.blanks ws

/-- The lines of a text, each at most `limit` wide. -/
def wrap (limit : Nat) (text : String) : List String :=
  (fill limit [] 0 ((words text.toList).flatMap (Word.pieces limit))).map String.ofList

end ArityCheck.Text
