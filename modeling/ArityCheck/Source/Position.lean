/-! Places in a source text.

A position counts the bytes of the UTF-8 text before it, the line it is on and the
bytes of that line before it. Only a line feed ends a line. A span is where a piece
of text begins and how many bytes it has. -/

namespace ArityCheck

structure Position where
  offset : Nat
  line : Nat
  column : Nat
deriving DecidableEq, Repr

namespace Position

/-- Before the first character: no bytes read, lines and columns counted from one. -/
def origin : Position := ⟨0, 1, 1⟩

def step (p : Position) (c : Char) : Position :=
  if c = '\n' then ⟨p.offset + 1, p.line + 1, 1⟩
  else ⟨p.offset + c.utf8Size, p.line, p.column + c.utf8Size⟩

/-- The position after the text `s` that begins at `p`. -/
def advance (p : Position) (s : String) : Position := s.toList.foldl step p

end Position

structure Span where
  offset : Nat
  length : Nat
  line : Nat
  column : Nat
deriving DecidableEq, Repr

/-- The span of the text between two positions. -/
def Span.between (first last : Position) : Span :=
  ⟨first.offset, last.offset - first.offset, first.line, first.column⟩

end ArityCheck
