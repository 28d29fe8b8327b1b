/-! Paths, as they are written and as they are compared.

A path keeps the text it was written with, since that text is what gets printed and opened.
Two paths are compared by their components: repeated separators, separators at the end and inner
`.` segments make no difference, a leading `.` is a component, and `..` is never resolved. -/

namespace ArityCheck

structure Path where
  text : String
deriving DecidableEq, Repr, Inhabited

/-! ### Components -/

inductive Component where
  | root
  | here
  | up
  | name (text : String)
deriving DecidableEq, Repr

namespace Component

/-- The component that a segment after the first stands for. -/
def ofInner? (segment : String) : Option Component :=
  if segment = "" ∨ segment = "." then none
  else if segment = ".." then some .up
  else some (.name segment)

/-- The component that the first segment of a relative path stands for. -/
def ofFirst? (segment : String) : Option Component :=
  if segment = "." then some .here else ofInner? segment

/-- The place of a kind of component in their order. -/
def rank : Component → Nat
  | .root => 0
  | .here => 1
  | .up => 2
  | .name _ => 3

def label : Component → String
  | .name text => text
  | _ => ""

/-- The root comes first, then `.`, then `..`, then the names in the order of their characters. -/
def order (a b : Component) : Ordering := (compare a.rank b.rank).then (compare a.label b.label)

end Component

/-- Lists are compared item by item, and a list comes before those that go on after it. -/
def orderLists {α : Type} (order : α → α → Ordering) : List α → List α → Ordering
  | [], [] => .eq
  | [], _ :: _ => .lt
  | _ :: _, [] => .gt
  | a :: as, b :: bs => (order a b).then (orderLists order as bs)

namespace Path

/-! ### Segments -/

/-- The pieces of a text between its separators: the first one, and those after it. -/
def splitSegments : List Char → List Char × List (List Char)
  | [] => ([], [])
  | c :: cs =>
    let (first, rest) := splitSegments cs
    if c = '/' then ([], first :: rest) else (c :: first, rest)

def firstSegment (p : Path) : String := String.ofList (splitSegments p.text.toList).1

/-- The segments after the first separator. -/
def innerSegments (p : Path) : List String := (splitSegments p.text.toList).2.map String.ofList

def segments (p : Path) : List String := p.firstSegment :: p.innerSegments

def joinSegments (segments : List String) : String := "/".intercalate segments

def isAbsolute (p : Path) : Bool := p.text.toList.head? == some '/'

def components (p : Path) : List Component :=
  (if p.isAbsolute then [.root] else (Component.ofFirst? p.firstSegment).toList) ++
    p.innerSegments.filterMap Component.ofInner?

/-- The order of paths, in which paths with the same components are equal. -/
def order (a b : Path) : Ordering := orderLists Component.order a.components b.components

/-! ### Parts of a path -/

def isSilent (segment : String) : Bool := (Component.ofInner? segment).isNone

/-- Drops the segments at the end that stand for no component. -/
def trimEnd (segments : List String) : List String := (segments.reverse.dropWhile isSilent).reverse

/-- A first segment with the segments after it. Nothing after an empty one is the root. -/
def ofSegments (p : Path) (inner : List String) : Path :=
  if inner.isEmpty && p.isAbsolute then ⟨"/"⟩ else ⟨joinSegments (p.firstSegment :: inner)⟩

/-- Drops the segments that the first `n` components stand in. -/
def dropComponents : Nat → List String → List String
  | 0, segments => segments
  | _ + 1, [] => []
  | n + 1, s :: segments =>
    if isSilent s then dropComponents (n + 1) segments else dropComponents n segments

/-- The path seen from a directory: what follows the components of `root`, written as in `p`. A
path outside of `root` stays as it is. -/
def relativeTo (p root : Path) : Path :=
  if root.components.isPrefixOf p.components then
    match root.components.length with
    | 0 => p.ofSegments (trimEnd p.innerSegments)
    | n + 1 => ⟨joinSegments (trimEnd ((dropComponents n p.innerSegments).dropWhile isSilent))⟩
  else p

/-- The path `q` as seen from the directory `p`. An absolute path is the same from everywhere. -/
def join (p q : Path) : Path :=
  if q.isAbsolute then q
  else if p.text.isEmpty || p.text.toList.getLast? == some '/' then ⟨p.text ++ q.text⟩
  else ⟨p.text ++ "/" ++ q.text⟩

/-- The path without its last component. -/
def parent? (p : Path) : Option Path :=
  match p.components.getLast? with
  | none | some .root => none
  | some _ =>
    match trimEnd p.innerSegments with
    | [] => some ⟨""⟩
    | inner => some (p.ofSegments (trimEnd inner.dropLast))

/-- At most `n` steps up. -/
def ancestorsWithin : Nat → Path → List Path
  | 0, p => [p]
  | n + 1, p =>
    match p.parent? with
    | none => [p]
    | some q => p :: ancestorsWithin n q

/-- The path and the directories above it, up to the root or to the directory that a relative
path starts from. -/
def ancestors (p : Path) : List Path := ancestorsWithin p.components.length p

/-! ### File names -/

/-- The last component, if it is a name. -/
def fileName? (p : Path) : Option String :=
  match p.components.getLast? with
  | some (.name text) => some text
  | _ => none

/-- What follows the last dot of the file name. A dot at the very start does not count. -/
def extension? (p : Path) : Option String := do
  let name ← p.fileName?
  let tail := name.toList.reverse.takeWhile (· != '.')
  let before := (name.toList.reverse.dropWhile (· != '.')).drop 1
  if before.isEmpty then none else some (String.ofList tail.reverse)

end Path

end ArityCheck
