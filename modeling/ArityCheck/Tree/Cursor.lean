import ArityCheck.Tree.Basic

/-! Walking a tree with a cursor.

A cursor is a node together with the way down to it. `next` goes to the first child, else to
the next sibling, else to the next sibling of the nearest ancestor that has one, which is
pre-order; `walk` follows it to the end. Each step leaves fewer nodes ahead (`ahead_next`), so
the walk ends however deep the tree is and needs no recursion on it. -/

namespace ArityCheck

/-- One step of the way down: the parent's own data, and the siblings on either side of the
child that was entered, the nearer ones first. -/
structure Crumb where
  role : Option Role
  kind : Kind
  start : Position
  before : List Tree
  after : List Tree

/-- A node of a tree. `start` is the position at which the blank text before it begins. -/
structure Cursor where
  focus : Tree
  start : Position
  path : List Crumb

namespace Cursor

def ofTree (t : Tree) : Cursor := ⟨t, .origin, []⟩

def firstChild? (c : Cursor) : Option Cursor :=
  match c.focus with
  | .leaf _ _ _ => none
  | .node _ _ [] => none
  | .node r k (t :: ts) => some ⟨t, c.start, ⟨r, k, c.start, [], ts⟩ :: c.path⟩

def nextSibling? (c : Cursor) : Option Cursor :=
  match c.path with
  | [] => none
  | crumb :: up =>
    match crumb.after with
    | [] => none
    | t :: ts =>
      some ⟨t, c.start.advance c.focus.fullText,
        { crumb with before := c.focus :: crumb.before, after := ts } :: up⟩

def parent? (c : Cursor) : Option Cursor :=
  match c.path with
  | [] => none
  | crumb :: up =>
    some ⟨.node crumb.role crumb.kind (crumb.before.reverse ++ c.focus :: crumb.after),
      crumb.start, up⟩

theorem path_parent? {c p : Cursor} (h : c.parent? = some p) : p.path.length < c.path.length := by
  obtain ⟨t, s, path⟩ := c
  cases path with
  | nil => simp [parent?] at h
  | cons crumb up => simp [parent?] at h; simp [← h]

/-- The next sibling of the node or, where it is a last child, of the nearest ancestor that has
one. -/
def climb (c : Cursor) : Option Cursor :=
  match c.nextSibling? with
  | some d => some d
  | none =>
    match h : c.parent? with
    | none => none
    | some p => p.climb
termination_by c.path.length
decreasing_by exact path_parent? h

/-- The node after this one in pre-order. -/
def next (c : Cursor) : Option Cursor :=
  match c.firstChild? with
  | some d => some d
  | none => c.climb

/-! ### The nodes ahead of a cursor -/

/-- The number of nodes to the right of a path. -/
def right : List Crumb → Nat
  | [] => 0
  | crumb :: up => Tree.sizes crumb.after + right up

/-- The number of nodes from the cursor on, in pre-order. -/
def ahead (c : Cursor) : Nat := c.focus.size + right c.path

theorem ahead_firstChild? {c d : Cursor} (h : c.firstChild? = some d) : d.ahead < c.ahead := by
  obtain ⟨t, s, path⟩ := c
  cases t with
  | leaf r k token => simp [firstChild?] at h
  | node r k cs =>
    cases cs with
    | nil => simp [firstChild?] at h
    | cons t ts =>
      simp only [firstChild?, Option.some.injEq] at h
      subst h
      simp only [ahead, right, Tree.size, Tree.sizes]
      omega

theorem ahead_nextSibling? {c d : Cursor} (h : c.nextSibling? = some d) :
    d.ahead ≤ right c.path := by
  obtain ⟨t, s, path⟩ := c
  cases path with
  | nil => simp [nextSibling?] at h
  | cons crumb up =>
    obtain ⟨r, k, p, before, after⟩ := crumb
    cases after with
    | nil => simp [nextSibling?] at h
    | cons t' ts =>
      simp only [nextSibling?, Option.some.injEq] at h
      subst h
      simp only [ahead, right, Tree.sizes]
      omega

theorem right_parent? {c p : Cursor} (h : c.parent? = some p) : right p.path ≤ right c.path := by
  obtain ⟨t, s, path⟩ := c
  cases path with
  | nil => simp [parent?] at h
  | cons crumb up =>
    simp only [parent?, Option.some.injEq] at h
    subst h
    simp only [right]
    omega

theorem ahead_climb {c d : Cursor} (h : c.climb = some d) : d.ahead ≤ right c.path := by
  fun_induction climb c with
  | case1 c d' hs => exact ahead_nextSibling? (hs.trans h)
  | case2 => simp at h
  | case3 c _ p hp ih => exact Nat.le_trans (ih h) (right_parent? hp)

theorem ahead_next {c d : Cursor} (h : c.next = some d) : d.ahead < c.ahead := by
  unfold next at h
  split at h
  · rename_i hc
    exact ahead_firstChild? (hc.trans h)
  · have := ahead_climb h
    have := c.focus.size_pos
    simp only [ahead] at *
    omega

/-- Walks to the end, with the cursors passed so far in `done`, the latest first. -/
def walkOn (c : Cursor) (done : List Cursor) : List Cursor :=
  match h : c.next with
  | none => (c :: done).reverse
  | some d => d.walkOn (c :: done)
termination_by c.ahead
decreasing_by exact ahead_next h

/-- The cursor and all those after it, in pre-order. -/
def walk (c : Cursor) : List Cursor := c.walkOn []

/-! ### Where the node stands -/

/-- The bytes of the node, without the blank text before it. -/
def span (c : Cursor) : Span :=
  let first := c.start.advance c.focus.gap
  .between first (first.advance c.focus.text)

/-- The node is the first child of its parent in the role `r`. -/
def isFirst (c : Cursor) (r : Role) : Bool :=
  match c.path with
  | [] => false
  | crumb :: _ => c.focus.role == some r && crumb.before.all (·.role != some r)

end Cursor

end ArityCheck
