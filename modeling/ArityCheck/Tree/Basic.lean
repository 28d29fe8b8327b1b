import ArityCheck.Source.Position
import ArityCheck.Tree.Kind

/-! The concrete tree of a source text.

A leaf is a token with the blank text before it, so a tree holds every character of the
text it was read from and its layout follows from the tree alone: where a node starts is
where the text of the leaves before it ends. Comments are leaves of their own. -/

namespace ArityCheck

/-- One lexeme. `gap` is the blank text that stands before it. A `missing` token is one that
the grammar asked for and the text lacks. -/
structure Token where
  gap : String
  text : String
  missing : Bool := false
deriving DecidableEq, Repr

inductive Tree where
  | leaf (role : Option Role) (kind : Kind) (token : Token)
  | node (role : Option Role) (kind : Kind) (children : List Tree)
deriving Repr

namespace Tree

/-- What holds of the leaves, and of a node if it holds of its children, holds of all trees. -/
@[elab_as_elim]
theorem induction {P : Tree → Prop} (leaf : ∀ r k token, P (.leaf r k token))
    (node : ∀ r k cs, (∀ c ∈ cs, P c) → P (.node r k cs)) : ∀ t, P t
  | .leaf r k token => leaf r k token
  | .node r k cs => node r k cs fun c _ => induction leaf node c

def role : Tree → Option Role
  | .leaf r _ _ | .node r _ _ => r

def kind : Tree → Kind
  | .leaf _ k _ | .node _ k _ => k

def children : Tree → List Tree
  | .leaf _ _ _ => []
  | .node _ _ cs => cs

def isMissing : Tree → Bool
  | .leaf _ _ t => t.missing
  | .node _ _ _ => false

/-- A place where the text does not follow the grammar. -/
def isFault (t : Tree) : Bool := t.kind == .error || t.isMissing

def isNamed (t : Tree) : Bool := t.kind.isNamed

def isComment (t : Tree) : Bool := t.kind.isComment

/-- The same tree in the role `r` of its parent. -/
def withRole (r : Role) : Tree → Tree
  | .leaf _ k t => .leaf (some r) k t
  | .node _ k cs => .node (some r) k cs

/-! ### Text -/

mutual

/-- The whole text under a tree, with the blank text before it. -/
def fullText : Tree → String
  | .leaf _ _ t => t.gap ++ t.text
  | .node _ _ cs => fullTexts cs

def fullTexts : List Tree → String
  | [] => ""
  | t :: ts => t.fullText ++ fullTexts ts

end

/-- The blank text before a tree. -/
def gap : Tree → String
  | .leaf _ _ t => t.gap
  | .node _ _ [] => ""
  | .node _ _ (c :: _) => c.gap

/-- The text of a tree without the blank text before it. -/
def text : Tree → String
  | .leaf _ _ t => t.text
  | .node _ _ [] => ""
  | .node _ _ (c :: cs) => c.text ++ fullTexts cs

/-! ### Size -/

mutual

/-- The number of nodes of a tree, leaves included. -/
def size : Tree → Nat
  | .leaf _ _ _ => 1
  | .node _ _ cs => 1 + sizes cs

def sizes : List Tree → Nat
  | [] => 0
  | t :: ts => t.size + sizes ts

end

theorem size_pos (t : Tree) : 0 < t.size := by
  cases t <;> unfold size <;> omega

/-! ### Children by role -/

/-- The first child in the role `r`. -/
def child? (t : Tree) (r : Role) : Option Tree := t.children.find? (·.role == some r)

/-- Some child is the bare token `s`. -/
def hasToken (t : Tree) (s : String) : Bool :=
  t.children.any fun c => c.kind == .token && c.text == s

/-- The children that count in a list of arguments or parameters. -/
def items (t : Tree) : List Tree := t.children.filter fun c => c.isNamed && !c.isComment

mutual

/-- Wherever a node is named by a child, that child is a lexeme. -/
def isNamedByLexemes : Tree → Bool
  | .leaf _ _ _ => true
  | .node _ k cs => areNamedByLexemes k cs

/-- The same for the children of a node of the kind `k`. -/
def areNamedByLexemes (k : Kind) : List Tree → Bool
  | [] => true
  | t :: ts =>
    (t.role.all (k.namedBy != some ·) || t.kind.isLexeme) && t.isNamedByLexemes &&
      areNamedByLexemes k ts

end

theorem areNamedByLexemes_iff {k : Kind} {ts : List Tree} : areNamedByLexemes k ts = true ↔
    ∀ t ∈ ts, (∀ r, t.role = some r → k.namedBy = some r → t.kind.isLexeme = true) ∧
      t.isNamedByLexemes = true := by
  have hrole (t : Tree) : (t.role.all (k.namedBy != some ·) || t.kind.isLexeme) = true ↔
      ∀ r, t.role = some r → k.namedBy = some r → t.kind.isLexeme = true := by
    cases t.role with
    | none => simp
    | some r => by_cases hk : k.namedBy = some r <;> simp [hk]
  induction ts with
  | nil => simp [areNamedByLexemes]
  | cons t ts ih =>
    simp only [areNamedByLexemes, Bool.and_eq_true, hrole, ih, List.forall_mem_cons]

end Tree

end ArityCheck
