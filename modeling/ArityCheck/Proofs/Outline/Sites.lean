import ArityCheck.Outline.Basic
import ArityCheck.Proofs.Tree.Preorder

/-! Where the name of an unnamed construct comes from.

The way up from a node passes the transparent nodes above it and stops at the first other one, its
site. Seen from the top, that is the last node on the way down which is not transparent:
`Tree.siteAt?` finds it by recursion on the address, and `site?_eq_siteAt?` says that the cursor
comes to the same node. The site binds a child in some of its roles (`Tree.bindingFields`) to a name
that it offers (`Tree.offered?`), and nothing else counts for the binding (`binding?_eq`). -/
namespace ArityCheck

namespace Tree

/-! ### Sites -/

/-- The last node on the way down to an address that is not transparent, and the index of the child
that the way goes through. -/
def siteAt? (t : Tree) : List Nat → Option (Tree × Nat)
  | [] => none
  | i :: address =>
    (t.children[i]?.bind (·.siteAt? address)).or
      (if t.kind.isTransparent then none else some (t, i))

/-- The child at the index is the first one in the role `r`. -/
def isField (t : Tree) (i : Nat) (r : Role) : Bool :=
  t.children.findIdx? (·.role == some r) == some i

/-- The kinds of node that bind a child, and the role that the child has to be in. -/
def bindingFields : List (Kind × Role) :=
  [(.typeAliasDeclaration, .value), (.propertySignature, .type), (.publicFieldDefinition, .value),
    (.publicFieldDefinition, .type), (.fieldDefinition, .value), (.pair, .value),
    (.variableDeclarator, .value), (.variableDeclarator, .type), (.assignmentExpression, .right)]

/-- The binding that a node offers, told from its own name or that of what it assigns to. -/
def offered? (t : Tree) : Option Binding :=
  match t.kind with
  | .typeAliasDeclaration => t.declaredName?.map .typeAlias
  | .propertySignature | .publicFieldDefinition => t.keyName?.map .member
  | .fieldDefinition => ((t.child? .property).bind propertyName?).map .member
  | .pair => ((t.child? .key).bind propertyName?).map .member
  | .variableDeclarator =>
    ((t.child? .name).filter (·.kind == .identifier)).map (.variable ·.text)
  | .assignmentExpression => (t.child? .left).bind fun left =>
    if left.kind = .identifier then some (.variable left.text)
    else if left.kind = .memberExpression then (left.child? .property).map (.member ·.text)
    else none
  | _ => none

/-- The binding of the child at an index, if it is in a role that is bound. -/
def bindingOf? (t : Tree) (i : Nat) : Option Binding :=
  if bindingFields.any fun field => t.kind == field.1 && t.isField i field.2 then t.offered?
  else none

/-- The binding of the node at an address. -/
def bindingAt? (t : Tree) (address : List Nat) : Option Binding :=
  (t.siteAt? address).bind fun site => site.1.bindingOf? site.2

theorem siteAt?_cons (t : Tree) (i : Nat) (address : List Nat) :
    t.siteAt? (i :: address) = (t.children[i]?.bind (·.siteAt? address)).or
      (if t.kind.isTransparent then none else some (t, i)) :=
  rfl

/-- One step further down, the site is the node that is left, unless that one is transparent. -/
theorem siteAt?_concat {t n c : Tree} {address : List Nat} {i : Nat}
    (hn : t.at? address = some n) (hc : n.children[i]? = some c) :
    t.siteAt? (address ++ [i]) =
      if n.kind.isTransparent then t.siteAt? address else some (n, i) := by
  induction address generalizing t with
  | nil =>
    obtain rfl := Option.some.inj hn
    rw [List.nil_append, siteAt?_cons, hc]
    rfl
  | cons j address ih =>
    obtain ⟨child, hchild, hn⟩ := Option.bind_eq_some_iff.mp hn
    rw [List.cons_append, siteAt?_cons, siteAt?_cons, hchild, Option.bind_some, Option.bind_some,
      ih hn]
    split <;> rfl

theorem bindingOf?_eq_some_iff {t : Tree} {i : Nat} {b : Binding} :
    t.bindingOf? i = some b ↔
      (∃ r, (t.kind, r) ∈ bindingFields ∧ t.isField i r = true) ∧ t.offered? = some b := by
  have hany : (bindingFields.any fun field => t.kind == field.1 && t.isField i field.2) = true ↔
      ∃ r, (t.kind, r) ∈ bindingFields ∧ t.isField i r = true := by
    simp only [List.any_eq_true, Bool.and_eq_true, beq_iff_eq]
    constructor
    · rintro ⟨⟨k, r⟩, hmem, rfl, hfield⟩
      exact ⟨r, hmem, hfield⟩
    · rintro ⟨r, hmem, hfield⟩
      exact ⟨_, hmem, rfl, hfield⟩
  rw [bindingOf?, ← hany]
  split
  case isTrue h => exact ⟨fun hb => ⟨h, hb⟩, And.right⟩
  case isFalse h =>
    constructor
    · rintro ⟨⟩
    · exact fun hb => absurd hb.1 h

theorem bindingAt?_eq_some_iff {t : Tree} {address : List Nat} {b : Binding} :
    t.bindingAt? address = some b ↔ ∃ parent i r, t.siteAt? address = some (parent, i) ∧
      (parent.kind, r) ∈ bindingFields ∧ parent.isField i r = true ∧ parent.offered? = some b := by
  rw [bindingAt?, Option.bind_eq_some_iff]
  constructor
  · rintro ⟨⟨parent, i⟩, hsite, hb⟩
    obtain ⟨⟨r, hmem, hfield⟩, hoffer⟩ := bindingOf?_eq_some_iff.mp hb
    exact ⟨parent, i, r, hsite, hmem, hfield, hoffer⟩
  · rintro ⟨parent, i, r, hsite, hmem, hfield, hoffer⟩
    exact ⟨(parent, i), hsite, bindingOf?_eq_some_iff.mpr ⟨⟨r, hmem, hfield⟩, hoffer⟩⟩

theorem isField_append (r : Option Role) (k : Kind) (before : List Tree) (t : Tree)
    (after : List Tree) (field : Role) :
    (Tree.node r k (before ++ t :: after)).isField before.length field =
      (t.role == some field && before.all (·.role != some field)) := by
  have hbefore : before.findIdx? (·.role == some field) ≠ some before.length := by
    intro h
    obtain ⟨hlt, _⟩ := List.findIdx?_eq_some_iff_getElem.mp h
    exact Nat.lt_irrefl _ hlt
  rw [Bool.eq_iff_iff]
  simp [isField, children, List.findIdx?_append, List.findIdx?_cons, hbefore, and_comm]

/-! ### Trees put together again -/

/-- The tree that a node is part of, by the way down to it. -/
def rebuild (t : Tree) : List Crumb → Tree
  | [] => t
  | crumb :: up => (crumb.parent t).rebuild up

theorem at?_rebuild (t : Tree) (path : List Crumb) (address : List Nat) :
    (t.rebuild path).at? (Cursor.addressOf path ++ address) = t.at? address := by
  induction path generalizing t address with
  | nil => rfl
  | cons crumb up ih =>
    rw [rebuild, Cursor.addressOf_cons, List.append_assoc, ih, List.singleton_append, at?]
    simp [Crumb.parent, children]

theorem rebuild_of_mem_preorderAmong {ts : List Tree} {r : Option Role} {k : Kind} {top : Position}
    {up : List Crumb} (start : Position) (before : List Tree) {c : Cursor}
    (ih : ∀ t ∈ ts, ∀ start path, ∀ c ∈ t.preorder start path,
      c.focus.rebuild c.path = t.rebuild path)
    (h : c ∈ preorderAmong r k top up start before ts) :
    c.focus.rebuild c.path = (Tree.node r k (before.reverse ++ ts)).rebuild up := by
  induction ts generalizing start before with
  | nil => cases h
  | cons t ts ihts =>
    rw [preorderAmong] at h
    rcases List.mem_append.mp h with h | h
    · exact ih t List.mem_cons_self _ _ c h
    · have hrest := ihts _ _ (fun u hu => ih u (List.mem_cons_of_mem t hu)) h
      rwa [List.reverse_cons, List.append_assoc] at hrest

/-- Every node that is passed is part of the tree that is walked. -/
theorem rebuild_of_mem_preorder (t : Tree) (start : Position) (path : List Crumb) :
    ∀ c ∈ t.preorder start path, c.focus.rebuild c.path = t.rebuild path := by
  induction t using Tree.induction generalizing start path with
  | leaf r k token =>
    intro c hc
    obtain rfl := List.mem_singleton.mp hc
    rfl
  | node r k cs ih =>
    intro c hc
    rw [preorder] at hc
    rcases List.mem_cons.mp hc with rfl | hc
    · rfl
    · exact rebuild_of_mem_preorderAmong _ _ ih hc

theorem rebuild_of_mem_walk {t : Tree} {c : Cursor} (h : c ∈ (Cursor.ofTree t).walk) :
    c.focus.rebuild c.path = t := by
  rw [Cursor.walk_eq_preorder] at h
  exact rebuild_of_mem_preorder t .origin [] c h

end Tree

namespace Cursor

/-! ### The way up -/

/-- The node that is `n` steps up. -/
def ascend : Nat → Cursor → Option Cursor
  | 0, c => some c
  | n + 1, c => c.parent?.bind (ascend n)

/-- **The way up ends.** After no more steps than the node is deep, through transparent nodes only,
it has come to the root or to a child of the site. -/
theorem site?_ascend (c : Cursor) :
    ∃ n d, n ≤ c.path.length ∧ c.ascend n = some d ∧
      (∀ m p, m < n → c.ascend (m + 1) = some p → p.focus.kind.isTransparent = true) ∧
      (d.parent? = none ∧ c.site? = none ∨
        ∃ p, d.parent? = some p ∧ p.focus.kind.isTransparent = false ∧ c.site? = some (p, d)) := by
  fun_induction site? c with
  | case1 c hp =>
    exact ⟨0, c, Nat.zero_le _, rfl, fun m p hm => absurd hm (Nat.not_lt_zero m), .inl ⟨hp, rfl⟩⟩
  | case2 c p hp htransparent ih =>
    obtain ⟨n, d, hn, hd, hway, hend⟩ := ih
    have hlt := path_parent? hp
    refine ⟨n + 1, d, by omega, by rw [ascend, hp, Option.bind_some, hd], fun m q hm hq => ?_, hend⟩
    rw [ascend, hp, Option.bind_some] at hq
    cases m with
    | zero =>
      obtain rfl := Option.some.inj hq
      exact htransparent
    | succ m => exact hway m q (by omega) hq
  | case3 c p hp hsolid =>
    refine ⟨0, c, Nat.zero_le _, rfl, fun m p hm => absurd hm (Nat.not_lt_zero m), .inr ?_⟩
    exact ⟨p, hp, by simpa using hsolid, rfl⟩

/-- The index of the node among its siblings. -/
def index (c : Cursor) : Nat :=
  match c.path with
  | [] => 0
  | crumb :: _ => crumb.before.length

theorem parent?_of_site? {c p d : Cursor} (h : c.site? = some (p, d)) : d.parent? = some p := by
  obtain ⟨_, d', _, _, _, ⟨_, hnone⟩ | ⟨p', hp', _, hsome⟩⟩ := site?_ascend c
  · rw [hnone] at h
    cases h
  · rw [hsome] at h
    cases h
    exact hp'

/-- One step up, the site found from the top is the same one, unless the parent is the site. -/
theorem siteAt?_of_parent? {c p : Cursor} (h : c.parent? = some p) :
    (c.focus.rebuild c.path).siteAt? c.address =
      if p.focus.kind.isTransparent then (p.focus.rebuild p.path).siteAt? p.address
      else some (p.focus, c.index) := by
  obtain ⟨t, start, path⟩ := c
  cases path with
  | nil => cases h
  | cons crumb up =>
    cases h
    have hat := Tree.at?_rebuild (crumb.parent t) up []
    rw [List.append_nil] at hat
    have hchild : (crumb.parent t).children[crumb.before.length]? = some t := by
      simp [Crumb.parent, Tree.children]
    have hconcat := Tree.siteAt?_concat hat hchild
    rw [← addressOf_cons] at hconcat
    exact hconcat

/-- **The cursor comes to the site that is found from the top.** -/
theorem site?_eq_siteAt? (c : Cursor) :
    c.site?.map (fun s => (s.1.focus, s.2.index)) = (c.focus.rebuild c.path).siteAt? c.address := by
  fun_induction site? c with
  | case1 c hp =>
    obtain ⟨t, start, path⟩ := c
    cases path with
    | nil => rfl
    | cons crumb up => cases hp
  | case2 c p hp htransparent ih => rw [ih, siteAt?_of_parent? hp, if_pos htransparent]
  | case3 c p hp hsolid =>
    rw [siteAt?_of_parent? hp, if_neg hsolid]
    rfl

/-! ### Bindings -/

theorem isFirst_eq_isField {c p : Cursor} (h : c.parent? = some p) (r : Role) :
    c.isFirst r = p.focus.isField c.index r := by
  obtain ⟨t, start, path⟩ := c
  cases path with
  | nil => cases h
  | cons crumb up =>
    cases h
    have hfield := Tree.isField_append crumb.role crumb.kind crumb.before.reverse t crumb.after r
    rw [List.length_reverse, List.all_reverse] at hfield
    exact hfield.symm

/-- The binding is told by the site and the child that leads to it, and by nothing else. -/
theorem binding?_eq (c : Cursor) :
    c.binding? = (c.focus.rebuild c.path).bindingAt? c.address := by
  rw [Tree.bindingAt?, ← site?_eq_siteAt?, binding?]
  cases hs : c.site? with
  | none => rfl
  | some s =>
    obtain ⟨p, d⟩ := s
    have hfirst := isFirst_eq_isField (parent?_of_site? hs)
    simp only [Option.bind_eq_bind, Option.bind_some, Option.map_some, hfirst]
    rw [Tree.bindingOf?]
    -- Once the kind is known, the rows of that kind are left of the table.
    split
    case h_7 hkind =>
      have hbound : (Tree.bindingFields.any fun field =>
          p.focus.kind == field.1 && p.focus.isField d.index field.2) = true ↔
            p.focus.isField d.index .right = true := by
        simp [Tree.bindingFields, hkind]
      refine ite_congr (propext hbound.symm) (fun _ => ?_) fun _ => rfl
      simp only [Tree.offered?, hkind]
      cases p.focus.child? .left with
      | none => rfl
      | some left =>
        simp only [Option.bind_some]
        split <;> simp_all
    all_goals simp_all [Tree.bindingFields, Tree.offered?]

theorem binding?_of_mem_walk {t : Tree} {c : Cursor} (hc : c ∈ (ofTree t).walk) :
    c.binding? = t.bindingAt? c.address := by
  rw [binding?_eq, Tree.rebuild_of_mem_walk hc]

end Cursor

end ArityCheck
