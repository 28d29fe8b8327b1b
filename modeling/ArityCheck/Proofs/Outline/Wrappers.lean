import ArityCheck.Proofs.Outline.Sites
import Mathlib.Logic.Relation

/-! Bindings are seen through parentheses, annotations and unions.

`Tree.Wrapped` puts one transparent node between a node and its site. The new node takes the role of
what it is put around, so the site has a child in the same role at the same index as before, and it
never reads its name off that child (`bindingOf?_append`). One wrapper more or less leaves the
binding as it is (`Wrapped.bindingAt?`), and so does any number of them. -/
namespace ArityCheck

namespace Tree

/-- The same tree in another role, or in none. -/
def inRole (r : Option Role) : Tree → Tree
  | .leaf _ k token => .leaf r k token
  | .node _ k cs => .node r k cs

@[simp] theorem kind_inRole (r : Option Role) (t : Tree) : (t.inRole r).kind = t.kind := by
  cases t <;> rfl

@[simp] theorem children_inRole (r : Option Role) (t : Tree) :
    (t.inRole r).children = t.children := by
  cases t <;> rfl

@[simp] theorem inRole_inRole (r r' : Option Role) (t : Tree) :
    (t.inRole r').inRole r = t.inRole r := by
  cases t <;> rfl

/-- The second tree is the first with one more transparent node around the node at the address, or
around one that lies between that node and its site. The address becomes that of the same node. -/
inductive Wrapped : Tree × List Nat → Tree × List Nat → Prop
  | around {t : Tree} {address : List Nat} (k : Kind) (inner : Option Role)
      (before after : List Tree) (transparent : k.isTransparent = true)
      (free : t.siteAt? address = none) :
      Wrapped (t, address)
        (.node t.role k (before ++ t.inRole inner :: after), before.length :: address)
  | within {t t' : Tree} {address address' : List Nat} (r : Option Role) (k : Kind)
      (before after : List Tree) (wrapped : Wrapped (t, address) (t', address')) :
      Wrapped (.node r k (before ++ t :: after), before.length :: address)
        (.node r k (before ++ t' :: after), before.length :: address')

/-! ### What the site reads -/

theorem role_of_mem_bindingFields :
    ∀ field ∈ bindingFields, some field.2 ∈ [some Role.value, some .type, some .right] := by
  decide

section

variable (r : Option Role) (k : Kind) (before : List Tree) {t t' : Tree} (after : List Tree)

theorem child?_append (role : Role) (h : t.role ≠ some role) (h' : t'.role ≠ some role) :
    (Tree.node r k (before ++ t' :: after)).child? role =
      (Tree.node r k (before ++ t :: after)).child? role := by
  simp [child?, children, List.find?_append, h, h']

/-- The name is not looked for in a child that is bound to it. -/
theorem offered?_append (hrole : t'.role = t.role)
    (h : t.role ∈ [some Role.value, some .type, some .right]) :
    (Tree.node r k (before ++ t' :: after)).offered? =
      (Tree.node r k (before ++ t :: after)).offered? := by
  have hchild (role : Role) (hr : some role ∉ [some Role.value, some .type, some .right]) :=
    child?_append r k before after role (fun he => hr (he ▸ h))
      (fun he => hr (he ▸ hrole ▸ h))
  simp only [offered?, declaredName?, keyName?, kind, hchild .name (by decide),
    hchild .property (by decide), hchild .key (by decide), hchild .left (by decide)]

/-- What is bound can be exchanged for anything in the same role. -/
theorem bindingOf?_append (hrole : t'.role = t.role) :
    (Tree.node r k (before ++ t' :: after)).bindingOf? before.length =
      (Tree.node r k (before ++ t :: after)).bindingOf? before.length := by
  simp only [bindingOf?, kind, isField_append, hrole]
  split
  case isTrue hany =>
    obtain ⟨field, hfield, hbound⟩ := List.any_eq_true.mp hany
    have hrow := role_of_mem_bindingFields field hfield
    simp only [Bool.and_eq_true, beq_iff_eq] at hbound
    exact offered?_append r k before after hrole (hbound.2.1 ▸ hrow)
  case isFalse => rfl

end

/-! ### One wrapper -/

theorem siteAt?_append (r : Option Role) (k : Kind) (before : List Tree) (t : Tree)
    (after : List Tree) (address : List Nat) :
    (Tree.node r k (before ++ t :: after)).siteAt? (before.length :: address) =
      (t.siteAt? address).or (if k.isTransparent then none
        else some (.node r k (before ++ t :: after), before.length)) := by
  have hchild : (Tree.node r k (before ++ t :: after)).children[before.length]? = some t := by
    simp [children]
  rw [siteAt?_cons, hchild]
  rfl

theorem at?_append (r : Option Role) (k : Kind) (before : List Tree) (t : Tree)
    (after : List Tree) (address : List Nat) :
    (Tree.node r k (before ++ t :: after)).at? (before.length :: address) = t.at? address := by
  simp [at?, children]

/-- The role of the top of a tree makes no site. -/
theorem siteAt?_inRole_eq_none {t : Tree} {address : List Nat} (r : Option Role)
    (h : t.siteAt? address = none) : (t.inRole r).siteAt? address = none := by
  cases address with
  | nil => rfl
  | cons i address =>
    rw [siteAt?_cons, Option.or_eq_none_iff] at h
    rw [siteAt?_cons, children_inRole, kind_inRole, Option.or_eq_none_iff]
    refine ⟨h.1, ?_⟩
    split
    · rfl
    · have := h.2
      simp_all

/-- Two nodes have sites that bind them alike, or both have none. -/
def SameSite : Option (Tree × Nat) → Option (Tree × Nat) → Prop :=
  Option.Rel fun s s' => s'.1.bindingOf? s'.2 = s.1.bindingOf? s.2

theorem SameSite.or {s s' u u' : Option (Tree × Nat)} (h : SameSite s s') (hu : SameSite u u') :
    SameSite (s.or u) (s'.or u') := by
  cases h with
  | none => exact hu
  | some hbinding => exact .some hbinding

theorem SameSite.bind {s s' : Option (Tree × Nat)} (h : SameSite s s') :
    (s'.bind fun site => site.1.bindingOf? site.2) =
      s.bind fun site => site.1.bindingOf? site.2 := by
  cases h with
  | none => rfl
  | some hbinding => exact hbinding

namespace Wrapped

variable {x y : Tree × List Nat}

theorem role (h : Wrapped x y) : y.1.role = x.1.role := by
  cases h <;> rfl

/-- The node itself is the same one, in another role at most. -/
theorem at? (h : Wrapped x y) :
    (y.1.at? y.2).map (inRole none) = (x.1.at? x.2).map (inRole none) := by
  induction h with
  | @around t address k inner before after transparent free =>
    rw [at?_append]
    cases address with
    | nil => simp [Tree.at?]
    | cons i address => simp [Tree.at?]
  | within r k before after wrapped ih => rw [at?_append, at?_append, ih]

/-- A wrapper is no site, and a site above it stays one for the same binding. -/
theorem sameSite (h : Wrapped x y) : SameSite (x.1.siteAt? x.2) (y.1.siteAt? y.2) := by
  induction h with
  | around k inner before after transparent free =>
    rw [siteAt?_append, free, siteAt?_inRole_eq_none inner free, if_pos transparent]
    exact .none
  | within r k before after wrapped ih =>
    rw [siteAt?_append, siteAt?_append]
    apply ih.or
    split
    · exact .none
    · exact .some (bindingOf?_append r k before after wrapped.role)

theorem bindingAt? (h : Wrapped x y) : y.1.bindingAt? y.2 = x.1.bindingAt? x.2 :=
  h.sameSite.bind

end Wrapped

/-! ### Any number of wrappers -/

section

variable {x y : Tree × List Nat} (h : Relation.EqvGen Wrapped x y)

include h

theorem at?_of_eqvGen_wrapped :
    (y.1.at? y.2).map (inRole none) = (x.1.at? x.2).map (inRole none) :=
  (congrArg (Quot.lift (fun x => (x.1.at? x.2).map (inRole none)) fun _ _ h => h.at?.symm)
    (Quot.eqvGen_sound h)).symm

theorem bindingAt?_of_eqvGen_wrapped : y.1.bindingAt? y.2 = x.1.bindingAt? x.2 :=
  (congrArg (Quot.lift (fun x => x.1.bindingAt? x.2) fun _ _ h => h.bindingAt?.symm)
    (Quot.eqvGen_sound h)).symm

end

end Tree

namespace Cursor

/-- **The binding of a node is told by its site.** The way up ends, at the last node from the top that
is not transparent or at the root. There is a binding exactly if that node has the child on the way
in one of the roles of the table and offers a name, so below a node of any other kind there is none,
whatever lies further out. Wrappers that are put in or taken out below the site change nothing. -/
theorem binding?_told_by_site (t : Tree) (c : Cursor) (hc : c ∈ (ofTree t).walk) :
    (∃ n d, n ≤ c.address.length ∧ c.ascend n = some d ∧
      (∀ m p, m < n → c.ascend (m + 1) = some p → p.focus.kind.isTransparent = true) ∧
      (d.parent? = none ∧ c.site? = none ∨
        ∃ p, d.parent? = some p ∧ p.focus.kind.isTransparent = false ∧ c.site? = some (p, d))) ∧
    c.site?.map (fun site => (site.1.focus, site.2.index)) = t.siteAt? c.address ∧
    (∀ b, c.binding? = some b ↔ ∃ parent i r, t.siteAt? c.address = some (parent, i) ∧
      (parent.kind, r) ∈ Tree.bindingFields ∧ parent.isField i r = true ∧
      parent.offered? = some b) ∧
    (∀ parent i, t.siteAt? c.address = some (parent, i) →
      parent.kind ∉ Tree.bindingFields.map Prod.fst → c.binding? = none) ∧
    (∀ t' address, Relation.EqvGen Tree.Wrapped (t, c.address) (t', address) →
      ∃ c' ∈ (ofTree t').walk, c'.address = address ∧
        c'.focus.inRole none = c.focus.inRole none ∧ c'.binding? = c.binding?) := by
  have hbinding := binding?_of_mem_walk hc
  have hsite := site?_eq_siteAt? c
  rw [Tree.rebuild_of_mem_walk hc] at hsite
  refine ⟨?_, hsite, fun b => ?_, fun parent i hat hkind => ?_, fun t' address hwrapped => ?_⟩
  · have hlength : c.address.length = c.path.length := by simp [address, addressOf]
    rw [hlength]
    exact site?_ascend c
  · rw [hbinding, Tree.bindingAt?_eq_some_iff]
  · rw [hbinding, Option.eq_none_iff_forall_ne_some]
    intro b hb
    obtain ⟨parent', i', r, hat', hmem, -⟩ := Tree.bindingAt?_eq_some_iff.mp hb
    rw [hat] at hat'
    cases hat'
    exact hkind (List.mem_map_of_mem hmem)
  · have hfocus : t.at? c.address = some c.focus := at?_eq_some_iff_mem_walk.mpr ⟨c, hc, rfl, rfl⟩
    have hnode := Tree.at?_of_eqvGen_wrapped hwrapped
    rw [hfocus, Option.map_some, Option.map_eq_some_iff] at hnode
    obtain ⟨n, hn, hbare⟩ := hnode
    obtain ⟨c', hc', rfl, rfl⟩ := at?_eq_some_iff_mem_walk.mp hn
    refine ⟨c', hc', rfl, hbare, ?_⟩
    rw [hbinding, binding?_of_mem_walk hc']
    exact Tree.bindingAt?_of_eqvGen_wrapped hwrapped

/-- A variable `f` with an initial value. -/
def declaring (value : Tree) : Tree :=
  .node none .variableDeclarator [.leaf (some .name) .identifier ⟨"", "f", false⟩, value]

def emptyArrow (r : Option Role) : Tree := .node r .arrowFunction []

/-- A function keeps the name of its variable in two pairs of parentheses, and an argument of a call
has none there. -/
theorem binding?_told_by_site_of_parentheses :
    (∃ c ∈ (ofTree (declaring (emptyArrow (some .value)))).walk,
      c.address = [1] ∧ c.binding? = some (.variable "f") ∧
      ∃ c' ∈ (ofTree (declaring (.node (some .value) .parenthesizedExpression
          [.node none .parenthesizedExpression [emptyArrow none]]))).walk,
        c'.address = [1, 0, 0] ∧ c'.binding? = some (.variable "f")) ∧
    ∃ c ∈ (ofTree (declaring (.node (some .value) .callExpression
        [.node (some .arguments) .arguments [emptyArrow none]]))).walk,
      c.address = [1, 0, 0] ∧ c.binding? = none := by
  constructor
  · obtain ⟨c, hc, haddress, -⟩ := at?_eq_some_iff_mem_walk.mp
      (show (declaring (emptyArrow (some .value))).at? [1] =
        some (emptyArrow (some .value)) from rfl)
    obtain ⟨-, -, hiff, -, hwrapped⟩ := binding?_told_by_site _ c hc
    rw [haddress] at hiff hwrapped
    have hbinding : c.binding? = some (.variable "f") :=
      (hiff _).mpr ⟨_, 1, .value, rfl, by decide, by decide, by decide⟩
    obtain ⟨c', hc', haddress', -, hsame⟩ := hwrapped _ _ (.trans _ _ _
      (.rel _ _ (.within _ _ [_] [] (.around .parenthesizedExpression none [] [] rfl rfl)))
      (.rel _ _ (.within _ _ [_] [] (.around .parenthesizedExpression none [] [] rfl rfl))))
    exact ⟨c, hc, haddress, hbinding, c', hc', haddress', hsame.trans hbinding⟩
  · obtain ⟨c, hc, haddress, -⟩ := at?_eq_some_iff_mem_walk.mp
      (show (declaring (.node (some .value) .callExpression
        [.node (some .arguments) .arguments [emptyArrow none]])).at? [1, 0, 0] =
          some (emptyArrow none) from rfl)
    obtain ⟨-, -, -, hother, -⟩ := binding?_told_by_site _ c hc
    rw [haddress] at hother
    exact ⟨c, hc, haddress, hother _ _ rfl (by decide)⟩

end Cursor

end ArityCheck
