import ArityCheck.Proofs.Outline.Comments
import ArityCheck.Proofs.Outline.Keys
import ArityCheck.Proofs.Outline.Sites
import ArityCheck.Rule.Category

/-! Names that go over several lines.

Words and numbers stand on one line, and so does the text of whatever a declaration, a member access
or a variable is named by. What is left are keys: one that is written as a string, or computed from
one, has the text of the string for its name, and a string may go on after a backslash at the end of
a line. A call is never named by a key (`not_mem_name_of_call`), and a function that has a line
break in its name is named by such a key of the same text (`hasBrokenKey_of_function`). -/
namespace ArityCheck

namespace Tree

/-! ### Nodes of a tree that was read -/

variable {t n c key : Tree} {name : String} {address : List Nat} {r : Role}

theorem Lined.child (h : t.Lined) (hc : c ∈ t.children) : c.Lined := by
  cases h with
  | leaf => cases hc
  | node _ hchildren _ => exact hchildren c hc

theorem Lined.at? (h : t.Lined) (hn : t.at? address = some n) : n.Lined := by
  induction address generalizing t with
  | nil => exact Option.some.inj hn ▸ h
  | cons i address ih =>
    obtain ⟨c, hc, hn⟩ := Option.bind_eq_some_iff.mp hn
    exact ih (h.child (List.mem_of_getElem? hc)) hn

theorem exists_at?_of_mem_children (hn : t.at? address = some n) (hc : c ∈ n.children) :
    ∃ below, t.at? below = some c := by
  induction address generalizing t with
  | nil =>
    obtain rfl := Option.some.inj hn
    obtain ⟨i, hi⟩ := List.getElem?_of_mem hc
    exact ⟨[i], Option.bind_eq_some_iff.mpr ⟨c, hi, rfl⟩⟩
  | cons i address ih =>
    obtain ⟨d, hd, hn⟩ := Option.bind_eq_some_iff.mp hn
    obtain ⟨below, hbelow⟩ := ih hn
    exact ⟨i :: below, Option.bind_eq_some_iff.mpr ⟨d, hd, hbelow⟩⟩

theorem exists_at?_of_siteAt? {i : Nat} (h : t.siteAt? address = some (n, i)) :
    ∃ above, t.at? above = some n := by
  induction address generalizing t with
  | nil => cases h
  | cons j address ih =>
    rw [siteAt?_cons, Option.or_eq_some_iff] at h
    rcases h with h | ⟨_, h⟩
    · obtain ⟨c, hc, hsite⟩ := Option.bind_eq_some_iff.mp h
      obtain ⟨above, habove⟩ := ih hsite
      exact ⟨j :: above, Option.bind_eq_some_iff.mpr ⟨c, hc, habove⟩⟩
    · split at h
      · cases h
      · obtain ⟨rfl, _⟩ := Prod.mk.inj (Option.some.inj h)
        exact ⟨[], rfl⟩

theorem mem_children_of_child? (h : t.child? r = some c) : c ∈ t.children ∧ c.role = some r :=
  ⟨List.mem_of_find?_eq_some h, by simpa using List.find?_some h⟩

/-! ### Names on one line -/

theorem Lined.text_of_word (h : t.Lined) (hk : t.kind.standing = .word) :
    '\n' ∉ t.text.toList := by
  cases h with
  | leaf htext => exact htext hk
  | node hkind => rw [kind] at hk; simp [hk] at hkind

/-- What a node is named by is a word. -/
theorem Lined.text_of_namedBy (h : t.Lined) (hk : t.kind.namedBy = some r)
    (hc : t.child? r = some c) : '\n' ∉ c.text.toList := by
  obtain ⟨hmem, hrole⟩ := mem_children_of_child? hc
  obtain ⟨hnamed, hnaming⟩ := Kind.standing_of_namedBy hk
  refine (h.child hmem).text_of_word ?_
  cases h with
  | leaf => cases hmem
  | node _ _ hnames => exact hnames hnamed c hmem (by rwa [hrole, Option.any_some])

theorem Lined.declaredName? (h : t.Lined) (hk : t.kind.namedBy = some .name)
    (hname : t.declaredName? = some name) : '\n' ∉ name.toList := by
  obtain ⟨c, hc, rfl⟩ := Option.map_eq_some_iff.mp hname
  exact h.text_of_namedBy hk hc

theorem Lined.memberName? (h : t.Lined) (hk : t.kind = .memberExpression)
    (hname : t.memberName? = some name) : '\n' ∉ name.toList := by
  obtain ⟨c, hc, rfl⟩ := Option.map_eq_some_iff.mp hname
  rw [String.toList_ofList]
  exact fun hbreak => h.text_of_namedBy (by rw [hk]; rfl) hc (List.dropWhile_subset _ hbreak)

/-! ### Callees -/

theorem not_mem_name_calleeAmong {cs : List Tree}
    (ih : ∀ c ∈ cs, ∀ name, c.callee.name? = some name → '\n' ∉ name.toList)
    (hname : (calleeAmong cs).name? = some name) : '\n' ∉ name.toList := by
  induction cs with
  | nil => cases hname
  | cons c cs ihcs =>
    rw [calleeAmong] at hname
    split at hname
    · exact ih c List.mem_cons_self name hname
    · exact ihcs (fun d hd => ih d (List.mem_cons_of_mem _ hd)) hname

theorem Lined.callee (h : t.Lined) (hname : t.callee.name? = some name) :
    '\n' ∉ name.toList := by
  induction t using Tree.induction generalizing name with
  | leaf role k token =>
    rw [Tree.callee] at hname
    split at hname
    case isTrue hk =>
      obtain rfl := Option.some.inj hname
      exact h.text_of_word (by rw [kind, hk])
    case isFalse => cases hname
  | node role k cs ih =>
    unfold Tree.callee at hname
    split at hname
    · obtain rfl := Option.some.inj hname
      exact h.text_of_word rfl
    · cases hmember : (Tree.node role .memberExpression cs).memberName? with
      | none => rw [hmember] at hname; cases hname
      | some member =>
        rw [hmember] at hname
        obtain rfl := Option.some.inj hname
        exact h.memberName? rfl hmember
    · exact not_mem_name_calleeAmong (fun c hc _ => ih c hc (h.child hc)) hname
    · cases hname

theorem Lined.call? (h : t.Lined) {callee : Callee} {count : Nat}
    (hcall : t.call? = some (callee, count)) (hname : callee.name? = some name) :
    '\n' ∉ name.toList := by
  obtain ⟨function, arguments, hfunction, -, -, -, rfl, -⟩ := call?_eq_some_iff.mp hcall
  exact (h.child (mem_children_of_child? hfunction).1).callee hname

/-! ### Keys -/

/-- The string that a key is written as, or computed from. -/
def keyString? (key : Tree) : Option Tree :=
  match key.kind with
  | .string => some key
  | .computedPropertyName =>
    (key.children.find? fun c => c.kind == .string || c.kind == .number).filter (·.kind == .string)
  | _ => none

/-- A key of the tree gives the name, and it does so by a string that goes over several lines. -/
def HasBrokenKey (t : Tree) (name : String) : Prop :=
  ∃ address key literal, t.at? address = some key ∧
    (key.role = some .name ∨ key.role = some .key ∨ key.role = some .property) ∧
    key.keyString? = some literal ∧ '\n' ∈ literal.text.toList ∧
    name = propertyName?.unquoted literal.text

theorem HasBrokenKey.break_mem (h : t.HasBrokenKey name) : '\n' ∈ name.toList := by
  obtain ⟨_, _, literal, _, _, _, hbreak, rfl⟩ := h
  exact (mem_unquoted_iff (by decide)).mpr hbreak

theorem kind_of_keyString? {literal : Tree} (h : key.keyString? = some literal) :
    literal.kind = .string ∧ (literal = key ∨ literal ∈ key.children) := by
  rw [keyString?] at h
  split at h
  case h_1 hk =>
    obtain rfl := Option.some.inj h
    exact ⟨hk, .inl rfl⟩
  case h_2 =>
    obtain ⟨hfind, hk⟩ := Option.filter_eq_some_iff.mp h
    exact ⟨eq_of_beq hk, .inr (List.mem_of_find?_eq_some hfind)⟩
  case h_3 => cases h

/-- Without strings over several lines there are no such keys. -/
theorem HasBrokenKey.exists_string (h : t.HasBrokenKey name) :
    ∃ address literal, t.at? address = some literal ∧ literal.kind = .string ∧
      '\n' ∈ literal.text.toList := by
  obtain ⟨address, key, literal, hat, _, hliteral, hbreak, _⟩ := h
  obtain ⟨hkind, rfl | hmem⟩ := kind_of_keyString? hliteral
  · exact ⟨address, literal, hat, hkind, hbreak⟩
  · obtain ⟨below, hbelow⟩ := exists_at?_of_mem_children hat hmem
    exact ⟨below, literal, hbelow, hkind, hbreak⟩

theorem Lined.propertyName? (h : key.Lined) (hname : key.propertyName? = some name)
    (hbreak : '\n' ∈ name.toList) :
    ∃ literal, key.keyString? = some literal ∧ '\n' ∈ literal.text.toList ∧
      name = propertyName?.unquoted literal.text := by
  rw [Tree.propertyName?] at hname
  split at hname
  case h_7 hk =>
    obtain rfl := Option.some.inj hname
    exact ⟨key, by rw [keyString?, hk], (mem_unquoted_iff (by decide)).mp hbreak, rfl⟩
  case h_8 hk =>
    cases hfind : key.children.find? fun c => c.kind == .string || c.kind == .number with
    | none => rw [hfind] at hname; cases hname
    | some inner =>
      simp only [hfind, Option.some.injEq] at hname
      split at hname
      case isTrue hstring =>
        subst hname
        refine ⟨inner, ?_, (mem_unquoted_iff (by decide)).mp hbreak, rfl⟩
        rw [keyString?, hk]
        simp [hfind, hstring]
      case isFalse hstring =>
        subst hname
        have hinner := h.child (List.mem_of_find?_eq_some hfind)
        have hnumber : inner.kind = .number := by simpa [hstring] using List.find?_some hfind
        exact absurd hbreak (hinner.text_of_word (by rw [hnumber]))
  case h_9 => cases hname
  all_goals
    rename_i hk
    obtain rfl := Option.some.inj hname
    exact absurd hbreak (h.text_of_word (by rw [hk]))

/-- What is in one of the roles of a key, and gives its name. -/
theorem Lined.hasBrokenKey (h : t.Lined) (hn : t.at? address = some n)
    (hr : r = .name ∨ r = .key ∨ r = .property)
    (hname : (n.child? r).bind Tree.propertyName? = some name) (hbreak : '\n' ∈ name.toList) :
    t.HasBrokenKey name := by
  obtain ⟨key, hkey, hname⟩ := Option.bind_eq_some_iff.mp hname
  obtain ⟨hmem, hrole⟩ := mem_children_of_child? hkey
  obtain ⟨below, hbelow⟩ := exists_at?_of_mem_children hn hmem
  obtain ⟨literal, hliteral, hlines, rfl⟩ := (h.at? hbelow).propertyName? hname hbreak
  refine ⟨below, key, literal, hbelow, ?_, hliteral, hlines, rfl⟩
  rcases hr with rfl | rfl | rfl <;> simp [hrole]

/-! ### Bindings -/

/-- A node offers a name over several lines only by a key. -/
theorem Lined.offered? (h : t.Lined) (hn : t.at? address = some n) {b : Binding}
    (hb : n.offered? = some b) (hbreak : '\n' ∈ b.name.toList) : t.HasBrokenKey b.name := by
  have hlined := h.at? hn
  rw [Tree.offered?] at hb
  split at hb
  case h_1 hk =>
    obtain ⟨name, hname, rfl⟩ := Option.map_eq_some_iff.mp hb
    exact absurd hbreak (hlined.declaredName? (by rw [hk]; rfl) hname)
  case h_6 hk =>
    obtain ⟨c, hc, rfl⟩ := Option.map_eq_some_iff.mp hb
    obtain ⟨hc, hkind⟩ := Option.filter_eq_some_iff.mp hc
    have hname := hlined.child (mem_children_of_child? hc).1
    exact absurd hbreak (hname.text_of_word (by rw [eq_of_beq hkind]))
  case h_7 hk =>
    obtain ⟨left, hleft, hb⟩ := Option.bind_eq_some_iff.mp hb
    have hleft := hlined.child (mem_children_of_child? hleft).1
    split at hb
    case isTrue hkind =>
      obtain rfl := Option.some.inj hb
      exact absurd hbreak (hleft.text_of_word (by rw [hkind]))
    case isFalse =>
      split at hb
      case isTrue hkind =>
        obtain ⟨property, hproperty, rfl⟩ := Option.map_eq_some_iff.mp hb
        exact absurd hbreak (hleft.text_of_namedBy (by rw [hkind]; rfl) hproperty)
      case isFalse => cases hb
  case h_8 => cases hb
  all_goals
    obtain ⟨name, hname, rfl⟩ := Option.map_eq_some_iff.mp hb
    exact h.hasBrokenKey hn (by simp) hname hbreak

theorem Lined.bindingAt? (h : t.Lined) {b : Binding} (hb : t.bindingAt? address = some b)
    (hbreak : '\n' ∈ b.name.toList) : t.HasBrokenKey b.name := by
  obtain ⟨site, i, r, hsite, _, _, hoffer⟩ := bindingAt?_eq_some_iff.mp hb
  obtain ⟨above, habove⟩ := exists_at?_of_siteAt? hsite
  exact h.offered? habove hoffer hbreak

end Tree

/-! ### Constructs -/

namespace Cursor

variable {t : Tree} {c : Cursor} {shape : Shape} {name : String}

/-- The name that a construct has by itself is that of its node or of a key. -/
theorem name?_of_shape? (hshape : c.shape? = some shape) (hname : shape.name? = some name) :
    (c.focus.kind.namedBy = some .name ∧ c.focus.declaredName? = some name) ∨
      c.focus.keyName? = some name := by
  unfold shape? at hshape
  dsimp only at hshape
  split at hshape
  case h_5 | h_11 | h_12 =>
    obtain rfl := Option.some.inj hshape
    exact .inr hname
  case h_3 hk | h_4 hk =>
    split at hshape
    all_goals
      obtain rfl := Option.some.inj hshape
      exact .inl ⟨by rw [hk]; rfl, hname⟩
  case h_1 hk | h_2 hk | h_13 hk =>
    obtain rfl := Option.some.inj hshape
    exact .inl ⟨by rw [hk]; rfl, hname⟩
  case h_14 => cases hshape
  all_goals
    obtain rfl := Option.some.inj hshape
    cases hname

theorem hasBrokenKey_of_shape? (h : t.Lined) (hc : c ∈ (ofTree t).walk)
    (hshape : c.shape? = some shape) (hname : shape.labelName? c.binding? = some name)
    (hbreak : '\n' ∈ name.toList) : t.HasBrokenKey name := by
  have hat : t.at? c.address = some c.focus := at?_eq_some_iff_mem_walk.mpr ⟨c, hc, rfl, rfl⟩
  unfold Shape.labelName? at hname
  split at hname
  case h_1 => cases hname
  case h_2 =>
    rcases Option.or_eq_some_iff.mp hname with hown | ⟨_, hbinding⟩
    · rcases name?_of_shape? hshape hown with ⟨hk, hdeclared⟩ | hkey
      · exact absurd hbreak ((h.at? hat).declaredName? hk hdeclared)
      · exact h.hasBrokenKey hat (.inl rfl) hkey hbreak
    · obtain ⟨b, hb, rfl⟩ := Option.map_eq_some_iff.mp hbinding
      rw [binding?_of_mem_walk hc] at hb
      exact h.bindingAt? hb hbreak

end Cursor

namespace Outline

variable {t : Tree} {name : String}

theorem exists_construct? {x : Construct} (hx : x ∈ (ofTree t).constructs) :
    ∃ c ∈ (Cursor.ofTree t).walk, c.construct? = some x := by
  obtain ⟨c, hc, hx⟩ := List.mem_filterMap.mp hx
  exact ⟨c, (List.mem_filter.mp hc).1, hx⟩

/-- **The name of a call stands on one line.** -/
theorem not_mem_name_of_call (h : t.Lined) {callee : Callee} {count : Nat} {span : Span}
    (hx : .call callee count span ∈ (ofTree t).constructs) (hname : callee.name? = some name) :
    '\n' ∉ name.toList := by
  obtain ⟨c, hc, hx⟩ := exists_construct? hx
  have hat : t.at? c.address = some c.focus :=
    Cursor.at?_eq_some_iff_mem_walk.mpr ⟨c, hc, rfl, rfl⟩
  obtain ⟨-, hcall, -⟩ := Cursor.construct?_eq_call_iff.mp hx
  exact (h.at? hat).call? hcall hname

/-- **A function with a line break in its name is named by a key that is such a string.** -/
theorem hasBrokenKey_of_function (h : t.Lined) {shape : Shape} {count : Nat}
    {binding : Option Binding} {span : Span}
    (hx : .function shape count binding span ∈ (ofTree t).constructs)
    (hname : shape.labelName? binding = some name) (hbreak : '\n' ∈ name.toList) :
    t.HasBrokenKey name := by
  obtain ⟨c, hc, hx⟩ := exists_construct? hx
  obtain ⟨-, hshape, -, rfl, -⟩ := Cursor.construct?_eq_function_iff.mp hx
  exact Cursor.hasBrokenKey_of_shape? h hc hshape hname hbreak

end Outline

end ArityCheck
