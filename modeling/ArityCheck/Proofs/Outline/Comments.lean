import ArityCheck.Proofs.Grammar.Program
import ArityCheck.Proofs.Outline.Commented
import ArityCheck.Proofs.Outline.Document

/-! Comments make no difference to an outline.

A cursor in a tree and the one at the same node of the tree with comments read the same off their
node and off the nodes above it, the binding that the node is the value of among them
(`Cursor.Alike.construct?`). A comment itself is no construct, so the constructs are the same up
to where they stand (`Outline.ofTree_ignores_comments`). -/
namespace ArityCheck

/-- The same construct at another place. -/
def Construct.placedAt (span : Span) : Construct → Construct
  | .call callee count _ => .call callee count span
  | .function shape count binding _ => .function shape count binding span

/-! ### Cursors -/

namespace Cursor

/-- The cursors stand at the same node, in a tree and in one with comments put in. What is above
them is alike too, and they are the first children in the same roles. -/
inductive Alike : Cursor → Cursor → Prop
  | root {c c' : Cursor} (focus : c.focus.Alike c'.focus) (top : c.path = [])
      (top' : c'.path = []) : Alike c c'
  | child {c c' p p' : Cursor} (focus : c.focus.Alike c'.focus) (parent : c.parent? = some p)
      (parent' : c'.parent? = some p') (up : Alike p p')
      (first : ∀ r, c'.isFirst r = c.isFirst r) : Alike c c'

namespace Alike

variable {c c' : Cursor}

theorem focus (h : Alike c c') : c.focus.Alike c'.focus := by
  cases h <;> assumption

theorem isFirst (h : Alike c c') (r : Role) : c'.isFirst r = c.isFirst r := by
  cases h with
  | root focus top top' => rw [Cursor.isFirst, Cursor.isFirst, top, top']
  | child focus parent parent' up first => exact first r

theorem parent? (h : Alike c c') :
    c.parent? = none ∧ c'.parent? = none ∨
      ∃ p p', c.parent? = some p ∧ c'.parent? = some p' ∧ Alike p p' := by
  cases h with
  | root focus top top' =>
    left
    rw [Cursor.parent?, Cursor.parent?, top, top']
    exact ⟨rfl, rfl⟩
  | child focus parent parent' up first => exact .inr ⟨_, _, parent, parent', up⟩

end Alike

theorem site?_of_parent?_eq_none {c : Cursor} (h : c.parent? = none) : c.site? = none := by
  unfold site?
  split
  · rfl
  · next p hp =>
    rw [h] at hp
    cases hp

theorem site?_of_parent?_eq_some {c p : Cursor} (h : c.parent? = some p) :
    c.site? = if p.focus.kind.isTransparent then p.site? else some (p, c) := by
  rw [site?]
  split
  · next hnone =>
    rw [h] at hnone
    cases hnone
  · next q hq =>
    obtain rfl := Option.some.inj (h.symm.trans hq)
    rfl

namespace Alike

variable {c c' : Cursor}

/-- The way up to the binding passes the same nodes. -/
theorem site? (h : Alike c c') :
    c.site? = none ∧ c'.site? = none ∨
      ∃ p d p' d', c.site? = some (p, d) ∧ c'.site? = some (p', d') ∧ Alike p p' ∧ Alike d d' := by
  induction h with
  | @root c c' focus top top' =>
    left
    have hnone : ∀ d : Cursor, d.path = [] → d.site? = none := by
      intro d hd
      apply site?_of_parent?_eq_none
      rw [Cursor.parent?, hd]
    exact ⟨hnone c top, hnone c' top'⟩
  | @child c c' p p' focus parent parent' up first ih =>
    rw [site?_of_parent?_eq_some parent, site?_of_parent?_eq_some parent', up.focus.kind]
    split
    · exact ih
    · exact .inr ⟨p, c, p', c', rfl, rfl, up, .child focus parent parent' up first⟩

theorem isDefaultExport (h : Alike c c') : c'.isDefaultExport = c.isDefaultExport := by
  rw [Cursor.isDefaultExport, Cursor.isDefaultExport]
  obtain ⟨hp, hp'⟩ | ⟨p, p', hp, hp', hpp⟩ := h.parent?
  · rw [hp, hp']
  · rw [hp, hp']
    simp only [hpp.focus.kind, hpp.focus.hasToken, h.isFirst]

theorem methodKind (h : Alike c c') : c'.methodKind = c.methodKind := by
  have hclass : c'.parent?.any (·.focus.kind == .classBody) =
      c.parent?.any (·.focus.kind == .classBody) := by
    obtain ⟨hp, hp'⟩ | ⟨p, p', hp, hp', hpp⟩ := h.parent?
    · rw [hp, hp']
    · rw [hp, hp', Option.any_some, Option.any_some, hpp.focus.kind]
  rw [Cursor.methodKind, Cursor.methodKind, h.focus.hasToken, h.focus.hasToken, hclass,
    h.focus.keyName?]

theorem shape? (h : Alike c c') : c'.shape? = c.shape? := by
  unfold Cursor.shape?
  simp only [h.focus.kind, h.isDefaultExport, h.focus.modifiers, h.focus.keyName?, h.methodKind,
    h.focus.hasToken]
  split
  all_goals first
    | rfl
    | next hkind => rw [h.focus.declaredName? (by rw [hkind]; rfl)]

theorem binding? (h : Alike c c') : c'.binding? = c.binding? := by
  unfold Cursor.binding?
  obtain ⟨hs, hs'⟩ | ⟨p, d, p', d', hs, hs', hp, hd⟩ := h.site?
  · rw [hs, hs']
  · rw [hs, hs']
    simp only [Option.bind_eq_bind, Option.bind_some, hp.focus.kind, hd.isFirst,
      hp.focus.keyName?]
    split
    case h_1 hkind => rw [hp.focus.declaredName? (by rw [hkind]; rfl)]
    case h_4 => rw [hp.focus.propertyName?_child?]
    case h_5 => rw [hp.focus.propertyName?_child?]
    case h_6 => rw [hp.focus.identifier_child?]
    case h_7 =>
      obtain ⟨hl, hl'⟩ | ⟨l, l', hl, hl', hll⟩ := Tree.cases_of_rel (hp.focus.child? .left)
      · rw [hl, hl']
      · rw [hl, hl']
        refine ite_congr rfl (fun _ => ?_) fun _ => rfl
        simp only [hll.kind]
        split
        case h_1 hkind => rw [hll.text (by rw [hkind]; rfl)]
        case h_2 hkind =>
          have htext := hll.text_child? (r := .property) (by rw [hkind]; rfl)
          have hname := congrArg (Option.map Binding.member) htext
          rwa [Option.map_map, Option.map_map] at hname
        case h_3 => rfl
    all_goals rfl

theorem construct? (h : Alike c c') (span : Span) :
    c'.construct?.map (·.placedAt span) = c.construct?.map (·.placedAt span) := by
  rw [Cursor.construct?, Cursor.construct?, h.focus.kind]
  split
  · rw [h.focus.call?, Option.map_map, Option.map_map]
    rfl
  · rw [h.shape?, h.focus.paramCount, h.binding?, Option.map_map, Option.map_map]
    rfl

end Alike

/-! ### Constructs in pre-order -/

/-- The constructs at and below a node, as if all stood at one place. -/
def contents (span : Span) (cursors : List Cursor) : List Construct :=
  ((cursors.filter (!·.focus.isFault)).filterMap construct?).map (·.placedAt span)

theorem contents_cons (span : Span) (c : Cursor) (cursors : List Cursor) :
    contents span (c :: cursors) =
      (if c.focus.isFault then [] else (c.construct?.map (·.placedAt span)).toList) ++
        contents span cursors := by
  unfold contents
  cases hfault : c.focus.isFault with
  | true => simp [hfault]
  | false => cases hc : c.construct? <;> simp [hfault, hc]

theorem contents_append (span : Span) (cursors more : List Cursor) :
    contents span (cursors ++ more) = contents span cursors ++ contents span more := by
  simp [contents]

theorem construct?_of_isComment {c : Cursor} (h : c.focus.isComment = true) :
    c.construct? = none := by
  have hshape : c.shape? = none := by
    rw [Tree.isComment, Kind.isComment_iff] at h
    unfold shape?
    obtain hk | hk := h <;> simp only [hk]
  have hcall : ¬(c.focus.kind == .callExpression) = true := by
    intro hk
    rw [Tree.isComment, eq_of_beq hk] at h
    exact Bool.false_ne_true h
  rw [construct?, if_neg hcall, hshape]
  rfl

/-- A comment alone holds no construct. -/
theorem contents_comment (span : Span) (k : Kind) (token : Token) (hk : k.isComment = true)
    (start : Position) (path : List Crumb) :
    contents span ((Tree.leaf none k token).preorder start path) = [] := by
  have hnone : construct? ⟨.leaf none k token, start, path⟩ = none := construct?_of_isComment hk
  rw [Tree.preorder, contents_cons, hnone]
  split <;> rfl

/-- The same is found below the children of a node, if it is below each of them. The children
before them have the same roles, so that the first one in a role stays the first. -/
theorem contents_preorderAmong {span : Span} {r : Option Role} {k : Kind} {top top' : Position}
    {up up' : List Crumb} {ts ts' : List Tree} (h : Tree.Interspersed Tree.Alike ts ts')
    (ih : ∀ t ∈ ts, ∀ c c' : Cursor, c.focus = t → Alike c c' →
      contents span (c'.focus.preorder c'.start c'.path) =
        contents span (c.focus.preorder c.start c.path))
    (start start' : Position) (before before' : List Tree)
    (hbefore : ∀ role, before'.all (·.role != some role) = before.all (·.role != some role))
    (hup : Alike ⟨.node r k (before.reverse ++ ts), top, up⟩
      ⟨.node r k (before'.reverse ++ ts'), top', up'⟩) :
    contents span (Tree.preorderAmong r k top' up' start' before' ts') =
      contents span (Tree.preorderAmong r k top up start before ts) := by
  induction h generalizing start start' before before' with
  | nil => rfl
  | @comment k' token ts ts' isComment rest hrest =>
    rw [Tree.preorderAmong, contents_append, contents_comment _ _ _ isComment, List.nil_append]
    refine hrest ih _ _ _ _ (fun role => ?_) ?_
    · rw [List.all_cons, ← hbefore role]
      rfl
    · rwa [List.reverse_cons, List.append_assoc]
  | @cons t t' ts ts' head rest hrest =>
    rw [Tree.preorderAmong, Tree.preorderAmong, contents_append, contents_append]
    have hchild : Alike ⟨t, start, ⟨r, k, top, before, ts⟩ :: up⟩
        ⟨t', start', ⟨r, k, top', before', ts'⟩ :: up'⟩ := by
      refine .child head rfl rfl hup fun role => ?_
      simp only [isFirst, head.role, hbefore role]
    congr 1
    · exact ih t List.mem_cons_self _ _ rfl hchild
    · refine hrest (fun u hu => ih u (List.mem_cons_of_mem t hu)) _ _ _ _ (fun role => ?_) ?_
      · rw [List.all_cons, List.all_cons, head.role, hbefore role]
      · rwa [List.reverse_cons, List.append_assoc, List.reverse_cons, List.append_assoc]

theorem contents_preorder (span : Span) {c c' : Cursor} (h : Alike c c') :
    contents span (c'.focus.preorder c'.start c'.path) =
      contents span (c.focus.preorder c.start c.path) := by
  obtain ⟨t, start, path⟩ := c
  induction t using Tree.induction generalizing start path c' with
  | leaf r k token =>
    obtain ⟨t', start', path'⟩ := c'
    cases h.focus.commented with
    | leaf _ _ text missing =>
      simp only [Tree.preorder, contents_cons, h.focus.isFault, h.construct?]
  | node r k cs ih =>
    obtain ⟨t', start', path'⟩ := c'
    cases h.focus.commented with
    | @node _ _ _ cs' children text =>
      simp only [Tree.preorder, contents_cons, h.focus.isFault, h.construct?]
      congr 1
      refine contents_preorderAmong h.focus.children (fun t ht c c' hc hcc => ?_) _ _ _ _
        (fun _ => rfl) h
      obtain ⟨_, start, path⟩ := c
      obtain rfl := hc
      exact ih _ ht start path hcc

end Cursor

/-! ### Outlines -/

/-- **Comments make no difference to the constructs of a tree**, in which order they come, what
they are, how they are named and what is counted at them, wherever the comments are put in. Names
have to be lexemes for that, which they are in every tree that is read from a text. -/
theorem Outline.ofTree_ignores_comments :
    (∀ t t' : Tree, t.isNamedByLexemes = true → t.Commented t' → ∀ span,
      (ofTree t').constructs.map (·.placedAt span) =
        (ofTree t).constructs.map (·.placedAt span)) ∧
    ∀ dialect text, (Grammar.parse dialect text).isNamedByLexemes = true := by
  refine ⟨fun t t' hnamed hcommented span => ?_, Grammar.isNamedByLexemes_parse⟩
  have halike : Cursor.Alike (.ofTree t) (.ofTree t') := .root ⟨hcommented, hnamed⟩ rfl rfl
  rw [constructs_ofTree, constructs_ofTree]
  exact Cursor.contents_preorder span halike

/-- Comments in the parentheses around a callee and among the arguments. -/
theorem Outline.ofTree_ignores_comments_of_call :
    let token (s : String) : Tree := .leaf none .token ⟨"", s, false⟩
    let comment : Tree := .leaf none .comment ⟨" ", "/*c*/", false⟩
    let f : Tree := .leaf none .identifier ⟨"", "f", false⟩
    let one : Tree := .leaf none .number ⟨"", "1", false⟩
    let call (callee arguments : List Tree) : Tree := .node none .callExpression
      [.node (some .function) .parenthesizedExpression callee,
        .node (some .arguments) .arguments arguments]
    let t := call [token "(", f, token ")"] [token "(", one, token ")"]
    let t' := call [token "(", comment, f, token ")"] [token "(", one, comment, token ")"]
    t.isNamedByLexemes = true ∧ t.Commented t' ∧
      (ofTree t').constructs.map (·.placedAt ⟨0, 0, 1, 1⟩) =
        [.call (.identifier "f") 1 ⟨0, 0, 1, 1⟩] := by
  intro token comment f one call t t'
  have hnamed : t.isNamedByLexemes = true := rfl
  have hleaf : ∀ k s, Tree.Commented (.leaf none k ⟨"", s, false⟩) (.leaf none k ⟨"", s, false⟩) :=
    fun k s => .leaf none k rfl rfl
  have hcallee : Tree.Interspersed Tree.Commented [token "(", f, token ")"]
      [token "(", comment, f, token ")"] :=
    .cons (hleaf _ _) (.comment _ _ rfl (.cons (hleaf _ _) (.cons (hleaf _ _) .nil)))
  have harguments : Tree.Interspersed Tree.Commented [token "(", one, token ")"]
      [token "(", one, comment, token ")"] :=
    .cons (hleaf _ _) (.cons (hleaf _ _) (.comment _ _ rfl (.cons (hleaf _ _) .nil)))
  have hcommented : t.Commented t' :=
    .node none .callExpression (.cons (.node _ _ hcallee nofun)
      (.cons (.node _ _ harguments nofun) .nil)) nofun
  refine ⟨hnamed, hcommented, ?_⟩
  rw [ofTree_ignores_comments.1 t t' hnamed hcommented]
  decide +kernel

end ArityCheck
