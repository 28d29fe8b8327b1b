import ArityCheck.Outline.Basic

/-! Trees with comments put in.

`Commented t t'` says that `t'` is `t` with comments put in among the children of any of its
nodes. Whatever an outline reads off a node (the child in a role, a token, a number of items, a
name, a callee) is the same with the comments and without them. The one thing to know about the
tree is that names are lexemes, since a comment inside of a name would become part of it: `Alike`
is both together. -/
namespace ArityCheck

theorem Kind.isComment_iff (k : Kind) :
    k.isComment = true ↔ k = .comment ∨ k = .htmlComment := by
  unfold isComment
  split <;> simp_all

namespace Tree

/-! ### Trees with more comments -/

/-- The second list is the first with comments put in, the other trees being related by `R`. -/
inductive Interspersed (R : Tree → Tree → Prop) : List Tree → List Tree → Prop
  | nil : Interspersed R [] []
  | comment (k : Kind) (token : Token) {ts ts' : List Tree} (isComment : k.isComment = true)
      (rest : Interspersed R ts ts') : Interspersed R ts (.leaf none k token :: ts')
  | cons {t t' : Tree} {ts ts' : List Tree} (head : R t t') (rest : Interspersed R ts ts') :
      Interspersed R (t :: ts) (t' :: ts')

/-- The second tree is the first with comments put in among the children of its nodes. Blanks may
change, but a lexeme keeps its text. -/
inductive Commented : Tree → Tree → Prop
  | leaf (r : Option Role) (k : Kind) {token token' : Token} (text : token'.text = token.text)
      (missing : token'.missing = token.missing) : Commented (.leaf r k token) (.leaf r k token')
  | node (r : Option Role) (k : Kind) {cs cs' : List Tree}
      (children : Interspersed Commented cs cs')
      (text : k.isLexeme = true → (Tree.node r k cs').text = (Tree.node r k cs).text) :
      Commented (.node r k cs) (.node r k cs')

section Related

variable {R : Tree → Tree → Prop} {x x' : Option Tree} {β : Type}

theorem cases_of_rel (h : Option.Rel R x x') :
    x = none ∧ x' = none ∨ ∃ t t', x = some t ∧ x' = some t' ∧ R t t' := by
  cases h with
  | none => exact .inl ⟨rfl, rfl⟩
  | some hrel => exact .inr ⟨_, _, rfl, rfl, hrel⟩

theorem rel_or {y y' : Option Tree} (h : Option.Rel R x x') (hy : Option.Rel R y y') :
    Option.Rel R (x.or y) (x'.or y') := by
  cases h with
  | none => exact hy
  | some hrel => exact .some hrel

/-- Two trees or none that are related give the same, if that is so for related trees. -/
theorem bind_eq_of_rel (h : Option.Rel R x x') {f : Tree → Option β}
    (hf : ∀ t t', x = some t → R t t' → f t' = f t) : x'.bind f = x.bind f := by
  obtain ⟨rfl, rfl⟩ | ⟨t, t', rfl, rfl, hrel⟩ := cases_of_rel h
  · rfl
  · exact hf t t' rfl hrel

theorem map_eq_of_rel (h : Option.Rel R x x') {f : Tree → β}
    (hf : ∀ t t', x = some t → R t t' → f t' = f t) : x'.map f = x.map f := by
  rw [Option.map_eq_bind, Option.map_eq_bind]
  exact bind_eq_of_rel h fun t t' hx hrel => congrArg some (hf t t' hx hrel)

theorem isSome_eq_of_rel (h : Option.Rel R x x') : x'.isSome = x.isSome := by
  cases h <;> rfl

end Related

namespace Interspersed

variable {R S : Tree → Tree → Prop} {ts ts' : List Tree}

theorem imp_of_mem (h : Interspersed R ts ts') (hRS : ∀ t ∈ ts, ∀ t', R t t' → S t t') :
    Interspersed S ts ts' := by
  induction h with
  | nil => exact .nil
  | comment k token isComment rest ih => exact .comment k token isComment (ih hRS)
  | cons head rest ih =>
    exact .cons (hRS _ List.mem_cons_self _ head)
      (ih fun t ht => hRS t (List.mem_cons_of_mem _ ht))

section Search

variable {p : Tree → Bool} (h : Interspersed R ts ts') (hp : ∀ t t', R t t' → p t' = p t)
  (hcomment : ∀ k token, k.isComment = true → p (.leaf none k token) = false)

include h hp hcomment

/-- A search that passes over comments finds related trees. -/
theorem find? : Option.Rel R (ts.find? p) (ts'.find? p) := by
  induction h with
  | nil => exact .none
  | comment k token isComment rest ih =>
    rw [List.find?_cons, hcomment k token isComment]
    exact ih
  | @cons t t' ts ts' head rest ih =>
    rw [List.find?_cons, List.find?_cons, hp t t' head]
    cases p t with
    | true => exact .some head
    | false => exact ih

theorem any : ts'.any p = ts.any p := by
  rw [← List.isSome_find?, ← List.isSome_find?]
  exact isSome_eq_of_rel (h.find? hp hcomment)

theorem length_filter : (ts'.filter p).length = (ts.filter p).length := by
  induction h with
  | nil => rfl
  | comment k token isComment rest ih =>
    rw [List.filter_cons_of_neg (by simp [hcomment k token isComment]), ih]
  | cons head rest ih =>
    rw [List.filter_cons, List.filter_cons, hp _ _ head]
    split <;> simp [ih]

end Search

end Interspersed

/-- A tree with comments put in, of which the names are lexemes. -/
structure Alike (t t' : Tree) : Prop where
  commented : Commented t t'
  named : t.isNamedByLexemes = true

namespace Alike

variable {t t' : Tree}

theorem role (h : Alike t t') : t'.role = t.role := by
  cases h.commented <;> rfl

theorem kind (h : Alike t t') : t'.kind = t.kind := by
  cases h.commented <;> rfl

theorem isFault (h : Alike t t') : t'.isFault = t.isFault := by
  have hmissing : t'.isMissing = t.isMissing := by
    cases h.commented with
    | leaf r k text missing => exact missing
    | node r k children text => rfl
  rw [Tree.isFault, Tree.isFault, h.kind, hmissing]

theorem text (h : Alike t t') (hlexeme : t.kind.isLexeme = true) : t'.text = t.text := by
  cases h.commented with
  | leaf r k text missing => exact text
  | node r k children text => exact text hlexeme

theorem children (h : Alike t t') : Interspersed Alike t.children t'.children := by
  obtain ⟨hcommented, hnamed⟩ := h
  cases hcommented with
  | leaf r k text missing => exact .nil
  | node r k children text =>
    rw [isNamedByLexemes, areNamedByLexemes_iff] at hnamed
    exact children.imp_of_mem fun c hc c' hcc => ⟨hcc, (hnamed c hc).2⟩

/-! What the outline reads off one node. -/

theorem child? (h : Alike t t') (r : Role) : Option.Rel Alike (t.child? r) (t'.child? r) :=
  h.children.find? (fun c c' hc => by rw [hc.role]) fun k token hk => rfl

theorem hasToken (h : Alike t t') (s : String) : t'.hasToken s = t.hasToken s := by
  refine h.children.any (fun c c' hc => ?_) fun k token hk => ?_
  · rw [hc.kind]
    by_cases hkind : c.kind = .token
    · rw [hc.text (by rw [hkind]; rfl)]
    · rw [beq_false_of_ne hkind]
      rfl
  · obtain rfl | rfl := k.isComment_iff.mp hk <;> rfl

theorem length_items (h : Alike t t') : t'.items.length = t.items.length := by
  refine h.children.length_filter (fun c c' hc => ?_) fun k token hk => ?_
  · rw [isNamed, isNamed, isComment, isComment, hc.kind]
  · simp [isComment, Tree.kind, hk]

/-- The text that a node is named by stays. -/
theorem text_child? (h : Alike t t') {r : Role} (hr : t.kind.namedBy = some r) :
    (t'.child? r).map Tree.text = (t.child? r).map Tree.text := by
  refine map_eq_of_rel (h.child? r) fun c c' hc hcc => hcc.text ?_
  obtain ⟨hmem, hrole⟩ := And.intro (List.mem_of_find?_eq_some hc) (List.find?_some hc)
  cases t with
  | leaf r' k token => nomatch hmem
  | node r' k cs =>
    have hnamed := h.named
    rw [isNamedByLexemes, areNamedByLexemes_iff] at hnamed
    exact (hnamed c hmem).1 r (by simpa using hrole) hr

/-- A key that is computed from a literal is found between the comments. -/
theorem propertyName? (h : Alike t t') : t'.propertyName? = t.propertyName? := by
  have hcomputed := h.children.find? (p := fun c => c.kind == .string || c.kind == .number)
    (fun c c' hc => by rw [hc.kind]) fun k token hk => by
      obtain rfl | rfl := k.isComment_iff.mp hk <;> rfl
  unfold Tree.propertyName?
  rw [h.kind]
  split
  case h_8 =>
    obtain ⟨hc, hc'⟩ | ⟨c, c', hc, hc', hcc⟩ := cases_of_rel hcomputed
    · rw [hc, hc']
    · have hlexeme : c.kind.isLexeme = true := by
        have hkind := List.find?_some hc
        rw [Bool.or_eq_true, beq_iff_eq, beq_iff_eq] at hkind
        rcases hkind with hkind | hkind <;> rw [hkind] <;> rfl
      rw [hc, hc']
      simp only [hcc.kind, hcc.text hlexeme]
  case h_9 => rfl
  all_goals
    next hkind => rw [h.text (by rw [hkind]; rfl)]

theorem declaredName? (h : Alike t t') (hk : t.kind.namedBy = some .name) :
    t'.declaredName? = t.declaredName? := h.text_child? hk

theorem propertyName?_child? (h : Alike t t') (r : Role) :
    (t'.child? r).bind Tree.propertyName? = (t.child? r).bind Tree.propertyName? :=
  bind_eq_of_rel (h.child? r) fun _ _ _ hc => hc.propertyName?

theorem keyName? (h : Alike t t') : t'.keyName? = t.keyName? := h.propertyName?_child? .name

/-- A child that is an identifier, with its text. -/
theorem identifier_child? (h : Alike t t') (r : Role) :
    ((t'.child? r).filter (·.kind == .identifier)).map (Binding.variable ·.text) =
      ((t.child? r).filter (·.kind == .identifier)).map (Binding.variable ·.text) := by
  obtain ⟨hc, hc'⟩ | ⟨c, c', hc, hc', hcc⟩ := cases_of_rel (h.child? r)
  · rw [hc, hc']
  · rw [hc, hc', Option.filter_some, Option.filter_some, hcc.kind]
    by_cases hkind : c.kind = .identifier
    · rw [hkind]
      simp [hcc.text (by rw [hkind]; rfl)]
    · simp [hkind]

theorem memberName? (h : Alike t t') (hk : t.kind = .memberExpression) :
    t'.memberName? = t.memberName? := by
  have htext := h.text_child? (r := .property) (by rw [hk]; rfl)
  have hname := congrArg (Option.map fun s => String.ofList (s.toList.dropWhile (· == '#'))) htext
  rwa [Option.map_map, Option.map_map] at hname

theorem modifiers (h : Alike t t') : t'.modifiers = t.modifiers := by
  rw [Tree.modifiers, Tree.modifiers, h.hasToken, h.hasToken, h.kind]

theorem paramCount (h : Alike t t') : t'.paramCount = t.paramCount := by
  have hlist := h.children.find? (p := fun c => c.kind == .formalParameters)
    (fun c c' hc => by rw [hc.kind]) fun k token hk => by
      obtain rfl | rfl := k.isComment_iff.mp hk <;> rfl
  rw [Tree.paramCount, Tree.paramCount, isSome_eq_of_rel (h.child? .parameter)]
  split
  · rfl
  · obtain ⟨hc, hc'⟩ | ⟨c, c', hc, hc', hcc⟩ := cases_of_rel (rel_or (h.child? .parameters) hlist)
    · rw [hc, hc']
    · rw [hc, hc']
      exact hcc.length_items

/-- The first item of a list is found between the comments. -/
theorem calleeAmong {cs cs' : List Tree} (h : Interspersed Alike cs cs')
    (ih : ∀ c ∈ cs, ∀ c', Alike c c' → c'.callee = c.callee) :
    Tree.calleeAmong cs' = Tree.calleeAmong cs := by
  induction h with
  | nil => rfl
  | comment k token isComment rest hrest =>
    rw [Tree.calleeAmong, if_neg (by simp [Tree.isComment, Tree.kind, isComment]), hrest ih]
  | cons head rest hrest =>
    rw [Tree.calleeAmong, Tree.calleeAmong, Tree.isNamed, Tree.isComment, Tree.isNamed,
      Tree.isComment, head.kind, ih _ List.mem_cons_self _ head,
      hrest fun c hc => ih c (List.mem_cons_of_mem _ hc)]

theorem callee (h : Alike t t') : t'.callee = t.callee := by
  induction t using Tree.induction generalizing t' with
  | leaf r k token =>
    cases h.commented with
    | leaf _ _ text missing => rw [Tree.callee, Tree.callee, text]
  | node r k cs ih =>
    have hchildren := h.children
    cases h.commented with
    | @node _ _ _ cs' children text =>
      unfold Tree.callee
      split
      · rw [text rfl]
      · rw [h.memberName? rfl]
      · exact calleeAmong hchildren ih
      · rfl

theorem call? (h : Alike t t') : t'.call? = t.call? := by
  rw [Tree.call?, Tree.call?]
  obtain ⟨hf, hf'⟩ | ⟨f, f', hf, hf', hff⟩ := cases_of_rel (h.child? .function)
  · rw [hf, hf']
  · obtain ⟨ha, ha'⟩ | ⟨a, a', ha, ha', haa⟩ := cases_of_rel (h.child? .arguments)
    · rw [hf, hf', ha, ha']
    · rw [hf, hf', ha, ha']
      simp only [hff.kind, haa.kind, hff.callee, haa.length_items]

end Alike

end Tree

end ArityCheck
