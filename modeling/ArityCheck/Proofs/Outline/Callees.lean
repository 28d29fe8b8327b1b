import ArityCheck.Proofs.Limit.Options
import ArityCheck.Proofs.Outline.Commented
import ArityCheck.Proofs.Outline.Document
import ArityCheck.Proofs.Outline.Wrappers

/-! Callees in parentheses.

`Tree.Encloses` takes all parentheses off: in each pair it goes on with the first child that is
neither a token nor a comment. What is left decides alone which callee it is, an identifier or a
member by its name and all else without one (`callee_eq_identifier_iff`, `callee_eq_member_iff`,
`callee_eq_other_iff`). `Tree.Parenthesized` puts parentheses on, and one pair more makes no
difference to the callee (`callee_parens`), so any number of them does not.

For a call that means the same name, and with it the same limit. A call without a name is held to
the global limit and to no other (`Rule.finding?_call_other`). -/
namespace ArityCheck

namespace Tree

/-! ### Taking parentheses off -/

/-- The second tree is what is left of the first without the parentheses around it. -/
inductive Encloses : Tree → Tree → Prop
  | bare {e : Tree} (kind : e.kind ≠ .parenthesizedExpression) : Encloses e e
  | parens {t u e : Tree} (kind : t.kind = .parenthesizedExpression)
      (first : t.items.head? = some u) (rest : Encloses u e) : Encloses t e

variable {t u e : Tree} {name : String}

theorem calleeAmong_eq (cs : List Tree) :
    calleeAmong cs =
      ((cs.filter fun c => c.isNamed && !c.isComment).head?.map callee).getD .other := by
  induction cs with
  | nil => rfl
  | cons c cs ih =>
    rw [calleeAmong, List.filter_cons]
    split
    · rfl
    · exact ih

theorem callee_of_parens (h : t.kind = .parenthesizedExpression) :
    t.callee = (t.items.head?.map callee).getD .other := by
  cases t with
  | leaf r k token =>
    obtain rfl : k = .parenthesizedExpression := h
    rfl
  | node r k cs =>
    obtain rfl : k = .parenthesizedExpression := h
    exact calleeAmong_eq cs

theorem callee_of_bare (h : e.kind ≠ .parenthesizedExpression) :
    e.callee =
      if e.kind = .identifier then .identifier e.text
      else if e.kind = .memberExpression then (e.memberName?.map .member).getD .other
      else .other := by
  cases e with
  | leaf r k token =>
    have hmember : (Tree.leaf r k token).memberName? = none := rfl
    rw [callee, hmember, Option.map_none, Option.getD_none, ite_self]
    rfl
  | node r k cs =>
    unfold callee
    split
    · rfl
    · cases (Tree.node r .memberExpression cs).memberName? <;> rfl
    · exact absurd rfl h
    · simp_all [kind]

theorem Encloses.kind_ne (h : t.Encloses e) : e.kind ≠ .parenthesizedExpression := by
  induction h with
  | bare kind => exact kind
  | parens kind first rest ih => exact ih

theorem Encloses.callee (h : t.Encloses e) : t.callee = e.callee := by
  induction h with
  | bare kind => rfl
  | parens kind first rest ih => rw [callee_of_parens kind, first, Option.map_some, ih]; rfl

/-- Parentheses with nothing in them are no callee that has a name. -/
theorem encloses_or_callee_eq_other (t : Tree) : (∃ e, t.Encloses e) ∨ t.callee = .other := by
  induction t using Tree.induction with
  | leaf r k token =>
    by_cases hk : k = .parenthesizedExpression
    · exact .inr (callee_of_parens hk)
    · exact .inl ⟨_, .bare hk⟩
  | node r k cs ih =>
    by_cases hk : k = .parenthesizedExpression
    · have hcallee := callee_of_parens (t := .node r k cs) hk
      cases hfirst : (Tree.node r k cs).items.head? with
      | none => exact .inr (by rw [hcallee, hfirst]; rfl)
      | some u =>
        have hu : u ∈ cs := (List.mem_filter.mp (List.mem_of_head? hfirst)).1
        rcases ih u hu with ⟨e, he⟩ | hother
        · exact .inl ⟨e, .parens hk hfirst he⟩
        · exact .inr (by rw [hcallee, hfirst, Option.map_some, hother]; rfl)
    · exact .inl ⟨_, .bare hk⟩

/-- A callee that has a name has that of what is left. -/
theorem callee_eq_iff {x : Callee} (hx : x ≠ .other) :
    t.callee = x ↔ ∃ e, t.Encloses e ∧ e.callee = x := by
  constructor
  · intro h
    rcases encloses_or_callee_eq_other t with ⟨e, he⟩ | hother
    · exact ⟨e, he, he.callee ▸ h⟩
    · exact absurd (h.symm.trans hother) hx
  · rintro ⟨e, he, rfl⟩
    exact he.callee

theorem callee_eq_identifier_iff : t.callee = .identifier name ↔
    ∃ e, t.Encloses e ∧ e.kind = .identifier ∧ e.text = name := by
  rw [callee_eq_iff (by simp)]
  refine exists_congr fun e => and_congr_right fun he => ?_
  rw [callee_of_bare he.kind_ne]
  split
  case isTrue hk => simp [hk]
  case isFalse hk =>
    split
    · cases e.memberName? <;> simp [hk]
    · simp [hk]

theorem callee_eq_member_iff : t.callee = .member name ↔
    ∃ e, t.Encloses e ∧ e.kind = .memberExpression ∧ e.memberName? = some name := by
  rw [callee_eq_iff (by simp)]
  refine exists_congr fun e => and_congr_right fun he => ?_
  rw [callee_of_bare he.kind_ne]
  split
  case isTrue hk => simp [hk]
  case isFalse hk =>
    split
    case isTrue hmember => cases e.memberName? <;> simp [hmember]
    case isFalse hmember => simp [hmember]

/-- All else has no name. -/
theorem callee_eq_other_iff : t.callee = .other ↔ ∀ e, t.Encloses e →
    e.kind ≠ .identifier ∧ (e.kind = .memberExpression → e.child? .property = none) := by
  constructor
  · intro h e he
    refine ⟨fun hk => ?_, fun hk => ?_⟩
    · have hname := callee_eq_identifier_iff.mpr ⟨e, he, hk, rfl⟩
      rw [h] at hname
      cases hname
    · cases hproperty : e.child? .property with
      | none => rfl
      | some p =>
        have hname := callee_eq_member_iff.mpr ⟨e, he, hk, by rw [memberName?, hproperty]; rfl⟩
        rw [h] at hname
        cases hname
  · intro h
    cases hcallee : t.callee with
    | identifier name =>
      obtain ⟨e, he, hk, -⟩ := callee_eq_identifier_iff.mp hcallee
      exact absurd hk (h e he).1
    | member name =>
      obtain ⟨e, he, hk, hname⟩ := callee_eq_member_iff.mp hcallee
      rw [memberName?, (h e he).2 hk] at hname
      cases hname
    | other => rfl

/-! ### Putting parentheses on -/

/-- The second tree is the first in any number of parentheses, each with comments on either side of
what it is put around. -/
inductive Parenthesized : Tree → Tree → Prop
  | refl (t : Tree) : Parenthesized t t
  | parens {t u : Tree} (r inner : Option Role) (before after : List Tree)
      (beside : ∀ c ∈ before ++ after, c.kind = .token ∨ c.isComment = true)
      (h : Parenthesized t u) :
      Parenthesized t (.node r .parenthesizedExpression (before ++ u.inRole inner :: after))

/-- The second tree is the first with its callee in parentheses. -/
inductive CalleeParenthesized : Tree → Tree → Prop
  | mk {f g : Tree} (r : Option Role) (k : Kind) (before after : List Tree)
      (first : ∀ c ∈ before, c.role ≠ some .function) (role : f.role = some .function)
      (role' : g.role = some .function) (h : Parenthesized f g) :
      CalleeParenthesized (.node r k (before ++ f :: after)) (.node r k (before ++ g :: after))

@[simp] theorem text_inRole (r : Option Role) (t : Tree) : (t.inRole r).text = t.text := by
  rcases t with ⟨_, _, _⟩ | ⟨_, _, _ | _⟩ <;> rfl

@[simp] theorem items_inRole (r : Option Role) (t : Tree) : (t.inRole r).items = t.items := by
  rw [items, children_inRole, items]

@[simp] theorem memberName?_inRole (r : Option Role) (t : Tree) :
    (t.inRole r).memberName? = t.memberName? := by
  rw [memberName?, child?, children_inRole, memberName?, child?]

/-- What is called does not depend on the role it is in. -/
theorem callee_inRole (r : Option Role) (t : Tree) : (t.inRole r).callee = t.callee := by
  by_cases h : t.kind = .parenthesizedExpression
  · rw [callee_of_parens h, callee_of_parens ((kind_inRole r t).trans h), items_inRole]
  · rw [callee_of_bare h, callee_of_bare ((kind_inRole r t).symm ▸ h), kind_inRole, text_inRole,
      memberName?_inRole]

/-- What stands beside the expression in parentheses is a mark or a comment. -/
theorem beside_iff : (t.kind = .token ∨ t.isComment = true) ↔
    (t.isNamed && !t.isComment) = false := by
  rw [isNamed, Kind.isNamed, Bool.and_eq_false_iff, bne_eq_false_iff_eq, Bool.not_eq_false']

theorem callee_of_beside (h : t.kind = .token ∨ t.isComment = true) : t.callee = .other := by
  rw [isComment, Kind.isComment_iff] at h
  rcases h with h | h | h <;> rw [callee_of_bare (by simp [h]), h] <;> rfl

/-- **One pair of parentheses makes no difference to the callee**, nor do comments in it. -/
theorem callee_parens (r : Option Role) (before after : List Tree) (u : Tree)
    (beside : ∀ c ∈ before ++ after, c.kind = .token ∨ c.isComment = true) :
    (Tree.node r .parenthesizedExpression (before ++ u :: after)).callee = u.callee := by
  have hpassed (cs : List Tree) (hcs : ∀ c ∈ cs, c ∈ before ++ after) :
      cs.filter (fun c => c.isNamed && !c.isComment) = [] := by
    apply List.filter_eq_nil_iff.mpr
    intro c hc
    rw [beside_iff.mp (beside c (hcs c hc))]
    exact Bool.false_ne_true
  rw [callee_of_parens rfl, items, children, List.filter_append, List.filter_cons,
    hpassed before fun c => List.mem_append_left _, hpassed after fun c => List.mem_append_right _]
  -- A tree that is passed over in parentheses is no callee with a name outside of them either.
  split
  case isTrue => rfl
  case isFalse hu => exact (callee_of_beside (beside_iff.mpr (Bool.eq_false_iff.mpr hu))).symm

theorem Parenthesized.callee (h : Parenthesized t u) : u.callee = t.callee := by
  induction h with
  | refl => rfl
  | parens r inner before after beside h ih =>
    rw [callee_parens r before after _ beside, callee_inRole, ih]

theorem Parenthesized.eq_or_kind_eq (h : Parenthesized t u) :
    u = t ∨ u.kind = .parenthesizedExpression := by
  cases h with
  | refl => exact .inl rfl
  | parens => exact .inr rfl

/-! ### Calls -/

theorem child?_first {r : Option Role} {k : Kind} {before after : List Tree} {role : Role}
    (first : ∀ c ∈ before, c.role ≠ some role) (h : t.role = some role) :
    (Tree.node r k (before ++ t :: after)).child? role = some t := by
  rw [child?, children, List.find?_append, List.find?_eq_none.mpr (by simpa using first),
    List.find?_cons_of_pos (by simp [h])]
  rfl

theorem CalleeParenthesized.kind {n : Tree} (h : CalleeParenthesized t n) : n.kind = t.kind := by
  cases h
  rfl

theorem CalleeParenthesized.isFault {n : Tree} (h : CalleeParenthesized t n)
    (hk : t.kind = .callExpression) : n.isFault = false := by
  obtain ⟨r, k, before, after, -⟩ := h
  obtain rfl : k = .callExpression := hk
  rfl

/-- A call keeps its callee and its arguments. -/
theorem CalleeParenthesized.call? {n : Tree} (h : CalleeParenthesized t n) {callee : Callee}
    {count : Nat} (hcall : t.call? = some (callee, count)) : n.call? = some (callee, count) := by
  obtain @⟨f, g, r, k, before, after, first, role, role', hparens⟩ := h
  obtain ⟨f', a, hf, ha, himport, hkind, rfl, rfl⟩ := call?_eq_some_iff.mp hcall
  obtain rfl : f = f' := Option.some.inj ((child?_first first role).symm.trans hf)
  have harguments : (Tree.node r k (before ++ g :: after)).child? .arguments =
      (Tree.node r k (before ++ f :: after)).child? .arguments :=
    child?_append r k before after .arguments (by simp [role]) (by simp [role'])
  refine call?_eq_some_iff.mpr ⟨g, a, child?_first first role', harguments.trans ha, ?_, hkind,
    hparens.callee, rfl⟩
  -- A dynamic import is no call, but what is put around a callee never is one.
  rcases hparens.eq_or_kind_eq with rfl | hg
  · exact himport
  · simp [hg]

end Tree

namespace Rule

/-! ### The limit of a call -/

/-- Where a construct stands makes no difference to what is found at it. -/
theorem finding?_call_moved (r : Rule) (callee : Callee) (count : Nat) (span span' : Span) :
    r.finding? (.call callee count span') = (r.finding? (.call callee count span)).map fun f =>
      { f with subject := { f.subject with span := span' } } := by
  obtain ⟨kind, limits, severity⟩ := r
  cases kind with
  | arguments =>
    simp only [finding?, RuleKind.subject?, Option.bind_eq_bind, Option.bind_some]
    cases (limits.resolve (callee.name?.getD "")).exceededBy count <;> rfl
  | parameters => rfl

/-- A call without a name is held to the global limit alone. -/
theorem finding?_call_other {r : Rule} (hr : r.kind = .arguments) (count : Nat) (span : Span) :
    r.finding? (.call .other count span) = (r.limits.get? "global").bind fun n =>
      if 0 ≤ n ∧ n ≤ 4294967295 ∧ n < count then
        some ⟨.arguments, ⟨"", "", "anonymous function", count, span⟩, n.toNat⟩
      else none := by
  have hselect : r.limits.select? "" = r.limits.get? "global" := rfl
  simp only [finding?, hr, RuleKind.subject?, Callee.name?, Option.getD_none, Option.bind_eq_bind,
    Option.bind_some, Limits.exceededBy_resolve, hselect]
  cases r.limits.get? "global" with
  | none => rfl
  | some n =>
    simp only [Option.bind_some]
    split <;> rfl

end Rule

namespace Cursor

/-- **A call is known by what stands under the parentheses around its callee.** In any number of
parentheses more, with comments in them, it has the same callee and count, and every rule finds the
same there. The callee is an identifier or a member exactly if the expression that is left without
parentheses is one, and then it has that name; for any other expression it has none, and the call is
held to the global limit alone. -/
theorem call_known_under_parentheses (t : Tree) (c : Cursor) (hc : c ∈ (ofTree t).walk)
    (callee : Callee) (count : Nat) (span : Span)
    (hcall : c.construct? = some (.call callee count span)) :
    c.focus.rebuild c.path = t ∧
    (∀ n, c.focus.CalleeParenthesized n →
      ∃ c' ∈ (ofTree (n.rebuild c.path)).walk, c'.address = c.address ∧ c'.focus = n ∧
        c'.construct? = some (.call callee count c'.span) ∧
        .call callee count c'.span ∈ (Outline.ofTree (n.rebuild c.path)).constructs ∧
        ∀ r : Rule, r.finding? (.call callee count c'.span) =
          (r.finding? (.call callee count span)).map fun f =>
            { f with subject := { f.subject with span := c'.span } }) ∧
    ∃ f, c.focus.child? .function = some f ∧
      (∀ name, callee = .identifier name ↔
        ∃ e, f.Encloses e ∧ e.kind = .identifier ∧ e.text = name) ∧
      (∀ name, callee = .member name ↔
        ∃ e, f.Encloses e ∧ e.kind = .memberExpression ∧ e.memberName? = some name) ∧
      (callee = .other ↔ ∀ e, f.Encloses e →
        e.kind ≠ .identifier ∧ (e.kind = .memberExpression → e.child? .property = none)) ∧
      (callee = .other → ∀ r : Rule, r.kind = .arguments →
        r.finding? (.call callee count span) = (r.limits.get? "global").bind fun n =>
          if 0 ≤ n ∧ n ≤ 4294967295 ∧ n < count then
            some ⟨.arguments, ⟨"", "", "anonymous function", count, span⟩, n.toNat⟩
          else none) := by
  obtain ⟨hkind, hcalled, rfl⟩ := construct?_eq_call_iff.mp hcall
  refine ⟨Tree.rebuild_of_mem_walk hc, fun n hn => ?_, ?_⟩
  · have hat := Tree.at?_rebuild n c.path []
    rw [List.append_nil] at hat
    obtain ⟨c', hc', haddress, rfl⟩ := at?_eq_some_iff_mem_walk.mp hat
    have hcall' : c'.construct? = some (.call callee count c'.span) :=
      construct?_eq_call_iff.mpr ⟨hn.kind.trans hkind, hn.call? hcalled, rfl⟩
    exact ⟨c', hc', haddress, rfl, hcall',
      Outline.mem_constructs_ofTree hc' (hn.isFault hkind) hcall',
      fun r => r.finding?_call_moved callee count _ _⟩
  · obtain ⟨f, a, hf, -, -, -, rfl, -⟩ := Tree.call?_eq_some_iff.mp hcalled
    exact ⟨f, hf, fun name => Tree.callee_eq_identifier_iff, fun name => Tree.callee_eq_member_iff,
      Tree.callee_eq_other_iff, fun hother r hr => hother ▸ Rule.finding?_call_other hr count _⟩

/-- In two pairs of parentheses with comments, `f` is held to the limit of `f`. As the last part of a
sequence it is not. -/
theorem call_known_under_parentheses_of_limit :
    let token (s : String) : Tree := .leaf none .token ⟨"", s, false⟩
    let comment : Tree := .leaf none .comment ⟨" ", "/*c*/", false⟩
    let f (r : Option Role) : Tree := .leaf r .identifier ⟨"", "f", false⟩
    let parens (r : Option Role) (ts : List Tree) : Tree := .node r .parenthesizedExpression ts
    let call (callee : Tree) : Tree := .node none .callExpression [callee,
      .node (some .arguments) .arguments [token "(", .leaf none .number ⟨"", "1", false⟩, token ")"]]
    let below (t : Tree) : Cursor := ⟨t, .origin, [⟨none, .program, .origin, [], []⟩]⟩
    let twice := parens (some .function)
      [token "(", comment, parens none [token "(", f none, comment, token ")"], token ")"]
    let last := parens (some .function)
      [token "(", .node none .sequenceExpression [f none, token ",", f none], token ")"]
    let r := ((Rule.ofKind .arguments).withLimit "f" 0).withLimit "global" 1
    (below (call (f (some .function)))).construct? =
      some (.call (.identifier "f") 1 ⟨0, 4, 1, 1⟩) ∧
    (∃ c ∈ (ofTree (.node none .program [call twice])).walk,
      c.construct? = some (.call (.identifier "f") 1 c.span) ∧
      (r.finding? (.call (.identifier "f") 1 c.span)).map (·.max) = some 0) ∧
    (below (call last)).construct? = some (.call .other 1 ⟨0, 8, 1, 1⟩) ∧
      r.finding? (.call .other 1 ⟨0, 8, 1, 1⟩) = none := by
  intro token comment f parens call below twice last r
  have hwalk (t : Tree) : below t ∈ (ofTree (.node none .program [t])).walk := by
    rw [walk_eq_preorder]
    refine .tail _ (List.mem_append_left _ ?_)
    cases t <;> exact .head _
  have hcall : (below (call (f (some .function)))).construct? =
      some (.call (.identifier "f") 1 ⟨0, 4, 1, 1⟩) := by decide
  have hlast : (below (call last)).construct? = some (.call .other 1 ⟨0, 8, 1, 1⟩) := by decide
  have hbeside : ∀ ts : List Tree, ts.all (fun t => t.kind == .token || t.isComment) = true →
      ∀ t ∈ ts, t.kind = .token ∨ t.isComment = true := by simp
  have htwice : (f (some .function)).Parenthesized twice :=
    .parens _ _ [token "(", comment] [token ")"] (hbeside _ rfl)
      (.parens none none [token "("] [comment, token ")"] (hbeside _ rfl) (.refl _))
  obtain ⟨-, hparens, -⟩ := call_known_under_parentheses _ _ (hwalk _) _ _ _ hcall
  obtain ⟨-, -, f', -, -, -, -, hglobal⟩ :=
    call_known_under_parentheses _ _ (hwalk _) _ _ _ hlast
  obtain ⟨c', hc', -, -, hcall', -, hfinding⟩ := hparens (call twice)
    (.mk none .callExpression [] _ (List.forall_mem_nil _) rfl rfl htwice)
  refine ⟨hcall, ⟨c', hc', hcall', ?_⟩, hlast, ?_⟩
  · have hmax : (r.finding? (.call (.identifier "f") 1 ⟨0, 4, 1, 1⟩)).map (·.max) = some 0 := by
      decide +kernel
    rw [hfinding r, Option.map_map]
    exact hmax
  · rw [hglobal rfl r rfl]
    decide +kernel

example : (Outline.ofTree (Grammar.parse .typeScript "((/*c*/ a.f /*d*/))(1)")).constructs =
    [.call (.member "f") 1 ⟨0, 22, 1, 1⟩] := by
  decide +kernel

end Cursor

end ArityCheck
