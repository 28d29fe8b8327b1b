import ArityCheck.Analysis.Source
import ArityCheck.Proofs.Tree.Preorder

/-! The outline of a tree, in document order.

`Outline.ofTree` takes what it lists from the walk of a cursor. Here that walk is replaced by the
recursive pre-order: the constructs are those of the nodes that are no faults, also of the ones
below a fault, and the faults are the spans of the others. Two inversions say which nodes are calls
and which are functions. A text is refused as malformed exactly if its tree holds a fault
somewhere. -/
namespace ArityCheck

/-! ### What is read off a node -/

theorem Tree.call?_eq_some_iff {t : Tree} {callee : Callee} {count : Nat} :
    t.call? = some (callee, count) ↔ ∃ f a, t.child? .function = some f ∧
      t.child? .arguments = some a ∧ f.kind ≠ .importCallee ∧ a.kind = .arguments ∧
      f.callee = callee ∧ a.items.length = count := by
  rw [call?]
  cases t.child? .function with
  | none => simp
  | some f =>
    cases t.child? .arguments with
    | none => simp
    | some a =>
      by_cases hf : f.kind = .importCallee
      · simp [hf]
      · by_cases ha : a.kind = .arguments <;> simp [hf, ha]

namespace Cursor

variable {c : Cursor} {count : Nat} {span : Span}

theorem construct?_eq_call_iff {callee : Callee} :
    c.construct? = some (.call callee count span) ↔
      c.focus.kind = .callExpression ∧ c.focus.call? = some (callee, count) ∧ c.span = span := by
  rw [construct?]
  split
  case isTrue hk =>
    rw [Option.map_eq_some_iff]
    constructor
    · rintro ⟨⟨callee', count'⟩, hcall, heq⟩
      cases heq
      exact ⟨eq_of_beq hk, hcall, rfl⟩
    · rintro ⟨-, hcall, rfl⟩
      exact ⟨_, hcall, rfl⟩
  case isFalse hk =>
    rw [Option.map_eq_some_iff]
    constructor
    · rintro ⟨shape, -, heq⟩
      cases heq
    · rintro ⟨hcall, -⟩
      exact absurd (beq_of_eq hcall) hk

theorem construct?_eq_function_iff {shape : Shape} {binding : Option Binding} :
    c.construct? = some (.function shape count binding span) ↔
      c.focus.kind ≠ .callExpression ∧ c.shape? = some shape ∧ c.focus.paramCount = count ∧
        c.binding? = binding ∧ c.span = span := by
  rw [construct?]
  split
  case isTrue hk =>
    rw [Option.map_eq_some_iff]
    constructor
    · rintro ⟨_, -, heq⟩
      cases heq
    · rintro ⟨hcall, -⟩
      exact absurd (eq_of_beq hk) hcall
  case isFalse hk =>
    rw [Option.map_eq_some_iff]
    constructor
    · rintro ⟨shape', hshape, heq⟩
      cases heq
      exact ⟨fun hcall => hk (beq_of_eq hcall), hshape, rfl, rfl, rfl⟩
    · rintro ⟨-, hshape, rfl, rfl, rfl⟩
      exact ⟨_, hshape, rfl⟩

end Cursor

namespace Outline

theorem constructs_ofTree (t : Tree) : (ofTree t).constructs =
    ((t.preorder .origin []).filter (!·.focus.isFault)).filterMap Cursor.construct? := by
  rw [← Cursor.walk_eq_preorder]
  rfl

theorem faults_ofTree (t : Tree) : (ofTree t).faults =
    ((t.preorder .origin []).filter (·.focus.isFault)).map Cursor.span := by
  rw [← Cursor.walk_eq_preorder]
  rfl

/-- What is above a node does not keep its construct out of the outline. -/
theorem mem_constructs_ofTree {t : Tree} {c : Cursor} {x : Construct}
    (hc : c ∈ (Cursor.ofTree t).walk) (hf : c.focus.isFault = false) (hx : c.construct? = some x) :
    x ∈ (ofTree t).constructs := by
  apply List.mem_filterMap.mpr
  refine ⟨c, List.mem_filter.mpr ⟨hc, ?_⟩, hx⟩
  rw [hf]
  rfl

/-- The constructs of two nodes are listed in the order in which the nodes are passed. -/
theorem pair_sublist_constructs {t : Tree} {c d : Cursor} {x y : Construct}
    (hc : c ∈ (Cursor.ofTree t).walk) (hd : d ∈ (Cursor.ofTree t).walk)
    (h : c.address < d.address) (hcf : c.focus.isFault = false) (hdf : d.focus.isFault = false)
    (hx : c.construct? = some x) (hy : d.construct? = some y) :
    [x, y].Sublist (ofTree t).constructs := by
  have hpair := ((Cursor.pair_sublist_walk hc hd h).filter (!·.focus.isFault)).filterMap
    Cursor.construct?
  have hkept : ([c, d].filter (!·.focus.isFault)).filterMap Cursor.construct? = [x, y] := by
    simp [hcf, hdf, hx, hy]
  rw [hkept] at hpair
  exact hpair

theorem faults_ofTree_eq_nil_iff (t : Tree) :
    (ofTree t).faults = [] ↔ ∀ a n, t.at? a = some n → n.isFault = false := by
  rw [faults_ofTree, List.map_eq_nil_iff, List.filter_eq_nil_iff, ← Cursor.walk_eq_preorder]
  constructor
  · intro h a n hn
    obtain ⟨c, hc, -, rfl⟩ := Cursor.at?_eq_some_iff_mem_walk.mp hn
    exact Bool.eq_false_iff.mpr (h c hc)
  · intro h c hc
    have := h c.address c.focus (Cursor.at?_eq_some_iff_mem_walk.mpr ⟨c, hc, rfl, rfl⟩)
    exact Bool.eq_false_iff.mp this

end Outline

namespace Analyzer

theorem outcome_of_faults_eq_nil (a : Analyzer) {o : Outline} (h : o.faults = []) :
    a.outcome o = .checked (a.rules.map fun r => (r, a.runRule o.constructs r)) := by
  rw [outcome, h]

theorem violations_malformed_iff (a : Analyzer) (path : Path) (o : Outline) :
    (∃ m, a.violations path (a.outcome o) = .error (.malformed path m)) ↔ o.faults ≠ [] := by
  cases h : o.faults with
  | nil => simp [outcome_of_faults_eq_nil a h, violations]
  | cons first rest => simp [outcome, h, violations]

theorem inspect_of_dialect (a : Analyzer) {path : Path} {dialect : Dialect}
    (h : Dialect.ofPath path = .ok dialect) (text : String) :
    a.inspect path text = a.outcome (Outline.ofTree (Grammar.parse dialect text)) := by
  unfold inspect
  simp only [h]

theorem inspect_of_unsupported (a : Analyzer) {path : Path} {ext : String}
    (h : Dialect.ofPath path = .error ext) (text : String) :
    a.inspect path text = .unsupported ext := by
  unfold inspect
  simp only [h]

/-- The tree is refused as malformed exactly if a fault stands at some address. -/
theorem violations_ofTree_malformed_iff (a : Analyzer) (path : Path) (t : Tree) :
    (∃ m, a.violations path (a.outcome (Outline.ofTree t)) = .error (.malformed path m)) ↔
      ∃ address n, t.at? address = some n ∧ n.isFault = true := by
  rw [violations_malformed_iff, Ne, Outline.faults_ofTree_eq_nil_iff]
  simp

theorem analyzeSource_malformed_iff (a : Analyzer) {path : Path} {dialect : Dialect}
    (h : Dialect.ofPath path = .ok dialect) (text : String) :
    (∃ m, a.analyzeSource path text = .error (.malformed path m)) ↔
      ∃ address n, (Grammar.parse dialect text).at? address = some n ∧ n.isFault = true := by
  rw [← violations_ofTree_malformed_iff a path, analyzeSource, inspect_of_dialect a h]

end Analyzer

/-- **The loop goes through every tree in recursive pre-order.** After `n` steps the cursor is at
the `n`-th node of the list by recursion, and it stops once it has passed them all. Each address
is passed once and in ascending order. The outline lists the constructs of the nodes that are no
faults, whatever lies above them, and the spans of those that are; and an analysis refuses the
tree exactly if it holds a fault. -/
theorem Outline.ofTree_in_preorder (t : Tree) :
    (∀ n, (Cursor.ofTree t).after n = (t.preorder .origin [])[n]?) ∧
    (∀ n, (Cursor.ofTree t).after n = none ↔ t.size ≤ n) ∧
    (Cursor.ofTree t).walk = t.preorder .origin [] ∧
    (∀ address n, t.at? address = some n ↔
      ∃ c ∈ (Cursor.ofTree t).walk, c.address = address ∧ c.focus = n) ∧
    ((Cursor.ofTree t).walk.map Cursor.address).Pairwise (· < ·) ∧
    (ofTree t).constructs =
      ((t.preorder .origin []).filter (!·.focus.isFault)).filterMap Cursor.construct? ∧
    (ofTree t).faults = ((t.preorder .origin []).filter (·.focus.isFault)).map Cursor.span ∧
    (∀ c ∈ (Cursor.ofTree t).walk, c.focus.isFault = false → ∀ x, c.construct? = some x →
      x ∈ (ofTree t).constructs) ∧
    (∀ (a : Analyzer) path,
      (∃ m, a.violations path (a.outcome (ofTree t)) = .error (.malformed path m)) ↔
        ∃ address n, t.at? address = some n ∧ n.isFault = true) ∧
    (∀ (a : Analyzer) path dialect text, Dialect.ofPath path = .ok dialect →
      Grammar.parse dialect text = t →
      ((∃ m, a.analyzeSource path text = .error (.malformed path m)) ↔
        ∃ address n, t.at? address = some n ∧ n.isFault = true)) := by
  refine ⟨fun n => Cursor.after_eq_getElem? n t, fun n => Cursor.after_eq_none_iff n t,
    Cursor.walk_eq_preorder t, fun address n => Cursor.at?_eq_some_iff_mem_walk,
    Cursor.address_walk_sorted t, constructs_ofTree t, faults_ofTree t,
    fun c hc hf x hx => mem_constructs_ofTree hc hf hx,
    fun a path => a.violations_ofTree_malformed_iff path t, ?_⟩
  rintro a path dialect text hd rfl
  exact a.analyzeSource_malformed_iff hd text

/-- A call below a fault is listed, and a text with a fault is refused. -/
theorem Outline.ofTree_in_preorder_of_fault :
    let call : Tree := .node none .callExpression
      [.leaf (some .function) .identifier ⟨"", "f", false⟩, .node (some .arguments) .arguments
        [.leaf none .token ⟨"", "(", false⟩, .leaf none .token ⟨"", ")", false⟩]]
    let a : Analyzer := ⟨⟨"/p"⟩, [], [], {}, false⟩
    (ofTree (.node none .program [.node none .error [call]])).constructs =
      [.call (.identifier "f") 0 ⟨0, 3, 1, 1⟩] ∧
    ∃ m, a.analyzeSource ⟨"/p/a.js"⟩ "f(" = .error (.malformed ⟨"/p/a.js"⟩ m) := by
  intro call a
  constructor
  · have h := (ofTree_in_preorder (.node none .program [.node none .error [call]])).2.2.2.2.2.1
    exact h.trans (by decide)
  · have hfault : ((Grammar.parse .javaScript "f(").at? [0]).any Tree.isFault = true := by
      decide +kernel
    obtain ⟨n, hn, hfault⟩ := (Option.any_eq_true _ _).mp hfault
    exact ((ofTree_in_preorder _).2.2.2.2.2.2.2.2.2 a ⟨"/p/a.js"⟩ .javaScript "f(" (by rfl) rfl).mpr
      ⟨[0], n, hn, hfault⟩

end ArityCheck
