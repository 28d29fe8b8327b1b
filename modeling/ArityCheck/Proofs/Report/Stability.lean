import ArityCheck.Proofs.Path.Relative
import ArityCheck.Proofs.Report.Sort
import ArityCheck.Proofs.SortedMap

/-! Sorting reports, once or again and again.

Violations may be tied: paths are compared by their components, and these have many spellings. So it
matters that sorting is stable. A sorted list is told by what it holds of each tie (`eq_of_tied`),
and since sorting leaves that alone, it makes no difference whether a part of the list was sorted
before (`mergeSort_append_mergeSort`). Hence a report can be sorted at any time while violations are
pushed, and comes out the same in the end (`sort_run`). -/
namespace ArityCheck

/-! ### Sorted lists and ties -/

namespace Sorting

variable {α : Type} {le : α → α → Bool}

/-- Neither of two items has to come before the other. -/
def tied (le : α → α → Bool) (a b : α) : Bool := le a b && le b a

section

variable (htrans : ∀ a b c, le a b → le b c → le a c) (htotal : ∀ a b, le a b || le b a)

include htotal in
theorem le_refl_of_total (a : α) : le a a = true := by simpa using htotal a a

include htotal in
theorem tied_self (a : α) : tied le a a = true := by simp [tied, le_refl_of_total htotal a]

include htotal in
/-- The first item of a sorted list comes before all that another list with the same ties holds. -/
theorem head_le_of_tied {a b : α} {l l' : List α} (hl : (a :: l).Pairwise fun x y => le x y)
    (h : ∀ c, (a :: l).filter (tied le c) = (b :: l').filter (tied le c)) : le a b = true := by
  have hb : b ∈ (a :: l).filter (tied le b) := by
    rw [h b]
    exact List.mem_filter.mpr ⟨List.mem_cons_self, tied_self htotal b⟩
  rcases List.mem_cons.mp (List.mem_filter.mp hb).1 with rfl | hb
  · exact le_refl_of_total htotal b
  · exact (List.pairwise_cons.mp hl).1 b hb

include htotal in
/-- **A sorted list is determined by what it holds of each tie**, in which order. -/
theorem eq_of_tied {l l' : List α} (hl : l.Pairwise fun x y => le x y)
    (hl' : l'.Pairwise fun x y => le x y)
    (h : ∀ c, l.filter (tied le c) = l'.filter (tied le c)) : l = l' := by
  induction l generalizing l' with
  | nil =>
    cases l' with
    | nil => rfl
    | cons b l' =>
      have hb := h b
      rw [List.filter_cons_of_pos (tied_self htotal b)] at hb
      cases hb
  | cons a l ih =>
    cases l' with
    | nil =>
      have ha := h a
      rw [List.filter_cons_of_pos (tied_self htotal a)] at ha
      cases ha
    | cons b l' =>
      -- Each head comes before the other one, so they are tied, and both are first in that tie.
      have hab : tied le a b = true := by
        rw [tied, head_le_of_tied htotal hl h, head_le_of_tied htotal hl' fun c => (h c).symm]
        rfl
      have heads := h a
      rw [List.filter_cons_of_pos (tied_self htotal a), List.filter_cons_of_pos hab] at heads
      obtain rfl : a = b := (List.cons.inj heads).1
      congr 1
      refine ih (List.pairwise_cons.mp hl).2 (List.pairwise_cons.mp hl').2 fun c => ?_
      have hc := h c
      rw [List.filter_cons, List.filter_cons] at hc
      split at hc
      · exact (List.cons.inj hc).2
      · exact hc

include htrans htotal in
/-- Sorting leaves every tie as it is. -/
theorem filter_tied_mergeSort (c : α) (l : List α) :
    (l.mergeSort le).filter (tied le c) = l.filter (tied le c) := by
  refine filter_mergeSort_of_tied htrans htotal fun a b ha hb => ?_
  rw [tied, Bool.and_eq_true] at ha hb
  exact htrans a c b ha.2 hb.1

include htrans htotal in
/-- **A part of a list may be sorted before the whole of it.** -/
theorem mergeSort_append_mergeSort (xs ys : List α) :
    (xs.mergeSort le ++ ys).mergeSort le = (xs ++ ys).mergeSort le := by
  refine eq_of_tied htotal (List.pairwise_mergeSort htrans htotal _)
    (List.pairwise_mergeSort htrans htotal _) fun c => ?_
  rw [filter_tied_mergeSort htrans htotal, filter_tied_mergeSort htrans htotal, List.filter_append,
    List.filter_append, filter_tied_mergeSort htrans htotal]

end

end Sorting

/-! ### The order of violations -/

/-- The order of components: the root, `.`, `..`, and then the names by their bytes. -/
inductive Component.Before : Component → Component → Prop
  | rank {a b : Component} (lower : a.rank < b.rank) : Before a b
  | name {s t : String} (lower : Text.bytes s < Text.bytes t) : Before (.name s) (.name t)

theorem Component.order_eq_lt_iff (a b : Component) : a.order b = .lt ↔ Before a b := by
  have hlabels : compare a.label b.label = .lt ↔ a.label < b.label := compareOfLessAndEq_eq_lt
  rw [order, Ordering.then_eq_lt, Nat.compare_eq_lt, Nat.compare_eq_eq, hlabels]
  constructor
  · rintro (hrank | ⟨hrank, hlabel⟩)
    · exact .rank hrank
    · -- Of the components of one rank, only names differ in their labels.
      have hbytes := Text.bytes_lt_bytes hlabel
      cases a <;> cases b <;> simp [rank] at hrank
      case name.name => exact .name hbytes
      all_goals exact absurd hbytes (List.lt_irrefl _)
  · rintro (hrank | hbytes)
    · exact .inl hrank
    · exact .inr ⟨rfl, Text.bytes_lt_bytes_iff.mp hbytes⟩

theorem orderLists_eq_lt_iff {α : Type} {order : α → α → Ordering} [Std.LawfulEqCmp order]
    (as bs : List α) :
    orderLists order as bs = .lt ↔ List.Lex (fun a b => order a b = .lt) as bs := by
  induction as generalizing bs with
  | nil => cases bs <;> simp [orderLists]
  | cons a as ih =>
    cases bs with
    | nil => simp [orderLists]
    | cons b bs =>
      rw [orderLists, Ordering.then_eq_lt, ih, List.cons_lex_cons_iff,
        Std.LawfulEqCmp.compare_eq_iff_eq]

/-- Paths are ordered by the first component in which they differ. -/
theorem Path.order_eq_lt_iff (p q : Path) :
    p.order q = .lt ↔ List.Lex Component.Before p.components q.components := by
  rw [order, orderLists_eq_lt_iff]
  simp only [Component.order_eq_lt_iff]

namespace Violation

theorem order_eq_lt_iff (v w : Violation) :
    v.order w = .lt ↔
      List.Lex Component.Before v.location.file.components w.location.file.components ∨
        v.location.file.components = w.location.file.components ∧
          (v.location.line < w.location.line ∨
            v.location.line = w.location.line ∧ v.location.column < w.location.column) := by
  simp only [order, Ordering.then_eq_lt, Path.order_eq_lt_iff, Path.order_eq_eq_iff,
    Nat.compare_eq_lt, Nat.compare_eq_eq]

/-- Violations are tied if they are at one place of one file, however the file is written. -/
theorem order_eq_eq_iff (v w : Violation) :
    v.order w = .eq ↔ v.location.file.components = w.location.file.components ∧
      v.location.line = w.location.line ∧ v.location.column = w.location.column := by
  simp only [order, Ordering.then_eq_eq, Path.order_eq_eq_iff, Nat.compare_eq_eq]

/-- The order as the sorting uses it. -/
def le (v w : Violation) : Bool := (v.order w).isLE

theorem le_trans (u v w : Violation) : u.le v → v.le w → u.le w := Std.TransCmp.isLE_trans

theorem le_total (v w : Violation) : (v.le w || w.le v) = true := isLE_or_isLE v w

theorem tied_le (v : Violation) : Sorting.tied le v = (v.order · == .eq) := by
  funext w
  have hswap : w.order v = (v.order w).swap := Std.OrientedCmp.eq_swap
  rw [Sorting.tied, le, le, hswap]
  cases v.order w <;> rfl

end Violation

/-! ### Sorting a report -/

namespace Report

theorem violations_sort (r : Report) : r.sort.violations = r.violations.mergeSort Violation.le := rfl

theorem ext {r r' : Report} (hviolations : r.violations = r'.violations)
    (hfiles : r.filesChecked = r'.filesChecked) : r = r' := by
  obtain ⟨_, _⟩ := r
  obtain ⟨_, _⟩ := r'
  simp_all

/-- Violations at one place stay in the order in which they were found. -/
theorem filter_sort (r : Report) (v : Violation) :
    r.sort.violations.filter (v.order · == .eq) = r.violations.filter (v.order · == .eq) := by
  rw [violations_sort, ← Violation.tied_le]
  exact Sorting.filter_tied_mergeSort Violation.le_trans Violation.le_total v r.violations

theorem sort_of_sorted {r : Report} (h : r.violations.Pairwise fun v w => v.le w) : r.sort = r :=
  ext (List.mergeSort_of_pairwise h) rfl

theorem sorted_sort (r : Report) : r.sort.violations.Pairwise fun v w => v.le w :=
  List.pairwise_mergeSort Violation.le_trans Violation.le_total r.violations

theorem foldl_push (r : Report) (vs : List Violation) :
    vs.foldl push r = { r with violations := r.violations ++ vs } := by
  induction vs generalizing r with
  | nil => simp
  | cons v vs ih => simp [ih, push]

/-- **A report may be sorted before more is pushed.** -/
theorem sort_foldl_push_sort (r : Report) (vs : List Violation) :
    (vs.foldl push r.sort).sort = (vs.foldl push r).sort := by
  refine ext ?_ ?_
  · rw [foldl_push, foldl_push]
    exact Sorting.mergeSort_append_mergeSort Violation.le_trans Violation.le_total _ _
  · rw [foldl_push, foldl_push]
    rfl

/-- What can be done to a report while it grows. -/
inductive Step where
  | push (v : Violation)
  | sort

namespace Step

def apply (r : Report) : Step → Report
  | .push v => r.push v
  | .sort => r.sort

def pushed? : Step → Option Violation
  | .push v => some v
  | .sort => none

end Step

/-- **Only what was pushed counts, in which order**, if the report is sorted in the end. -/
theorem sort_run (r : Report) (steps : List Step) :
    (steps.foldl Step.apply r).sort = ((steps.filterMap Step.pushed?).foldl push r).sort := by
  induction steps generalizing r with
  | nil => rfl
  | cons s steps ih =>
    rw [List.foldl_cons, ih]
    cases s with
    | push v => rfl
    | sort => exact sort_foldl_push_sort r _

/-- **Sorting is stable, and need not be done but once.** Violations come by the components of
their file, then by line and by column. That is a total preorder, in which all spellings of a path
are alike. Sorting a report keeps its violations and puts them in order, leaves those that are tied
as they were, and does nothing to a report that is sorted. So pushing some, sorting, pushing more and
sorting again is the same as sorting once in the end, and so is sorting any number of times. -/
theorem sort_stable :
    (∀ v w : Violation, v.order w = .lt ↔
      List.Lex Component.Before v.location.file.components w.location.file.components ∨
        v.location.file.components = w.location.file.components ∧
          (v.location.line < w.location.line ∨
            v.location.line = w.location.line ∧ v.location.column < w.location.column)) ∧
    (∀ v w : Violation, v.order w = .eq ↔
      v.location.file.components = w.location.file.components ∧
        v.location.line = w.location.line ∧ v.location.column = w.location.column) ∧
    (∀ v w : Violation, (v.order w).isLE ∨ (w.order v).isLE) ∧
    (∀ u v w : Violation, (u.order v).isLE → (v.order w).isLE → (u.order w).isLE) ∧
    (∀ a b : String, Path.order ⟨a ++ "//" ++ b⟩ ⟨a ++ "/" ++ b⟩ = .eq ∧
      Path.order ⟨a ++ "/./" ++ b⟩ ⟨a ++ "/" ++ b⟩ = .eq) ∧
    ∀ r : Report,
      r.sort.violations.Perm r.violations ∧ r.sort.filesChecked = r.filesChecked ∧
      (r.sort.violations.Pairwise fun v w => (v.order w).isLE) ∧
      (∀ v : Violation,
        r.sort.violations.filter (v.order · == .eq) = r.violations.filter (v.order · == .eq)) ∧
      ((r.violations.Pairwise fun v w => (v.order w).isLE) → r.sort = r) ∧ r.sort.sort = r.sort ∧
      (∀ vs ws : List Violation,
        (ws.foldl push (vs.foldl push r).sort).sort = ((vs ++ ws).foldl push r).sort) ∧
      ∀ steps : List Step,
        (steps.foldl Step.apply r).sort = ((steps.filterMap Step.pushed?).foldl push r).sort := by
  refine ⟨Violation.order_eq_lt_iff, Violation.order_eq_eq_iff, fun v w => ?_, Violation.le_trans,
    fun a b => ⟨?_, ?_⟩, fun r => ⟨List.mergeSort_perm _ _, rfl, sorted_sort r, filter_sort r,
      sort_of_sorted, sort_of_sorted (sorted_sort r), fun vs ws => ?_, sort_run r⟩⟩
  · exact Bool.or_eq_true_iff.mp (Violation.le_total v w)
  · rw [Path.order_eq_eq_iff, Path.components_repeated]
  · rw [Path.order_eq_eq_iff, Path.components_inner_dot]
  · rw [sort_foldl_push_sort, List.foldl_append]

/-- Three spellings of one file and one of another, pushed and sorted in two batches. -/
theorem sort_stable_of_spellings :
    let found (file : String) (line : Nat) : Violation :=
      { code := "AR001", rule := "func-args", severity := .error, message := file
        location := ⟨⟨file⟩, line, 1, 0, 0⟩ }
    let first := [found "a-b.js" 1, found "a//b.js" 2, found "a/b.js" 1]
    let more := [found "a/./b.js" 1, found "a/b.js" 2]
    let sorted : Report :=
      ⟨[found "a/b.js" 1, found "a/./b.js" 1, found "a//b.js" 2, found "a/b.js" 2,
        found "a-b.js" 1], 0⟩
    (more.foldl push (first.foldl push empty).sort).sort = sorted ∧
      ((first ++ more).foldl push empty).sort = sorted ∧ sorted.sort = sorted ∧
      (sorted.violations.Pairwise fun v w => (v.order w).isLE) ∧
      ((found "a/b.js" 1).order (found "a-b.js" 1)).isLE := by
  intro found first more sorted
  obtain ⟨-, -, -, htrans, -, hsort⟩ := sort_stable
  obtain ⟨-, -, hpairwise, -, -, -, -, -⟩ := hsort ((first ++ more).foldl push empty)
  obtain ⟨-, -, -, -, hsame, -, -, -⟩ := hsort sorted
  obtain ⟨-, -, -, -, -, -, hbatches, -⟩ := hsort empty
  have honce : ((first ++ more).foldl push empty).sort = sorted := by
    rw [sort_eq_insertionSort]
    decide +kernel
  rw [honce] at hpairwise
  refine ⟨(hbatches first more).trans honce, honce, hsame hpairwise, hpairwise, ?_⟩
  exact htrans _ (found "a//b.js" 2) _ (by decide +kernel) (by decide +kernel)

end Report

end ArityCheck
