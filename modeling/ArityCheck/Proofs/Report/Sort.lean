import ArityCheck.Proofs.Path.Components
import ArityCheck.Report.Basic
import Mathlib.Data.List.Sort

/-! Sorting that keeps what is tied.

The order of violations ties those that begin at the same place of a file, so the sorted report is
determined only because sorting is stable. Three facts say what that gives: a list whose parts are
in order already is sorted part by part (`mergeSort_flatMap`), what is tied is left in the order it
came in (`filter_mergeSort_of_tied`), and items may be left out before sorting as well as after it
(`filter_mergeSort`). They follow from the fact that sorting inserts the items one after the other,
each before those that it is tied with. -/

namespace ArityCheck

namespace Sorting

variable {α β : Type} {le : α → α → Bool}

section Stable

variable (htrans : ∀ a b c, le a b → le b c → le a c) (htotal : ∀ a b, le a b || le b a)

include htrans htotal in
theorem mergeSort_cons_eq_orderedInsert (a : α) (l : List α) :
    (a :: l).mergeSort le = (l.mergeSort le).orderedInsert (fun x y => le x y) a := by
  obtain ⟨before, after, hsorted, hl, hbefore⟩ := List.mergeSort_cons htrans htotal a l
  have hafter : ∀ b ∈ after, le a b := by
    have h := List.pairwise_mergeSort htrans htotal (a :: l)
    rw [hsorted, List.pairwise_append, List.pairwise_cons] at h
    exact h.2.1.1
  rw [hsorted, hl]
  clear hsorted hl
  induction before with
  | nil =>
    cases after with
    | nil => rfl
    | cons b after =>
      rw [List.nil_append, List.nil_append, List.orderedInsert_cons,
        if_pos (hafter b List.mem_cons_self)]
  | cons b before ih =>
    have hb : ¬ le a b = true := by simpa using hbefore b List.mem_cons_self
    rw [List.cons_append, List.cons_append, List.orderedInsert_cons, if_neg hb,
      ih fun c hc => hbefore c (List.mem_cons_of_mem b hc)]

include htrans htotal in
theorem mergeSort_eq_insertionSort (l : List α) :
    l.mergeSort le = l.insertionSort fun x y => le x y := by
  induction l with
  | nil => simp
  | cons a l ih =>
    rw [mergeSort_cons_eq_orderedInsert htrans htotal, ih, List.insertionSort_cons]

theorem orderedInsert_of_forall_le {a : α} {ys : List α} (h : ∀ y ∈ ys, le a y) :
    ys.orderedInsert (fun x y => le x y) a = a :: ys := by
  cases ys with
  | nil => rfl
  | cons y ys => exact if_pos (h y List.mem_cons_self)

theorem orderedInsert_append {a : α} {xs ys : List α} (h : ∀ y ∈ ys, le a y) :
    (xs ++ ys).orderedInsert (fun x y => le x y) a =
      xs.orderedInsert (fun x y => le x y) a ++ ys := by
  induction xs with
  | nil => exact orderedInsert_of_forall_le h
  | cons x xs ih =>
    rw [List.cons_append, List.orderedInsert_cons, List.orderedInsert_cons, ih]
    split <;> rfl

include htrans htotal in
theorem mergeSort_append {xs ys : List α} (h : ∀ x ∈ xs, ∀ y ∈ ys, le x y) :
    (xs ++ ys).mergeSort le = xs.mergeSort le ++ ys.mergeSort le := by
  induction xs with
  | nil => simp
  | cons x xs ih =>
    have hx : ∀ y ∈ ys.mergeSort le, le x y :=
      fun y hy => h x List.mem_cons_self y (List.mem_mergeSort.mp hy)
    rw [List.cons_append, mergeSort_cons_eq_orderedInsert htrans htotal,
      mergeSort_cons_eq_orderedInsert htrans htotal,
      ih fun z hz => h z (List.mem_cons_of_mem x hz), orderedInsert_append hx]

include htrans htotal in
/-- **A list whose parts are in order is sorted part by part.** -/
theorem mergeSort_flatMap {part : β → List α} {parts : List β}
    (h : parts.Pairwise fun p q => ∀ a ∈ part p, ∀ b ∈ part q, le a b) :
    (parts.flatMap part).mergeSort le = parts.flatMap fun p => (part p).mergeSort le := by
  induction parts with
  | nil => simp
  | cons p parts ih =>
    obtain ⟨hp, hparts⟩ := List.pairwise_cons.mp h
    have hrest : ∀ a ∈ part p, ∀ b ∈ parts.flatMap part, le a b := by
      intro a ha b hb
      obtain ⟨q, hq, hbq⟩ := List.mem_flatMap.mp hb
      exact hp q hq a ha b hbq
    rw [List.flatMap_cons, List.flatMap_cons, mergeSort_append htrans htotal hrest, ih hparts]

include htrans htotal in
/-- **What is tied stays in the order it came in.** -/
theorem filter_mergeSort_of_tied {tied : α → Bool} {l : List α}
    (h : ∀ a b, tied a → tied b → le a b) :
    (l.mergeSort le).filter tied = l.filter tied := by
  have hpairwise : (l.filter tied).Pairwise fun a b => le a b :=
    List.pairwise_of_forall_mem_list fun a ha b hb =>
      h a b (List.mem_filter.mp ha).2 (List.mem_filter.mp hb).2
  have hsublist := (List.sublist_mergeSort htrans htotal hpairwise List.filter_sublist).filter tied
  rw [List.filter_filter] at hsublist
  simp only [Bool.and_self] at hsublist
  exact (hsublist.eq_of_length_le ((List.mergeSort_perm l le).filter tied).length_eq.le).symm

include htrans in
/-- What is kept of a sorted list with one more item is sorted with that item, if it is kept. -/
theorem filter_orderedInsert (keep : α → Bool) (a : α) {l : List α}
    (hsorted : l.Pairwise fun x y => le x y) :
    (l.orderedInsert (fun x y => le x y) a).filter keep =
      if keep a then (l.filter keep).orderedInsert (fun x y => le x y) a else l.filter keep := by
  induction l with
  | nil => cases hkeep : keep a <;> simp [hkeep]
  | cons b l ih =>
    obtain ⟨hb, hl⟩ := List.pairwise_cons.mp hsorted
    rw [List.orderedInsert_cons]
    by_cases hab : le a b = true
    · -- The item goes to the front, and what is kept comes after it as well.
      have hfront : ∀ y ∈ (b :: l).filter keep, le a y := by
        intro y hy
        rcases List.mem_cons.mp (List.mem_filter.mp hy).1 with rfl | hy
        · exact hab
        · exact htrans a b y hab (hb y hy)
      rw [if_pos hab, List.filter_cons, orderedInsert_of_forall_le hfront]
    · rw [if_neg hab, List.filter_cons, List.filter_cons, ih hl]
      cases keep b <;> cases keep a <;> simp [hab]

include htrans htotal in
/-- **What is kept of a sorted list is what is kept, sorted.** -/
theorem filter_mergeSort (keep : α → Bool) (l : List α) :
    (l.mergeSort le).filter keep = (l.filter keep).mergeSort le := by
  induction l with
  | nil => simp
  | cons a l ih =>
    rw [mergeSort_cons_eq_orderedInsert htrans htotal,
      filter_orderedInsert htrans keep a (List.pairwise_mergeSort htrans htotal l), ih,
      List.filter_cons]
    split
    · rw [mergeSort_cons_eq_orderedInsert htrans htotal]
    · rfl

end Stable

theorem mergeSort_congr {le' : α → α → Bool} {l : List α}
    (h : ∀ a ∈ l, ∀ b ∈ l, le a b = le' a b) : l.mergeSort le = l.mergeSort le' := by
  simpa using List.map_mergeSort (f := id) h

end Sorting

/-! ### Violations -/

theorem isLE_or_isLE {α : Type} {cmp : α → α → Ordering} [Std.OrientedCmp cmp] (a b : α) :
    (cmp a b).isLE || (cmp b a).isLE := by
  have hswap : cmp a b = (cmp b a).swap := Std.OrientedCmp.eq_swap
  rw [hswap]
  cases cmp b a <;> rfl

theorem transCmp_on {α β : Type} {cmp : β → β → Ordering} [Std.TransCmp cmp] (f : α → β) :
    Std.TransCmp fun a b => cmp (f a) (f b) where
  eq_swap := Std.OrientedCmp.eq_swap
  isLE_trans := Std.TransCmp.isLE_trans

namespace Violation

/-- The order of the violations of one file: by line, then by column. -/
def orderWithin (v w : Violation) : Ordering :=
  (compare v.location.line w.location.line).then (compare v.location.column w.location.column)

instance : Std.TransCmp orderWithin :=
  inferInstanceAs (Std.TransCmp (compareLex (compareOn fun v : Violation => v.location.line)
    (compareOn fun v => v.location.column)))

/-- The violations of one file in their order. Those at the same place stay as they were. -/
def sortWithin (violations : List Violation) : List Violation :=
  violations.mergeSort fun v w => (v.orderWithin w).isLE

theorem sortWithin_eq_insertionSort (violations : List Violation) :
    sortWithin violations = violations.insertionSort fun v w => (v.orderWithin w).isLE :=
  Sorting.mergeSort_eq_insertionSort (fun _ _ _ => Std.TransCmp.isLE_trans) isLE_or_isLE _

theorem order_eq (v w : Violation) :
    v.order w = (v.location.file.order w.location.file).then (v.orderWithin w) := rfl

instance : Std.TransCmp Violation.order :=
  have : Std.TransCmp fun v w : Violation => v.location.file.order w.location.file :=
    transCmp_on _
  inferInstanceAs (Std.TransCmp (compareLex
    (fun v w : Violation => v.location.file.order w.location.file) orderWithin))

theorem mem_sortWithin {v : Violation} {violations : List Violation} :
    v ∈ sortWithin violations ↔ v ∈ violations := List.mem_mergeSort

/-- Whether a violation begins at a line and column. -/
def isAt (line column : Nat) (v : Violation) : Bool :=
  v.location.line == line && v.location.column == column

/-- Two violations begin at the same place of the same file. -/
def SamePlace (v w : Violation) : Prop :=
  v.location.file = w.location.file ∧ v.location.line = w.location.line ∧
    v.location.column = w.location.column

/-- Violations that begin at one place stay in the order they came in. -/
theorem filter_sortWithin (violations : List Violation) (line column : Nat) :
    (sortWithin violations).filter (isAt line column) = violations.filter (isAt line column) := by
  refine Sorting.filter_mergeSort_of_tied (fun _ _ _ => Std.TransCmp.isLE_trans) isLE_or_isLE ?_
  intro v w hv hw
  simp only [isAt, Bool.and_eq_true, beq_iff_eq] at hv hw
  simp [orderWithin, hv, hw]

/-- **Violations that come file by file, in the order of the files, are sorted file by file.** -/
theorem sort_flatMap {files : List Path} {shown : Path → Path} {part : Path → List Violation}
    (hfile : ∀ p ∈ files, ∀ v ∈ part p, v.location.file = shown p)
    (hsorted : files.Pairwise fun p q => (shown p).order (shown q) = .lt) :
    (files.flatMap part).mergeSort (fun v w => (v.order w).isLE) =
      files.flatMap fun p => sortWithin (part p) := by
  have hparts : files.Pairwise fun p q => ∀ v ∈ part p, ∀ w ∈ part q, (v.order w).isLE := by
    refine hsorted.imp_of_mem fun {p q} hp hq hlt v hv w hw => ?_
    rw [order_eq, hfile p hp v hv, hfile q hq w hw, hlt]
    rfl
  rw [Sorting.mergeSort_flatMap (fun _ _ _ => Std.TransCmp.isLE_trans) isLE_or_isLE hparts]
  refine List.flatMap_congr fun p hp => Sorting.mergeSort_congr fun v hv w hw => ?_
  have hself : (shown p).order (shown p) = .eq := Std.ReflCmp.compare_self
  rw [order_eq, hfile p hp v hv, hfile p hp w hw, hself]
  rfl

end Violation

theorem Report.sort_eq_insertionSort (r : Report) :
    r.sort = { r with violations := r.violations.insertionSort fun v w => (v.order w).isLE } :=
  congrArg (Report.mk · r.filesChecked)
    (Sorting.mergeSort_eq_insertionSort (fun _ _ _ => Std.TransCmp.isLE_trans) isLE_or_isLE _)

end ArityCheck
