import ArityCheck.Path.Basic

/-! What joining and cutting paths does to their components.

Paths are text, and everything that matters about them is a list of components. A path is known by
its segments (`isAbsolute_iff`, `innerSegments_joinSegments`), so the two operations that analysis
performs on paths become operations on lists: a name joined to a path is one more component
(`components_join`), and a path seen from a directory is what follows the components of that
directory (`components_relativeTo`). Paths below one directory are therefore ordered alike with and
without it (`order_relativeTo`). -/

namespace ArityCheck

/-! ### Components and their order -/

namespace Component

theorem order_eq_compareLex :
    order = compareLex (compareOn rank) (compareOn label) := rfl

instance : Std.TransCmp order := order_eq_compareLex ▸ inferInstance

instance : Std.LawfulEqCmp order where
  eq_of_compare {a b} h := by
    rw [order, Ordering.then_eq_eq] at h
    have hrank := Std.LawfulEqOrd.eq_of_compare h.1
    have hlabel := Std.LawfulEqOrd.eq_of_compare h.2
    cases a <;> cases b <;> simp_all [rank, label]

theorem ofFirst?_eq_none_iff (segment : String) : ofFirst? segment = none ↔ segment = "" := by
  rw [ofFirst?, ofInner?]
  grind

end Component

theorem orderLists_eq_compareLex {α : Type} (order : α → α → Ordering) (as bs : List α) :
    orderLists order as bs = List.compareLex order as bs := by
  induction as generalizing bs with
  | nil => cases bs <;> rfl
  | cons a as ih =>
    cases bs with
    | nil => rfl
    | cons b bs => rw [orderLists, ih, List.compareLex_cons_cons]

/-- What two lists begin with does not count in their order. -/
theorem orderLists_append_left {α : Type} {order : α → α → Ordering} [Std.ReflCmp order]
    (common as bs : List α) :
    orderLists order (common ++ as) (common ++ bs) = orderLists order as bs := by
  induction common with
  | nil => rfl
  | cons c common ih =>
    have hc : order c c = .eq := Std.ReflCmp.compare_self
    rw [List.cons_append, List.cons_append, orderLists, hc, ih]
    rfl

namespace Path

theorem order_eq (p q : Path) :
    p.order q = List.compareLex Component.order p.components q.components :=
  orderLists_eq_compareLex ..

instance : Std.TransCmp Path.order where
  eq_swap {p q} := by
    rw [order_eq, order_eq]
    exact Std.OrientedCmp.eq_swap
  isLE_trans {p q r} hpq hqr := by
    rw [order_eq] at *
    exact Std.TransCmp.isLE_trans hpq hqr

theorem order_eq_eq_iff (p q : Path) : p.order q = .eq ↔ p.components = q.components := by
  rw [order_eq]
  exact Std.LawfulEqCmp.compare_eq_iff_eq

/-! ### Segments -/

@[simp] theorem splitSegments_append_slash (l t : List Char) :
    splitSegments (l ++ '/' :: t) =
      ((splitSegments l).1, (splitSegments l).2 ++ (splitSegments t).1 :: (splitSegments t).2) := by
  induction l with
  | nil => rfl
  | cons c l ih =>
    rw [List.cons_append, splitSegments, splitSegments, ih]
    by_cases hc : c = '/'
    · simp [hc]
    · simp [hc]

theorem splitSegments_of_not_mem {l : List Char} (h : '/' ∉ l) : splitSegments l = (l, []) := by
  induction l with
  | nil => rfl
  | cons c l ih =>
    obtain ⟨hc, hl⟩ := List.ne_and_not_mem_of_not_mem_cons h
    rw [splitSegments, ih hl]
    exact if_neg (Ne.symm hc)

theorem segments_eq (p : Path) : p.segments =
    ((splitSegments p.text.toList).1 :: (splitSegments p.text.toList).2).map String.ofList := rfl

/-- The segments of a path that goes on after a separator. -/
theorem segments_append_slash (a b : String) :
    segments ⟨a ++ "/" ++ b⟩ = segments ⟨a⟩ ++ segments ⟨b⟩ := by
  have htext : (a ++ "/" ++ b).toList = a.toList ++ '/' :: b.toList := by simp
  simp [segments_eq, htext]

theorem not_mem_splitSegments (l : List Char) :
    '/' ∉ (splitSegments l).1 ∧ ∀ s ∈ (splitSegments l).2, '/' ∉ s := by
  induction l with
  | nil => simp [splitSegments]
  | cons c l ih =>
    rw [splitSegments]
    by_cases hc : c = '/'
    · simpa [hc] using ih
    · simpa [hc, Ne.symm hc] using ih

theorem not_mem_firstSegment (p : Path) : '/' ∉ p.firstSegment.toList := by
  rw [firstSegment, String.toList_ofList]
  exact (not_mem_splitSegments _).1

theorem not_mem_innerSegments (p : Path) : ∀ s ∈ p.innerSegments, '/' ∉ s.toList := by
  intro s hs
  obtain ⟨cs, hcs, rfl⟩ := List.mem_map.mp hs
  rw [String.toList_ofList]
  exact (not_mem_splitSegments _).2 cs hcs

/-- A path is absolute if it has a separator with nothing before it. -/
theorem isAbsolute_iff (p : Path) :
    p.isAbsolute = true ↔ p.firstSegment = "" ∧ p.innerSegments ≠ [] := by
  rw [isAbsolute, firstSegment, innerSegments]
  cases hl : p.text.toList with
  | nil => simp [splitSegments]
  | cons c l =>
    by_cases hc : c = '/'
    · simp [splitSegments, hc]
    · simp [splitSegments, hc, String.ofList_eq_empty_iff]

/-! A text that is joined from segments has these segments. -/

theorem splitSegments_joinSegments {s : String} {inner : List String} (hs : '/' ∉ s.toList)
    (hinner : ∀ t ∈ inner, '/' ∉ t.toList) :
    splitSegments (joinSegments (s :: inner)).toList =
      (s.toList, inner.map String.toList) := by
  induction inner generalizing s with
  | nil =>
    rw [joinSegments, String.intercalate_singleton]
    exact splitSegments_of_not_mem hs
  | cons t inner ih =>
    have htext : (joinSegments (s :: t :: inner)).toList =
        s.toList ++ '/' :: (joinSegments (t :: inner)).toList := by
      rw [joinSegments, String.intercalate_cons_cons]
      simp [joinSegments]
    have ht := ih (hinner t List.mem_cons_self) fun u hu => hinner u (List.mem_cons_of_mem t hu)
    rw [htext, splitSegments_append_slash, splitSegments_of_not_mem hs, ht]
    rfl

theorem firstSegment_joinSegments {s : String} {inner : List String} (hs : '/' ∉ s.toList)
    (hinner : ∀ t ∈ inner, '/' ∉ t.toList) :
    firstSegment ⟨joinSegments (s :: inner)⟩ = s := by
  rw [firstSegment, splitSegments_joinSegments hs hinner, String.ofList_toList]

theorem innerSegments_joinSegments {s : String} {inner : List String} (hs : '/' ∉ s.toList)
    (hinner : ∀ t ∈ inner, '/' ∉ t.toList) :
    innerSegments ⟨joinSegments (s :: inner)⟩ = inner := by
  rw [innerSegments, splitSegments_joinSegments hs hinner]
  simp

/-! ### Joining -/

/-- The name of an entry of a folder. -/
def IsName (name : String) : Prop := name ≠ "" ∧ name ≠ "." ∧ name ≠ ".." ∧ '/' ∉ name.toList

instance (name : String) : Decidable (IsName name) := inferInstanceAs (Decidable (_ ∧ _))

theorem IsName.ofInner? {name : String} (h : IsName name) :
    Component.ofInner? name = some (.name name) := by
  obtain ⟨hempty, hdot, hup, -⟩ := h
  simp [Component.ofInner?, hempty, hdot, hup]

theorem IsName.not_isAbsolute {name : String} (h : IsName name) :
    Path.isAbsolute ⟨name⟩ = false := by
  rw [Path.isAbsolute]
  cases hl : name.toList with
  | nil => rfl
  | cons c l =>
    have hc : c ≠ '/' := by
      rintro rfl
      exact h.2.2.2 (hl ▸ List.mem_cons_self)
    simpa using hc

/-- A path that goes on after another one, past a separator. -/
theorem components_of_append {p q : Path} {l t : List Char}
    (hp : p.text.toList = l ++ ['/'] ∨ l ≠ [] ∧ p.text.toList = l)
    (hq : q.text.toList = l ++ '/' :: t) :
    q.components = p.components ++
      (((splitSegments t).1 :: (splitSegments t).2).map String.ofList).filterMap
        Component.ofInner? := by
  rcases hp with hp | ⟨hl, hp⟩
  · -- The separator is there already: it ends the path with a segment that stands for nothing.
    have habsolute : q.isAbsolute = p.isAbsolute := by
      rw [isAbsolute, isAbsolute, hp, hq]
      cases l <;> rfl
    rw [components, components, habsolute, firstSegment, firstSegment, innerSegments,
      innerSegments, hp, hq, splitSegments_append_slash, splitSegments_append_slash]
    simp [splitSegments, Component.ofInner?]
  · have habsolute : q.isAbsolute = p.isAbsolute := by
      rw [isAbsolute, isAbsolute, hp, hq]
      cases l with
      | nil => exact absurd rfl hl
      | cons c l => rfl
    rw [components, components, habsolute, firstSegment, firstSegment, innerSegments,
      innerSegments, hp, hq, splitSegments_append_slash]
    simp

/-- The components of a relative path that does not begin with `.` are those of its segments. -/
theorem components_of_relative {q : Path} (habsolute : q.isAbsolute = false)
    (hfirst : q.firstSegment ≠ ".") :
    q.components = q.segments.filterMap Component.ofInner? := by
  rw [components, habsolute, segments, List.filterMap_cons, Component.ofFirst?, if_neg hfirst]
  cases Component.ofInner? q.firstSegment <;> rfl

/-- **The components of a relative path follow those of the path it is joined to**, unless it
begins with `.`, which counts only where a path begins. -/
theorem components_join_of_relative (p : Path) {q : Path} (habsolute : q.isAbsolute = false)
    (hfirst : q.firstSegment ≠ ".") : (p.join q).components = p.components ++ q.components := by
  rw [join, if_neg (by simp [habsolute])]
  by_cases hempty : p.text = ""
  · -- The empty path has no components.
    have hp : p.components = [] := by
      rw [components, isAbsolute, firstSegment, innerSegments, hempty]
      rfl
    rw [if_pos (by simp [hempty]), hp, hempty, String.empty_append]
    rfl
  · rw [components_of_relative habsolute hfirst, segments_eq]
    by_cases hslash : p.text.toList.getLast? = some '/'
    · obtain ⟨l, hl⟩ := List.getLast?_eq_some_iff.mp hslash
      rw [if_pos (by simp [hslash])]
      exact components_of_append (.inl hl) (by simp [hl])
    · rw [if_neg (by simp [hempty, hslash])]
      exact components_of_append (.inr ⟨by simpa using hempty, rfl⟩) (by simp)

/-- **A name that is joined to a path is one more component.** -/
theorem components_join (p : Path) {name : String} (h : IsName name) :
    (p.join ⟨name⟩).components = p.components ++ [.name name] := by
  have hsplit : splitSegments name.toList = (name.toList, []) := splitSegments_of_not_mem h.2.2.2
  have hfirst : firstSegment ⟨name⟩ = name := by simp [firstSegment, hsplit]
  have hdot : firstSegment ⟨name⟩ ≠ "." := by simpa [hfirst] using h.2.1
  rw [components_join_of_relative p h.not_isAbsolute hdot,
    components_of_relative h.not_isAbsolute hdot]
  simp [segments, hfirst, innerSegments, hsplit, h.ofInner?]

/-! ### Cutting -/

theorem isSilent_iff (s : String) : isSilent s = true ↔ Component.ofInner? s = none := by
  rw [isSilent, Option.isNone_iff_eq_none]

theorem filterMap_dropWhile_isSilent (segments : List String) :
    (segments.dropWhile isSilent).filterMap Component.ofInner? =
      segments.filterMap Component.ofInner? := by
  induction segments with
  | nil => rfl
  | cons s segments ih =>
    by_cases hs : isSilent s = true
    · rw [List.dropWhile_cons_of_pos hs, ih, List.filterMap_cons_none ((isSilent_iff s).mp hs)]
    · rw [List.dropWhile_cons_of_neg hs]

theorem filterMap_trimEnd (segments : List String) :
    (trimEnd segments).filterMap Component.ofInner? = segments.filterMap Component.ofInner? := by
  rw [trimEnd, List.filterMap_reverse, filterMap_dropWhile_isSilent, List.filterMap_reverse,
    List.reverse_reverse]

theorem mem_of_mem_trimEnd {s : String} {segments : List String} (h : s ∈ trimEnd segments) :
    s ∈ segments := by
  rw [trimEnd, List.mem_reverse] at h
  exact List.mem_reverse.mp ((List.dropWhile_sublist _).mem h)

theorem trimEnd_cons_of_not_isSilent {s : String} (h : isSilent s = false)
    (segments : List String) : trimEnd (s :: segments) = s :: trimEnd segments := by
  rw [trimEnd, trimEnd, List.reverse_cons, List.dropWhile_append]
  split
  · simp_all
  · simp

theorem filterMap_dropComponents (n : Nat) (segments : List String) :
    (dropComponents n segments).filterMap Component.ofInner? =
      (segments.filterMap Component.ofInner?).drop n := by
  fun_induction dropComponents n segments with
  | case1 => rfl
  | case2 => rfl
  | case3 n s segments hs ih => rw [ih, List.filterMap_cons_none ((isSilent_iff s).mp hs)]
  | case4 n s segments hs ih =>
    cases hc : Component.ofInner? s with
    | none => exact absurd ((isSilent_iff s).mpr hc) hs
    | some c => rw [ih, List.filterMap_cons_some hc, List.drop_succ_cons]

theorem mem_of_mem_dropComponents {s : String} {n : Nat} {segments : List String}
    (h : s ∈ dropComponents n segments) : s ∈ segments := by
  fun_induction dropComponents n segments with
  | case1 => exact h
  | case2 => exact h
  | case3 n t segments ht ih => exact List.mem_cons_of_mem t (ih h)
  | case4 n t segments ht ih => exact List.mem_cons_of_mem t (ih h)

/-- The first component stands before the first separator, also if that is the root. -/
theorem drop_components (p : Path) (n : Nat) :
    p.components.drop (n + 1) = (p.innerSegments.filterMap Component.ofInner?).drop n := by
  rw [components]
  by_cases habsolute : p.isAbsolute = true
  · rw [if_pos habsolute]
    rfl
  · rw [if_neg habsolute]
    cases hfirst : Component.ofFirst? p.firstSegment with
    | some c => rfl
    | none =>
      -- Nothing stands before the first separator, so there is none.
      have hempty := (Component.ofFirst?_eq_none_iff _).mp hfirst
      have hinner : p.innerSegments = [] :=
        Decidable.byContradiction fun hne => habsolute ((isAbsolute_iff p).mpr ⟨hempty, hne⟩)
      rw [hinner]
      simp

/-- A path that is joined from segments of which the first stands for a component is relative and
does not begin with `.`. -/
theorem joinSegments_relative {segments : List String}
    (hslash : ∀ s ∈ segments, '/' ∉ s.toList) (hhead : ∀ s ∈ segments.head?, isSilent s = false) :
    isAbsolute ⟨joinSegments segments⟩ = false ∧ firstSegment ⟨joinSegments segments⟩ ≠ "." := by
  cases segments with
  | nil => decide
  | cons s inner =>
    obtain ⟨hs, hinner⟩ := List.forall_mem_cons.mp hslash
    have hloud : isSilent s = false := hhead s rfl
    have hne : s ≠ "" ∧ s ≠ "." := by
      constructor <;> rintro rfl <;> simp [isSilent, Component.ofInner?] at hloud
    constructor
    · rw [Bool.eq_false_iff, Ne, isAbsolute_iff, firstSegment_joinSegments hs hinner]
      exact fun h => hne.1 h.1
    · rw [firstSegment_joinSegments hs hinner]
      exact hne.2

theorem components_joinSegments {segments : List String}
    (hslash : ∀ s ∈ segments, '/' ∉ s.toList) (hhead : ∀ s ∈ segments.head?, isSilent s = false) :
    components ⟨joinSegments segments⟩ = segments.filterMap Component.ofInner? := by
  obtain ⟨habsolute, hfirst⟩ := joinSegments_relative hslash hhead
  rw [components_of_relative habsolute hfirst]
  cases segments with
  | nil => rfl
  | cons s inner =>
    obtain ⟨hs, hinner⟩ := List.forall_mem_cons.mp hslash
    rw [Path.segments, firstSegment_joinSegments hs hinner, innerSegments_joinSegments hs hinner]

/-- Segments at the end that stand for no component can be left out. -/
theorem components_ofSegments_trimEnd (p : Path) :
    (p.ofSegments (trimEnd p.innerSegments)).components = p.components := by
  have hs := not_mem_firstSegment p
  have hinner : ∀ t ∈ trimEnd p.innerSegments, '/' ∉ t.toList :=
    fun t ht => not_mem_innerSegments p t (mem_of_mem_trimEnd ht)
  have hsame := filterMap_trimEnd p.innerSegments
  rw [ofSegments]
  split
  · next h =>
    rw [Bool.and_eq_true, List.isEmpty_iff] at h
    rw [components, components, if_pos h.2, ← hsame, h.1]
    rfl
  · next h =>
    have habsolute :
        isAbsolute ⟨joinSegments (p.firstSegment :: trimEnd p.innerSegments)⟩ = p.isAbsolute := by
      rw [Bool.eq_iff_iff, isAbsolute_iff, isAbsolute_iff, firstSegment_joinSegments hs hinner,
        innerSegments_joinSegments hs hinner]
      constructor
      · rintro ⟨hfirst, hne⟩
        refine ⟨hfirst, fun hnil => hne ?_⟩
        rw [hnil]
        rfl
      · rintro ⟨hfirst, hne⟩
        refine ⟨hfirst, fun hnil => h ?_⟩
        rw [hnil, (isAbsolute_iff p).mpr ⟨hfirst, hne⟩]
        rfl
    rw [components, components, habsolute, firstSegment_joinSegments hs hinner,
      innerSegments_joinSegments hs hinner, hsame]

/-- What a path is cut to below a directory: segments of which the first stands for a component, for
the components that follow those of the directory. -/
theorem exists_relativeTo_eq {p root : Path} (h : root.components <+: p.components)
    (hroot : root.components ≠ []) :
    ∃ segments, p.relativeTo root = ⟨joinSegments segments⟩ ∧
      (∀ s ∈ segments, '/' ∉ s.toList) ∧ (∀ s ∈ segments.head?, isSilent s = false) ∧
      segments.filterMap Component.ofInner? = p.components.drop root.components.length := by
  rw [relativeTo, if_pos (List.isPrefixOf_iff_prefix.mpr h)]
  split
  · next hlength => exact absurd (List.length_eq_zero_iff.mp hlength) hroot
  · next n hlength =>
    refine ⟨_, rfl, fun s hs => ?_, fun s hs => ?_, ?_⟩
    · have hmem := (List.dropWhile_sublist _).mem (mem_of_mem_trimEnd hs)
      exact not_mem_innerSegments p s (mem_of_mem_dropComponents hmem)
    · cases hrest : (dropComponents n p.innerSegments).dropWhile isSilent with
      | nil => simp [hrest, trimEnd] at hs
      | cons t rest =>
        have ht : isSilent t = false := by
          have := List.head?_dropWhile_not isSilent (dropComponents n p.innerSegments)
          simpa [hrest] using this
        rw [hrest, trimEnd_cons_of_not_isSilent ht] at hs
        obtain rfl : t = s := by simpa using hs
        exact ht
    · rw [hlength, drop_components, ← filterMap_dropComponents, filterMap_trimEnd,
        filterMap_dropWhile_isSilent]

/-- **A path seen from a directory is what follows the components of the directory.** -/
theorem components_relativeTo {p root : Path} (h : root.components <+: p.components) :
    (p.relativeTo root).components = p.components.drop root.components.length := by
  by_cases hroot : root.components = []
  · rw [relativeTo, if_pos (List.isPrefixOf_iff_prefix.mpr h), hroot]
    exact components_ofSegments_trimEnd p
  · obtain ⟨segments, hsegments, hslash, hhead, hdrop⟩ := exists_relativeTo_eq h hroot
    rw [hsegments, components_joinSegments hslash hhead, hdrop]

/-- **Paths below one directory are ordered alike with and without it.** -/
theorem order_relativeTo {p q root : Path} (hp : root.components <+: p.components)
    (hq : root.components <+: q.components) :
    (p.relativeTo root).order (q.relativeTo root) = p.order q := by
  obtain ⟨ps, hps⟩ := hp
  obtain ⟨qs, hqs⟩ := hq
  rw [order, order, components_relativeTo ⟨ps, hps⟩, components_relativeTo ⟨qs, hqs⟩, ← hps, ← hqs,
    List.drop_left, List.drop_left, orderLists_append_left]

end Path

end ArityCheck
