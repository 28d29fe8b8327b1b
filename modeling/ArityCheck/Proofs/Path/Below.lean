import ArityCheck.Proofs.Path.Relative
import ArityCheck.Proofs.Path.Segments

/-! Paths that go on from a directory by names.

Cutting a path and joining the rest again gives a path with the same components, but the text may
be another one. If the path was made by joining names to the directory, it is the same text:
`relativeTo_under` says that the names come out again, and `under_eq_join` that they lead back. The
directory itself is cut to nothing (`relativeTo_self`), and nothing joined to it ends with a
separator that was not there. -/
namespace ArityCheck.Path

/-- The path that is reached from a directory by names, one after the other. -/
def under (root : Path) (names : List String) : Path :=
  names.foldl (fun p name => p.join ⟨name⟩) root

/-! ### Joining -/

/-- The text of a directory up to the separator that something is joined with. -/
def front (p : Path) : String :=
  if p.text.isEmpty || p.text.toList.getLast? == some '/' then p.text else p.text ++ "/"

theorem join_eq_front (p : Path) {q : Path} (hq : q.isAbsolute = false) :
    p.join q = ⟨p.front ++ q.text⟩ := by
  rw [join, if_neg (by simp [hq]), front]
  split
  · rfl
  · rfl

/-- No separator ends a name. -/
theorem front_join (p : Path) {name : String} (h : IsName name) :
    (p.join ⟨name⟩).front = (p.join ⟨name⟩).text ++ "/" := by
  have hlast : name.toList.getLast? ≠ some '/' :=
    fun hslash => h.2.2.2 (List.mem_of_getLast? hslash)
  rw [join_eq_front p h.not_isAbsolute, front, if_neg]
  simp [h.1, hlast]

theorem IsName.not_isAbsolute_append {name : String} (h : IsName name) (more : String) :
    isAbsolute ⟨name ++ more⟩ = false := by
  have hname := h.not_isAbsolute
  rw [isAbsolute] at hname ⊢
  cases hl : name.toList with
  | nil => exact absurd (String.toList_eq_nil_iff.mp hl) h.1
  | cons c l => simpa [hl] using hname

/-- What is joined to a name may be joined to it before. -/
theorem join_join (p : Path) {name : String} (h : IsName name) {q : Path}
    (hq : q.isAbsolute = false) :
    (p.join ⟨name⟩).join q = p.join ⟨name ++ "/" ++ q.text⟩ := by
  have hwhole : isAbsolute ⟨name ++ "/" ++ q.text⟩ = false := by
    rw [String.append_assoc]
    exact h.not_isAbsolute_append _
  rw [join_eq_front _ hq, front_join p h, join_eq_front p h.not_isAbsolute, join_eq_front p hwhole]
  simp [String.append_assoc]

theorem IsName.isSilent {name : String} (h : IsName name) : isSilent name = false := by
  rw [Path.isSilent, h.ofInner?]
  rfl

/-- Names that are joined to each other are a relative path with these segments. -/
theorem joinSegments_of_names {names : List String} (h : ∀ name ∈ names, IsName name) :
    isAbsolute ⟨joinSegments names⟩ = false ∧ firstSegment ⟨joinSegments names⟩ ≠ "." :=
  joinSegments_relative (fun name hname => (h name hname).2.2.2)
    fun name hname => (h name (List.mem_of_mem_head? hname)).isSilent

theorem segments_joinSegments {names : List String} (h : ∀ name ∈ names, IsName name)
    (hne : names ≠ []) : segments ⟨joinSegments names⟩ = names := by
  obtain ⟨name, names, rfl⟩ := List.exists_cons_of_ne_nil hne
  obtain ⟨hname, hnames⟩ := List.forall_mem_cons.mp h
  have hslash : ∀ n ∈ names, '/' ∉ n.toList := fun n hn => (hnames n hn).2.2.2
  rw [segments, firstSegment_joinSegments hname.2.2.2 hslash,
    innerSegments_joinSegments hname.2.2.2 hslash]

theorem joinSegments_ne_empty {names : List String} (h : ∀ name ∈ names, IsName name)
    (hne : names ≠ []) : joinSegments names ≠ "" := by
  intro hempty
  have hsegments := segments_joinSegments h hne
  rw [hempty] at hsegments
  exact (h "" (hsegments ▸ List.mem_cons_self)).1 rfl

/-- **Names that are joined to each other first lead to the same path.** -/
theorem under_eq_join (root : Path) {names : List String} (h : ∀ name ∈ names, IsName name)
    (hne : names ≠ []) : root.under names = root.join ⟨joinSegments names⟩ := by
  induction names generalizing root with
  | nil => exact absurd rfl hne
  | cons name names ih =>
    obtain ⟨hname, hnames⟩ := List.forall_mem_cons.mp h
    show (root.join ⟨name⟩).under names = _
    cases names with
    | nil =>
      rw [joinSegments, String.intercalate_singleton]
      rfl
    | cons next names =>
      rw [ih _ hnames (List.cons_ne_nil _ _), join_join root hname (joinSegments_of_names hnames).1,
        joinSegments, joinSegments, String.intercalate_cons_cons]

/-- A separator after a path stays at the end when it is joined. -/
theorem join_slash (p : Path) {q : Path} (hq : q.text ≠ "") :
    p.join ⟨q.text ++ "/"⟩ = ⟨(p.join q).text ++ "/"⟩ := by
  have habsolute : isAbsolute ⟨q.text ++ "/"⟩ = q.isAbsolute := by
    rw [isAbsolute, isAbsolute]
    cases hl : q.text.toList with
    | nil => exact absurd (String.toList_eq_nil_iff.mp hl) hq
    | cons c l => simp [hl]
  by_cases h : q.isAbsolute = true
  · rw [join_of_isAbsolute p (habsolute.trans h), join_of_isAbsolute p h]
  · rw [Bool.not_eq_true] at h
    rw [join_eq_front p (habsolute.trans h), join_eq_front p h, String.append_assoc]

/-- Nothing joined to a path is a separator. -/
theorem join_empty {p : Path} (hp : p.text ≠ "") (hlast : p.text.toList.getLast? ≠ some '/') :
    p.join ⟨""⟩ = ⟨p.text ++ "/"⟩ := by
  rw [join_eq_front p rfl, front, if_neg (by simp [hp, hlast]), String.append_empty]

theorem innerSegments_slash (text : String) :
    innerSegments ⟨text ++ "/"⟩ = innerSegments ⟨text⟩ ++ [""] := by
  have hsegments := segments_append_slash text ""
  rw [String.append_empty] at hsegments
  exact (List.cons.inj hsegments).2

/-! ### Cutting -/

theorem dropComponents_append (segments rest : List String) :
    (dropComponents (segments.filterMap Component.ofInner?).length (segments ++ rest)).dropWhile
      isSilent = rest.dropWhile isSilent := by
  induction segments with
  | nil => rw [List.filterMap_nil, List.length_nil, dropComponents, List.nil_append]
  | cons s segments ih =>
    cases hs : Component.ofInner? s with
    | some c =>
      have hloud : ¬isSilent s = true := by simp [isSilent, hs]
      rw [List.filterMap_cons_some hs, List.length_cons, List.cons_append, dropComponents,
        if_neg hloud, ih]
    | none =>
      have hsilent : isSilent s = true := (isSilent_iff s).mpr hs
      rw [List.filterMap_cons_none hs, List.cons_append]
      cases hlength : (segments.filterMap Component.ofInner?).length with
      | zero =>
        rw [hlength, dropComponents] at ih
        rw [dropComponents, List.dropWhile_cons_of_pos hsilent, ih]
      | succ n =>
        rw [hlength] at ih
        rw [dropComponents, if_pos hsilent, ih]

/-- A path that is not empty has one component before its first separator. -/
theorem length_components {p : Path} (hp : p.text ≠ "") :
    p.components.length = (p.innerSegments.filterMap Component.ofInner?).length + 1 := by
  have hne : p.components.length ≠ 0 := by
    rw [Ne, List.length_eq_zero_iff, components_eq_nil_iff]
    exact hp
  have hdrop := congrArg List.length (drop_components p 0)
  rw [List.length_drop, List.drop_zero] at hdrop
  omega

/-- What a path is cut to, if it begins with the segments of the directory. -/
theorem relativeTo_of_innerSegments {p root : Path} (hroot : root.text ≠ "")
    (hbegins : root.components <+: p.components) {segments rest : List String}
    (hinner : p.innerSegments = segments ++ rest)
    (hsegments : root.innerSegments.filterMap Component.ofInner? =
      segments.filterMap Component.ofInner?) :
    p.relativeTo root = ⟨joinSegments (trimEnd (rest.dropWhile isSilent))⟩ := by
  rw [relativeTo, if_pos (List.isPrefixOf_iff_prefix.mpr hbegins), length_components hroot, hinner,
    hsegments]
  simp only [dropComponents_append]

/-- **Seen from itself, a path is nothing.** -/
theorem relativeTo_self {p : Path} (hp : p.text ≠ "") : p.relativeTo p = ⟨""⟩ :=
  relativeTo_of_innerSegments hp List.prefix_rfl (List.append_nil _).symm rfl

theorem trimEnd_of_names {names : List String} (h : ∀ name ∈ names, IsName name) :
    trimEnd names = names := by
  induction names with
  | nil => rfl
  | cons name names ih =>
    obtain ⟨hname, hnames⟩ := List.forall_mem_cons.mp h
    rw [trimEnd_cons_of_not_isSilent hname.isSilent, ih hnames]

theorem dropWhile_of_names {names : List String} (h : ∀ name ∈ names, IsName name) :
    names.dropWhile isSilent = names := by
  cases names with
  | nil => rfl
  | cons name names =>
    rw [List.dropWhile_cons_of_neg]
    simp [(h name List.mem_cons_self).isSilent]

/-- **Seen from the directory, a path below it is the names that lead there.** -/
theorem relativeTo_under {root : Path} (hroot : root.text ≠ "") {names : List String}
    (h : ∀ name ∈ names, IsName name) (hne : names ≠ []) :
    (root.under names).relativeTo root = ⟨joinSegments names⟩ := by
  obtain ⟨habsolute, hfirst⟩ := joinSegments_of_names h
  obtain ⟨inner, hinner, hjoin⟩ := exists_innerSegments_join hroot habsolute
  rw [segments_joinSegments h hne] at hjoin
  have hsegments : root.innerSegments.filterMap Component.ofInner? =
      inner.filterMap Component.ofInner? := by
    rcases hinner with hinner | hinner
    · rw [hinner]
    · simp [hinner, Component.ofInner?]
  have hbegins : root.components <+: (root.join ⟨joinSegments names⟩).components := by
    rw [components_join_of_relative root habsolute hfirst]
    exact List.prefix_append _ _
  rw [under_eq_join root h hne, relativeTo_of_innerSegments hroot hbegins (List.cons.inj hjoin).2
    hsegments, dropWhile_of_names h, trimEnd_of_names h]

/-- **The directory and the names that were cut off are the path again, letter by letter.** -/
theorem join_relativeTo_under {root : Path} (hroot : root.text ≠ "") {names : List String}
    (h : ∀ name ∈ names, IsName name) (hne : names ≠ []) :
    root.join ((root.under names).relativeTo root) = root.under names := by
  rw [relativeTo_under hroot h hne, under_eq_join root h hne]

end ArityCheck.Path
