import ArityCheck.Proofs.Path.Components

/-! Paths seen from a directory, and the directory joined to them again.

What a path is cut to is text that has to be read again as a path, so what stands at the cut could
change its meaning: a separator there would make it absolute, and `.` would become a component.
`join_relativeTo` says that neither happens, since the directory and the rest together have the
components of the whole. The laws before it tell which texts have the same components, and
`relativeTo_of_longer_name` that a name is not cut in the middle. -/
namespace ArityCheck.Path

/-! ### Spellings -/

/-- What stands after a separator adds the components of its segments. -/
theorem components_slash (a b : String) :
    components ⟨a ++ "/" ++ b⟩ =
      components ⟨a ++ "/"⟩ ++ (segments ⟨b⟩).filterMap Component.ofInner? := by
  have hleft : (a ++ "/").toList = a.toList ++ ['/'] := by simp
  have hwhole : (a ++ "/" ++ b).toList = a.toList ++ '/' :: b.toList := by simp
  rw [segments_eq]
  exact components_of_append (.inl hleft) hwhole

/-- A segment before a separator is read by itself. -/
theorem segments_slash {s : String} (hs : '/' ∉ s.toList) (b : String) :
    segments ⟨s ++ "/" ++ b⟩ = s :: segments ⟨b⟩ := by
  have hsingle : segments ⟨s⟩ = [s] := by simp [segments_eq, splitSegments_of_not_mem hs]
  rw [segments_append_slash, hsingle, List.singleton_append]

/-- A segment that stands for no component may be left out after a separator. -/
theorem components_silent {s : String} (hs : '/' ∉ s.toList) (hsilent : isSilent s = true)
    (a b : String) : components ⟨a ++ "/" ++ s ++ "/" ++ b⟩ = components ⟨a ++ "/" ++ b⟩ := by
  have htext : a ++ "/" ++ s ++ "/" ++ b = a ++ "/" ++ (s ++ "/" ++ b) := by
    simp [String.append_assoc]
  rw [htext, components_slash, components_slash a b, segments_slash hs,
    List.filterMap_cons_none ((isSilent_iff s).mp hsilent)]

/-- **Separators may be repeated.** -/
theorem components_repeated (a b : String) :
    components ⟨a ++ "//" ++ b⟩ = components ⟨a ++ "/" ++ b⟩ := by
  have htext : a ++ "//" ++ b = a ++ "/" ++ "" ++ "/" ++ b := by
    simp [← String.toList_inj]
  rw [htext]
  exact components_silent (by decide) (by decide) a b

/-- **Inside of a path, `.` stands for nothing.** -/
theorem components_inner_dot (a b : String) :
    components ⟨a ++ "/./" ++ b⟩ = components ⟨a ++ "/" ++ b⟩ := by
  have htext : a ++ "/./" ++ b = a ++ "/" ++ "." ++ "/" ++ b := by
    simp [← String.toList_inj]
  rw [htext]
  exact components_silent (by decide) (by decide) a b

/-- **A separator at the end stands for nothing**, unless it is the root. -/
theorem components_trailing {a : String} (ha : a ≠ "") :
    components ⟨a ++ "/"⟩ = components ⟨a⟩ := by
  have h := components_of_append (p := ⟨a⟩) (q := ⟨a ++ "/"⟩) (l := a.toList) (t := [])
    (.inr ⟨by simpa using ha, rfl⟩) (by simp)
  simpa [splitSegments, Component.ofInner?] using h

/-- **Where a path begins, `.` is a component.** -/
theorem components_leading_dot (b : String) :
    components ⟨"./" ++ b⟩ = .here :: (segments ⟨b⟩).filterMap Component.ofInner? := by
  have hdot : components ⟨"." ++ "/"⟩ = [.here] := by decide
  have h := components_slash "." b
  rwa [hdot] at h

/-- **Going up is a component**, whatever stands before it. -/
theorem components_up (a b : String) :
    components ⟨a ++ "/../" ++ b⟩ =
      components ⟨a ++ "/"⟩ ++ .up :: (segments ⟨b⟩).filterMap Component.ofInner? := by
  have htext : a ++ "/../" ++ b = a ++ "/" ++ (".." ++ "/" ++ b) := by
    simp [← String.toList_inj]
  have hup : Component.ofInner? ".." = some .up := by decide
  rw [htext, components_slash, segments_slash (by decide), List.filterMap_cons_some hup]

/-! ### Joining what was cut -/

/-- Nothing stands before the first separator if there is nothing at all or the separator comes
first. -/
theorem firstSegment_eq_empty_iff (p : Path) :
    p.firstSegment = "" ↔ p.text = "" ∨ p.isAbsolute = true := by
  rw [firstSegment, isAbsolute, String.ofList_eq_empty_iff, ← String.toList_eq_nil_iff]
  cases p.text.toList with
  | nil => simp [splitSegments]
  | cons c l => by_cases hc : c = '/' <;> simp [splitSegments, hc]

theorem components_eq_nil_iff (p : Path) : p.components = [] ↔ p.text = "" := by
  constructor
  · intro h
    rw [components, List.append_eq_nil_iff] at h
    by_cases habsolute : p.isAbsolute = true
    · simp [habsolute] at h
    · have hnone : Component.ofFirst? p.firstSegment = none := by simpa [habsolute] using h.1
      have hfirst := (Component.ofFirst?_eq_none_iff _).mp hnone
      exact ((firstSegment_eq_empty_iff p).mp hfirst).resolve_right habsolute
  · intro h
    obtain ⟨text⟩ := p
    obtain rfl : text = "" := h
    rfl

/-- From the empty path, every path is as it is. -/
theorem join_of_components_eq_nil {p : Path} (h : p.components = []) (q : Path) : p.join q = q := by
  have hempty := (components_eq_nil_iff p).mp h
  simp [join, hempty]

/-- **A directory and what follows it make up the whole path.** -/
theorem join_relativeTo {p root : Path} (h : root.components <+: p.components) :
    (root.join (p.relativeTo root)).components = p.components := by
  by_cases hroot : root.components = []
  · rw [join_of_components_eq_nil hroot, components_relativeTo h, hroot]
    rfl
  · obtain ⟨segments, hsegments, hslash, hhead, -⟩ := exists_relativeTo_eq h hroot
    obtain ⟨habsolute, hfirst⟩ := joinSegments_relative hslash hhead
    rw [← hsegments] at habsolute hfirst
    obtain ⟨rest, hrest⟩ := h
    rw [components_join_of_relative root habsolute hfirst, components_relativeTo ⟨rest, hrest⟩,
      ← hrest, List.drop_left]

theorem relativeTo_of_not_prefix {p root : Path} (h : ¬root.components <+: p.components) :
    p.relativeTo root = p := by
  rw [relativeTo, if_neg fun hprefix => h (List.isPrefixOf_iff_prefix.mp hprefix)]

/-! ### Names that go on -/

theorem splitSegments_append_of_not_mem {l : List Char} (h : '/' ∉ l) (t : List Char) :
    splitSegments (l ++ t) = (l ++ (splitSegments t).1, (splitSegments t).2) := by
  induction l with
  | nil => rfl
  | cons c l ih =>
    obtain ⟨hc, hl⟩ := List.ne_and_not_mem_of_not_mem_cons h
    rw [List.cons_append, splitSegments, ih hl]
    exact if_neg (Ne.symm hc)

/-- A name that goes on up to the next separator is a name. -/
theorem IsName.append {name more : String} (h : IsName name) (hmore : more ≠ "")
    (hslash : '/' ∉ more.toList) : IsName (name ++ more) := by
  obtain ⟨hempty, hdot, -, hname⟩ := h
  rw [Ne, ← String.toList_inj] at hempty hdot hmore
  -- A name has a character and what follows it another one, so `..` would be left, after a dot.
  cases hl : name.toList with
  | nil => exact absurd hl hempty
  | cons c l =>
    rw [hl] at hdot
    refine ⟨?_, ?_, ?_, ?_⟩
    · simp [← String.toList_inj, hl]
    · rw [Ne, ← String.toList_inj, String.toList_append, hl]
      intro heq
      simp at heq
      exact hmore (by simp [heq])
    · rw [Ne, ← String.toList_inj, String.toList_append, hl]
      intro heq
      obtain ⟨rfl, htail⟩ := List.cons.inj heq
      rcases List.append_eq_singleton_iff.mp htail with ⟨rfl, -⟩ | ⟨-, hnil⟩
      · exact hdot rfl
      · exact hmore hnil
    · rw [String.toList_append, List.mem_append, not_or]
      exact ⟨hname, hslash⟩

/-- **A name is not cut in the middle**: a directory whose name goes on in the text of a path does
not hold that path. -/
theorem relativeTo_of_longer_name (folder : Path) {name more : String} (h : IsName name)
    (hmore : more ≠ "") (hslash : isAbsolute ⟨more⟩ = false) :
    relativeTo ⟨(folder.join ⟨name⟩).text ++ more⟩ (folder.join ⟨name⟩) =
      ⟨(folder.join ⟨name⟩).text ++ more⟩ := by
  have hfirst : firstSegment ⟨name ++ more⟩ = name ++ firstSegment ⟨more⟩ := by
    rw [firstSegment, String.toList_append, splitSegments_append_of_not_mem h.2.2.2]
    simp [firstSegment]
  have hextra : firstSegment ⟨more⟩ ≠ "" := by
    intro hempty
    rcases (firstSegment_eq_empty_iff _).mp hempty with hnil | habsolute
    · exact hmore hnil
    · exact Bool.false_ne_true (hslash.symm.trans habsolute)
  have hlonger : IsName (firstSegment ⟨name ++ more⟩) :=
    hfirst ▸ h.append hextra (not_mem_firstSegment _)
  have habsolute : isAbsolute ⟨name ++ more⟩ = false := by
    rw [Bool.eq_false_iff, Ne, isAbsolute_iff]
    exact fun hempty => hlonger.1 hempty.1
  have htext : (folder.join ⟨name⟩).text ++ more = (folder.join ⟨name ++ more⟩).text := by
    rw [join, join, h.not_isAbsolute, habsolute]
    split
    · next hfalse => cases hfalse
    · split <;> simp [String.append_assoc]
  have hcomponents : (folder.join ⟨name ++ more⟩).components = folder.components ++
      .name (name ++ firstSegment ⟨more⟩) ::
        (innerSegments ⟨name ++ more⟩).filterMap Component.ofInner? := by
    rw [components_join_of_relative folder habsolute hlonger.2.1,
      components_of_relative habsolute hlonger.2.1, segments,
      List.filterMap_cons_some hlonger.ofInner?, hfirst]
  refine relativeTo_of_not_prefix fun hprefix => ?_
  rw [htext, hcomponents, components_join folder h, List.prefix_append_right_inj,
    List.cons_prefix_cons] at hprefix
  have hsame := congrArg String.toList (Component.name.inj hprefix.1)
  rw [String.toList_append, List.self_eq_append_right, String.toList_eq_nil_iff] at hsame
  exact hextra hsame

/-! ### Characters -/

theorem mem_of_mem_splitSegments {c : Char} {l : List Char}
    (h : c ∈ (splitSegments l).1 ∨ ∃ s ∈ (splitSegments l).2, c ∈ s) : c ∈ l := by
  induction l with
  | nil => simp [splitSegments] at h
  | cons d l ih =>
    rw [splitSegments] at h
    by_cases hd : d = '/'
    · simp only [hd, if_true, List.mem_cons, exists_eq_or_imp, List.not_mem_nil, false_or] at h
      exact List.mem_cons_of_mem _ (ih h)
    · simp only [hd, if_false, List.mem_cons, or_assoc] at h
      exact List.mem_cons.mpr (h.imp_right ih)

theorem mem_text_of_mem_segments {p : Path} {s : String} {c : Char} (hs : s ∈ p.segments)
    (hc : c ∈ s.toList) : c ∈ p.text.toList := by
  apply mem_of_mem_splitSegments
  rcases List.mem_cons.mp hs with rfl | hs
  · rw [firstSegment, String.toList_ofList] at hc
    exact .inl hc
  · obtain ⟨cs, hcs, rfl⟩ := List.mem_map.mp hs
    rw [String.toList_ofList] at hc
    exact .inr ⟨cs, hcs, hc⟩

theorem mem_of_mem_joinSegments {segments : List String} {c : Char} (hc : c ≠ '/')
    (h : c ∈ (joinSegments segments).toList) : ∃ s ∈ segments, c ∈ s.toList := by
  induction segments with
  | nil => simp [joinSegments] at h
  | cons s rest ih =>
    cases rest with
    | nil =>
      rw [joinSegments, String.intercalate_singleton] at h
      exact ⟨s, List.mem_singleton_self s, h⟩
    | cons t rest =>
      rw [joinSegments, String.intercalate_cons_cons, ← joinSegments] at h
      have hcases : c ∈ s.toList ∨ c ∈ (joinSegments (t :: rest)).toList := by
        simpa [hc] using h
      rcases hcases with hs | hrest
      · exact ⟨s, List.mem_cons_self, hs⟩
      · obtain ⟨u, hu, hcu⟩ := ih hrest
        exact ⟨u, List.mem_cons_of_mem _ hu, hcu⟩

/-- What a path is cut to has no characters but its own. -/
theorem mem_text_of_mem_relativeTo {p root : Path} {c : Char} (hc : c ≠ '/')
    (h : c ∈ (p.relativeTo root).text.toList) : c ∈ p.text.toList := by
  rw [relativeTo] at h
  split at h
  · split at h
    · rw [ofSegments] at h
      split at h
      · exact absurd (List.mem_singleton.mp h) hc
      · obtain ⟨s, hs, hcs⟩ := mem_of_mem_joinSegments hc h
        refine mem_text_of_mem_segments (List.mem_cons.mpr ?_) hcs
        exact (List.mem_cons.mp hs).imp_right mem_of_mem_trimEnd
    · obtain ⟨s, hs, hcs⟩ := mem_of_mem_joinSegments hc h
      have hmem := (List.dropWhile_sublist _).mem (mem_of_mem_trimEnd hs)
      exact mem_text_of_mem_segments
        (List.mem_cons_of_mem _ (mem_of_mem_dropComponents hmem)) hcs
  · exact h

/-! ### The whole of it -/

/-- **A path is seen from a directory by its components.** If it begins with those of the directory,
the rest of it has the others, and the directory joined with the rest is the path again, as far as
components go. Otherwise it stays as it is written, in particular if the directory is only how its
text begins. Separators may be repeated or stand at the end, `.` counts only where a path begins,
and `..` is a component like a name. -/
theorem relativeTo_by_components (p root : Path) :
    (root.components <+: p.components →
      p.components = root.components ++ (p.relativeTo root).components ∧
        (root.join (p.relativeTo root)).components = p.components) ∧
    (¬root.components <+: p.components → p.relativeTo root = p) ∧
    (∀ (folder : Path) (name more : String), IsName name → more ≠ "" → isAbsolute ⟨more⟩ = false →
      root = folder.join ⟨name⟩ → p = ⟨root.text ++ more⟩ → p.relativeTo root = p) ∧
    ∀ a b : String,
      components ⟨a ++ "//" ++ b⟩ = components ⟨a ++ "/" ++ b⟩ ∧
      components ⟨a ++ "/./" ++ b⟩ = components ⟨a ++ "/" ++ b⟩ ∧
      (a ≠ "" → components ⟨a ++ "/"⟩ = components ⟨a⟩) ∧
      components ⟨"./" ++ b⟩ = .here :: (segments ⟨b⟩).filterMap Component.ofInner? ∧
      components ⟨a ++ "/../" ++ b⟩ =
        components ⟨a ++ "/"⟩ ++ .up :: (segments ⟨b⟩).filterMap Component.ofInner? := by
  refine ⟨fun h => ⟨?_, join_relativeTo h⟩, relativeTo_of_not_prefix, ?_, fun a b => ?_⟩
  · obtain ⟨rest, hrest⟩ := h
    rw [components_relativeTo ⟨rest, hrest⟩, ← hrest, List.drop_left]
  · rintro folder name more hname hmore hslash rfl rfl
    exact relativeTo_of_longer_name folder hname hmore hslash
  · exact ⟨components_repeated a b, components_inner_dot a b, components_trailing,
      components_leading_dot b, components_up a b⟩

/-- A directory that is written in another way than in the path, and one whose name goes on. -/
theorem relativeTo_by_components_of_spellings :
    let root : Path := ⟨"/proj/./"⟩
    let p : Path := ⟨"/proj//.//src/../a.js/"⟩
    let other : Path := ⟨"/project/a.js"⟩
    root.components <+: p.components ∧ p.relativeTo root = ⟨"src/../a.js"⟩ ∧
      root.join (p.relativeTo root) = ⟨"/proj/./src/../a.js"⟩ ∧
      (root.join (p.relativeTo root)).components = p.components ∧
      ¬root.components <+: other.components ∧ other.relativeTo root = other ∧
      other.relativeTo ⟨"/proj"⟩ = other ∧ components ⟨"/proj/"⟩ = components ⟨"/proj"⟩ := by
  intro root p other
  have hp : root.components <+: p.components := by decide +kernel
  have hother : ¬root.components <+: other.components := by decide +kernel
  obtain ⟨hinside, -, -, hspelling⟩ := relativeTo_by_components p root
  obtain ⟨-, houtside, -, -⟩ := relativeTo_by_components other root
  obtain ⟨-, -, hlonger, -⟩ := relativeTo_by_components other ⟨"/proj"⟩
  refine ⟨hp, by decide +kernel, by decide +kernel, (hinside hp).2, hother, houtside hother, ?_, ?_⟩
  · exact hlonger ⟨"/"⟩ "proj" "ect/a.js" (by decide) (by decide) (by decide) (by decide) (by decide)
  · exact (hspelling "/proj" "").2.2.1 (by decide)

end ArityCheck.Path
