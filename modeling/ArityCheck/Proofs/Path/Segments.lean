import ArityCheck.Proofs.Path.Components

/-! The directories that a path leads through.

All segments of a path but its last one are directories that it leads through, and each of them
stands between separators. So whether a name is among them can be seen from the text alone
(`mem_dropLast_segments_iff`), and a path joined to a directory leads through the segments of that
directory and through its own (`mem_dropLast_segments_join`). -/
namespace ArityCheck.Path

/-! ### Segments in a text -/

/-- A text begins with a segment and a separator if that is its first segment and others follow. -/
theorem prefix_slash_iff {s : List Char} (hs : '/' ∉ s) (l : List Char) :
    s ++ ['/'] <+: l ↔ (splitSegments l).1 = s ∧ (splitSegments l).2 ≠ [] := by
  induction l generalizing s with
  | nil => simp [splitSegments]
  | cons c l ih =>
    rw [splitSegments]
    cases s with
    | nil =>
      by_cases hc : c = '/'
      · simp [hc]
      · simp [hc, Ne.symm hc]
    | cons d s =>
      obtain ⟨hd, hs⟩ := List.ne_and_not_mem_of_not_mem_cons hs
      rw [List.cons_append, List.cons_prefix_cons, ih hs]
      by_cases hc : c = '/'
      · subst hc
        simp [Ne.symm hd]
      · simp [hc, and_assoc, @eq_comm _ d c]

/-- What stands between two separators is a segment other than the first and the last. -/
theorem slash_infix_iff {s : List Char} (hs : '/' ∉ s) (l : List Char) :
    '/' :: s ++ ['/'] <:+: l ↔ s ∈ (splitSegments l).2.dropLast := by
  induction l with
  | nil => simp [splitSegments]
  | cons c l ih =>
    rw [List.infix_cons_iff, ih, List.cons_append, List.cons_prefix_cons, prefix_slash_iff hs,
      splitSegments]
    by_cases hc : c = '/'
    · subst hc
      cases hrest : (splitSegments l).2 with
      | nil => simp [hrest]
      | cons t rest => simp [hrest, @eq_comm _ s]
    · simp [hc, Ne.symm hc]

theorem segments_ne_nil (p : Path) : p.segments ≠ [] := List.cons_ne_nil _ _

/-- **A name is a directory that an absolute path leads through exactly if it stands between
separators.** -/
theorem mem_dropLast_segments_iff {p : Path} (hp : p.isAbsolute = true) {name : String}
    (hname : name ≠ "") (hslash : '/' ∉ name.toList) :
    name ∈ p.segments.dropLast ↔ '/' :: name.toList ++ ['/'] <:+: p.text.toList := by
  obtain ⟨hfirst, hinner⟩ := (isAbsolute_iff p).mp hp
  have hmem : name ∈ p.innerSegments.dropLast ↔
      name.toList ∈ (splitSegments p.text.toList).2.dropLast := by
    rw [innerSegments, ← List.map_dropLast, List.mem_map]
    constructor
    · rintro ⟨s, hs, rfl⟩
      simpa using hs
    · intro hs
      exact ⟨_, hs, String.ofList_toList⟩
  rw [slash_infix_iff hslash, ← hmem, segments, hfirst, List.dropLast_cons_of_ne_nil hinner,
    List.mem_cons, or_iff_right hname]

/-! ### Joining -/

theorem join_of_isAbsolute (p : Path) {q : Path} (hq : q.isAbsolute = true) : p.join q = q := by
  rw [join, if_pos hq]

theorem isAbsolute_join {p : Path} (hp : p.isAbsolute = true) (q : Path) :
    (p.join q).isAbsolute = true := by
  simp only [isAbsolute, beq_iff_eq] at hp
  rw [join]
  split
  · assumption
  · split
    all_goals simp [isAbsolute, hp]

/-- A path that is joined to a directory has the segments of both. If a separator ends the
directory, it is the one that they are joined with, and the segment after it falls away. -/
theorem exists_innerSegments_join {p q : Path} (hp : p.text ≠ "") (hq : q.isAbsolute = false) :
    ∃ inner, (p.innerSegments = inner ∨ p.innerSegments = inner ++ [""]) ∧
      (p.join q).segments = p.firstSegment :: (inner ++ q.segments) := by
  obtain ⟨text⟩ := p
  rw [join, if_neg (by simp [hq])]
  by_cases hslash : text.toList.getLast? = some '/'
  · obtain ⟨l, hl⟩ := List.getLast?_eq_some_iff.mp hslash
    obtain rfl : text = String.ofList l ++ "/" := by simp [← String.toList_inj, hl]
    have hdirectory := segments_append_slash (String.ofList l) ""
    rw [String.append_empty] at hdirectory
    obtain ⟨hfirst, hinner⟩ := List.cons.inj hdirectory
    rw [if_pos (by simp), segments_append_slash, hfirst]
    exact ⟨_, .inr hinner, rfl⟩
  · rw [if_neg (by simpa [hslash] using hp), segments_append_slash]
    exact ⟨_, .inl rfl, rfl⟩

/-- **A path that is joined to a directory leads through the segments of the directory**, and then
through its own. -/
theorem mem_dropLast_segments_join {p q : Path} (hp : p.text ≠ "") (hq : q.isAbsolute = false)
    {name : String} (hname : name ≠ "") :
    name ∈ (p.join q).segments.dropLast ↔ name ∈ p.segments ∨ name ∈ q.segments.dropLast := by
  obtain ⟨inner, hinner, hjoin⟩ := exists_innerSegments_join hp hq
  rw [hjoin, ← List.cons_append, List.dropLast_append_of_ne_nil (segments_ne_nil q),
    List.mem_append]
  refine or_congr_left ?_
  rcases hinner with hinner | hinner
  · rw [segments, hinner]
  · rw [segments, hinner]
    simp [hname]

/-! ### File names -/

/-- What follows the last separator of an absolute text. -/
theorem exists_last_segment (l : List Char) :
    ∃ front last, '/' :: l = front ++ '/' :: last ∧ '/' ∉ last := by
  obtain ⟨last, front, hreverse, hlast⟩ :=
    List.eq_append_cons_of_mem (List.mem_reverse.mpr (List.mem_cons_self : '/' ∈ '/' :: l))
  refine ⟨front.reverse, last.reverse, ?_, by simpa using hlast⟩
  rw [← List.reverse_reverse ('/' :: l), hreverse]
  simp

theorem fileName?_of_append (front : List Char) {name : String} (h : IsName name) :
    fileName? ⟨String.ofList (front ++ '/' :: name.toList)⟩ = some name := by
  have hcomponents := components_of_append (p := ⟨String.ofList (front ++ ['/'])⟩)
    (q := ⟨String.ofList (front ++ '/' :: name.toList)⟩) (.inl String.toList_ofList)
    String.toList_ofList
  rw [splitSegments_of_not_mem h.2.2.2] at hcomponents
  rw [fileName?, hcomponents]
  simp [h.ofInner?]

/-- The extension of a file that has a name before its last dot. -/
theorem extension?_of_append (front : List Char) {base ext : List Char} (hbase : base ≠ [])
    (hslash : '/' ∉ base ++ ext) (hext : ext ≠ []) (hdot : '.' ∉ ext) :
    extension? ⟨String.ofList (front ++ '/' :: (base ++ '.' :: ext))⟩ =
      some (String.ofList ext) := by
  have hname : IsName (String.ofList (base ++ '.' :: ext)) := by
    obtain ⟨c, base, rfl⟩ := List.exists_cons_of_ne_nil hbase
    obtain ⟨d, ext, rfl⟩ := List.exists_cons_of_ne_nil hext
    have hlength : 3 ≤ (c :: base ++ '.' :: d :: ext).length := by
      rw [List.length_append, List.length_cons, List.length_cons, List.length_cons]
      omega
    refine ⟨?_, ?_, ?_, by simpa using hslash⟩
    all_goals
      rw [Ne, ← String.toList_inj, String.toList_ofList]
      intro heq
      simp [heq] at hlength
  have hfile := fileName?_of_append front hname
  rw [String.toList_ofList] at hfile
  have hreverse : (base ++ '.' :: ext).reverse = ext.reverse ++ '.' :: base.reverse := by simp
  have htail : ∀ c ∈ ext.reverse, (c != '.') = true := by
    intro c hc
    rw [bne_iff_ne]
    rintro rfl
    exact hdot (List.mem_reverse.mp hc)
  rw [extension?, hfile]
  simp [hreverse, List.takeWhile_append_of_pos htail, List.dropWhile_append_of_pos htail, hbase]

end ArityCheck.Path
