import ArityCheck.FileSystem.Walk
import ArityCheck.Proofs.Path.Components

/-! What a walk finds in a file system that is a tree of names.

In a well-formed file system the names in a folder are different from each other, and none of them
is empty, has a separator, or means the folder itself or the one above. That is what operating
systems promise, and putting nodes at such names keeps it (`WellFormed.graft`). A walk through it
finds paths that go on from the one it begins with, and no two of them have the same components
(`FileSystem.walk_spec`). -/

namespace ArityCheck

/-! ### Well-formed trees -/

inductive Node.WellFormed : Node → Prop
  | file (content : ByteArray) : WellFormed (.file content)
  | folder (entries : List (String × Node)) (distinct : (entries.map Prod.fst).Nodup)
      (named : ∀ e ∈ entries, Path.IsName e.1) (below : ∀ e ∈ entries, WellFormed e.2) :
      WellFormed (.folder entries)

namespace Node

theorem mem_of_find? {name : String} {node : Node} {entries : List (String × Node)}
    (h : find? name entries = some node) : (name, node) ∈ entries := by
  fun_induction find? name entries with
  | case1 => nomatch h
  | case2 n entries =>
    cases h
    exact List.mem_cons_self
  | case3 k n entries hk ih => exact List.mem_cons_of_mem _ (ih h)

theorem WellFormed.entries {n : Node} (h : n.WellFormed) :
    (n.entries.map Prod.fst).Nodup ∧ (∀ e ∈ n.entries, Path.IsName e.1) ∧
      ∀ e ∈ n.entries, e.2.WellFormed := by
  cases h with
  | file content => simp [Node.entries]
  | folder entries distinct named below => exact ⟨distinct, named, below⟩

theorem WellFormed.graft {node : Node} (hnode : node.WellFormed) {names : List String}
    (hnames : ∀ name ∈ names, Path.IsName name) {holder : Node} (hholder : holder.WellFormed) :
    (Node.graft node names holder).WellFormed := by
  induction names generalizing holder with
  | nil => exact hnode
  | cons name names ih =>
    obtain ⟨distinct, named, below⟩ := hholder.entries
    have hchild : ((find? name holder.entries).getD (.folder [])).WellFormed := by
      cases hfind : find? name holder.entries with
      | none => exact .folder [] List.nodup_nil (by simp) (by simp)
      | some child => exact below _ (mem_of_find? hfind)
    refine .folder _ ?_ ?_ ?_
    · rw [List.map_append, List.nodup_append]
      refine ⟨(List.filter_sublist.map _).nodup distinct, by simp, ?_⟩
      intro a ha b hb
      obtain ⟨e, he, rfl⟩ := List.mem_map.mp ha
      obtain rfl : b = name := by simpa using hb
      simpa using (List.mem_filter.mp he).2
    · intro e he
      rcases List.mem_append.mp he with he | he
      · exact named e (List.mem_filter.mp he).1
      · obtain rfl := List.mem_singleton.mp he
        exact hnames name List.mem_cons_self
    · intro e he
      rcases List.mem_append.mp he with he | he
      · exact below e (List.mem_filter.mp he).1
      · obtain rfl := List.mem_singleton.mp he
        exact ih (fun n hn => hnames n (List.mem_cons_of_mem name hn)) hchild

end Node

/-! ### Following a path -/

namespace Place

/-- A place in a well-formed tree. -/
structure WellFormed (p : Place) : Prop where
  node : p.node.WellFormed
  holders : ∀ h ∈ p.holders, h.2.WellFormed

theorem WellFormed.follow {p q : Place} (h : p.WellFormed) {segment : String}
    (hfollow : p.follow segment = .ok q) : q.WellFormed := by
  obtain ⟨name, node, holders⟩ := p
  cases node with
  | file content => nomatch hfollow
  | folder entries =>
    simp only [Place.follow] at hfollow
    split at hfollow
    · cases hfollow
      exact h
    · split at hfollow
      · cases holders with
        | nil =>
          cases hfollow
          exact h
        | cons holder holders =>
          cases hfollow
          exact ⟨h.holders holder List.mem_cons_self,
            fun x hx => h.holders x (List.mem_cons_of_mem holder hx)⟩
      · cases hfind : Node.find? segment entries with
        | none => simp [hfind] at hfollow
        | some node =>
          obtain rfl : _ = q := by simpa [hfind] using hfollow
          refine ⟨h.node.entries.2.2 _ (Node.mem_of_find? hfind), fun x hx => ?_⟩
          rcases List.mem_cons.mp hx with rfl | hx
          · exact h.node
          · exact h.holders x hx

theorem WellFormed.followAll {p q : Place} (h : p.WellFormed) {segments : List String}
    (hfollow : segments.foldlM Place.follow p = .ok q) : q.WellFormed := by
  induction segments generalizing p with
  | nil =>
    cases hfollow
    exact h
  | cons s segments ih =>
    rw [List.foldlM_cons] at hfollow
    cases hstep : p.follow s with
    | error fault =>
      rw [hstep] at hfollow
      nomatch hfollow
    | ok next =>
      rw [hstep] at hfollow
      exact ih (h.follow hstep) hfollow

end Place

/-! ### Walking -/

namespace Walk

theorem entryFiles_eq_flatMap (respect : Bool) (levels : List Level) (folder : Path)
    (entries : List (String × Node)) :
    entryFiles respect levels folder entries =
      entries.flatMap fun e =>
        if isSkipped levels e.1 e.2.isFolder then []
        else files respect (enter levels e.1) (folder.join ⟨e.1⟩) e.2 := by
  induction entries with
  | nil => rw [entryFiles, List.flatMap_nil]
  | cons e entries ih => rw [entryFiles, ih, List.flatMap_cons]

/-- The files below an entry that is not skipped. -/
theorem mem_entryFiles {respect : Bool} {levels : List Level} {folder q : Path}
    {entries : List (String × Node)} (h : q ∈ entryFiles respect levels folder entries) :
    ∃ e ∈ entries, q ∈ files respect (enter levels e.1) (folder.join ⟨e.1⟩) e.2 := by
  rw [entryFiles_eq_flatMap] at h
  obtain ⟨e, he, hq⟩ := List.mem_flatMap.mp h
  refine ⟨e, he, ?_⟩
  split at hq
  · nomatch hq
  · exact hq

theorem components_prefix_of_mem_files {node : Node} (h : node.WellFormed) {respect : Bool}
    {levels : List Level} {path q : Path} (hq : q ∈ files respect levels path node) :
    path.components <+: q.components := by
  induction h generalizing levels path with
  | file content =>
    rw [files, List.mem_singleton] at hq
    exact hq ▸ List.prefix_rfl
  | folder entries distinct named below ih =>
    rw [files] at hq
    obtain ⟨e, he, hq⟩ := mem_entryFiles hq
    have hjoin := ih e he hq
    rw [Path.components_join path (named e he)] at hjoin
    exact (List.prefix_append _ _).trans hjoin

/-- Paths that go on from different names in one folder are different. -/
theorem components_ne_of_mem_files {respect : Bool} {entries : List (String × Node)}
    (named : ∀ e ∈ entries, Path.IsName e.1) (below : ∀ e ∈ entries, e.2.WellFormed)
    {levels₁ levels₂ : List Level} {folder p q : Path} {d e : String × Node} (hd : d ∈ entries)
    (he : e ∈ entries) (hne : d.1 ≠ e.1)
    (hp : p ∈ files respect levels₁ (folder.join ⟨d.1⟩) d.2)
    (hq : q ∈ files respect levels₂ (folder.join ⟨e.1⟩) e.2) : p.components ≠ q.components := by
  intro heq
  have hdp := components_prefix_of_mem_files (below d hd) hp
  have heq' := components_prefix_of_mem_files (below e he) hq
  rw [Path.components_join folder (named d hd)] at hdp
  rw [Path.components_join folder (named e he), ← heq] at heq'
  have hsame := List.prefix_of_prefix_length_le hdp heq' (by simp)
  have hlast := hsame.eq_of_length (by simp)
  exact hne (by simpa using hlast)

theorem entryFiles_pairwise {respect : Bool} {entries : List (String × Node)}
    (distinct : (entries.map Prod.fst).Nodup) (named : ∀ e ∈ entries, Path.IsName e.1)
    (below : ∀ e ∈ entries, e.2.WellFormed) {levels : List Level} {folder : Path}
    (h : ∀ e ∈ entries, (files respect (enter levels e.1) (folder.join ⟨e.1⟩) e.2).Pairwise
      fun p q => p.components ≠ q.components) :
    (entryFiles respect levels folder entries).Pairwise fun p q => p.components ≠ q.components := by
  rw [entryFiles_eq_flatMap, List.pairwise_flatMap]
  constructor
  · intro e he
    split
    · exact List.Pairwise.nil
    · exact h e he
  · refine (List.pairwise_map.mp distinct).imp_of_mem ?_
    intro d e hd he hne p hp q hq
    split at hp
    · nomatch hp
    · split at hq
      · nomatch hq
      · exact components_ne_of_mem_files named below hd he hne hp hq

theorem files_pairwise {node : Node} (h : node.WellFormed) {respect : Bool}
    {levels : List Level} {path : Path} :
    (files respect levels path node).Pairwise fun p q => p.components ≠ q.components := by
  induction h generalizing levels path with
  | file content =>
    rw [files]
    exact List.pairwise_singleton _ _
  | folder entries distinct named below ih =>
    rw [files]
    exact entryFiles_pairwise distinct named below fun e he => ih e he

end Walk

namespace FileSystem

/-- A file system that is a tree of names. -/
def WellFormed (fs : FileSystem) : Prop := fs.root.WellFormed

theorem WellFormed.resolve {fs : FileSystem} (h : fs.WellFormed) {path : Path} {place : Place}
    (hresolve : fs.resolve path = .ok place) : place.WellFormed := by
  have hroot : (Place.root fs.root).WellFormed := ⟨h, by simp [Place.root]⟩
  rw [FileSystem.resolve] at hresolve
  split at hresolve
  · nomatch hresolve
  · exact hroot.followAll hresolve

theorem walk_eq_ok_iff {fs : FileSystem} {path : Path} {respect : Bool} {found : List Path} :
    fs.walk path respect = .ok found ↔ ∃ place, fs.resolve path = .ok place ∧
      Walk.files respect (if respect then Walk.levelsAbove place.name place.holders else []) path
        place.node = found := by
  rw [walk]
  cases fs.resolve path with
  | error fault => simp [bind, Except.bind]
  | ok place => simp [bind, Except.bind, pure, Except.pure]

/-- **A walk finds paths that go on from where it begins, no two with the same components.** -/
theorem walk_spec {fs : FileSystem} (h : fs.WellFormed) {path : Path} {respect : Bool}
    {found : List Path} (hwalk : fs.walk path respect = .ok found) :
    (∀ p ∈ found, path.components <+: p.components) ∧
      found.Pairwise fun p q => p.components ≠ q.components := by
  obtain ⟨place, hresolve, rfl⟩ := walk_eq_ok_iff.mp hwalk
  have hplace := h.resolve hresolve
  exact ⟨fun p hp => Walk.components_prefix_of_mem_files hplace.node hp,
    Walk.files_pairwise hplace.node⟩

end FileSystem

end ArityCheck
