import Mathlib.Data.List.Dedup
import ArityCheck.Proofs.Config.Source

/-! Whether the configuration in use lies at or above what is analyzed.

The search goes through the directories of a path as it is written, and never takes a `..` together
with the name before it. So it also looks into directories that the path only passes through, and a
configuration there is used for files that lie elsewhere (`findProject?_leaves_target`).
`findProject?_inside` says for which paths that cannot happen, whatever the file system holds: for
those that never leave a directory for good, and for them only. -/
namespace ArityCheck

/-! ### Paths that stay inside -/

namespace Path

variable {p q : Path}

/-- Every directory at or above the path as it is written is at or above where the path leads. -/
def Descends (p : Path) : Prop := ∀ q ∈ p.ancestors, q.resolved <+: p.resolved

instance (p : Path) : Decidable p.Descends :=
  inferInstanceAs (Decidable (∀ q ∈ p.ancestors, q.resolved <+: p.resolved))

theorem resolved_eq_tail (hp : p.isAbsolute = true) :
    p.resolved = p.components.tail.foldl goOn [] := by
  rw [resolved, components_of_isAbsolute hp]
  rfl

theorem components_prefix_of_mem_ancestors (hp : p.isAbsolute = true) (hq : q ∈ p.ancestors) :
    q.components <+: p.components := by
  have hmem : q.components ∈ p.ancestors.map components := List.mem_map_of_mem hq
  rw [map_components_ancestors hp, List.mem_reverse] at hmem
  exact (List.mem_inits _ _).mp (List.mem_of_mem_tail hmem)

theorem exists_mem_ancestors (hp : p.isAbsolute = true) {front : List Component}
    (hne : front ≠ []) (h : front <+: p.components) :
    ∃ q ∈ p.ancestors, q.components = front := by
  have hmem : front ∈ p.components.inits.tail := by
    have hinits := (List.mem_inits _ _).mpr h
    rw [components_of_isAbsolute hp, List.inits_cons] at hinits ⊢
    exact (List.mem_cons.mp hinits).resolve_left hne
  rw [← List.mem_reverse, ← map_components_ancestors hp] at hmem
  exact List.mem_map.mp hmem

theorem prefix_foldl_goOn {cs : List Component} (h : ∀ c ∈ cs, ∃ text, c = .name text)
    (names : List String) : names <+: cs.foldl goOn names := by
  induction cs generalizing names with
  | nil => exact List.prefix_rfl
  | cons c cs ih =>
    obtain ⟨text, rfl⟩ := h c List.mem_cons_self
    exact (List.prefix_append names [text]).trans
      (ih (fun c hc => h c (List.mem_cons_of_mem _ hc)) _)

/-- Without steps up, nothing is left. -/
theorem descends_of_not_mem_up (hp : p.isAbsolute = true) (h : .up ∉ p.components) :
    p.Descends := by
  intro q hq
  have hq' := isAbsolute_of_mem_ancestors hp hq
  obtain ⟨more, hmore⟩ := components_prefix_of_mem_ancestors hp hq
  rw [resolved, resolved, ← hmore, List.foldl_append]
  refine prefix_foldl_goOn (fun c hc => ?_) _
  have hinner : c ∈ p.innerSegments.filterMap Component.ofInner? := by
    rw [components_of_isAbsolute hp, components_of_isAbsolute hq', List.cons_append] at hmore
    rw [← (List.cons.inj hmore).2]
    exact List.mem_append_right _ hc
  obtain ⟨s, -, hs⟩ := List.mem_filterMap.mp hinner
  rcases Component.ofInner?_eq_some hs with rfl | rfl
  · exact absurd (hmore ▸ List.mem_append_right _ hc) h
  · exact ⟨s, rfl⟩

/-- A place below another one is reached through it. -/
theorem not_prefix_foldl_goOn {cs : List Component} {names : List String}
    (h : ∀ front, front <+: cs → front.foldl goOn [] ≠ names) :
    ¬names <+: cs.foldl goOn [] := by
  induction cs using List.reverseRecOn with
  | nil =>
    intro hnil
    exact h [] List.nil_prefix (List.prefix_nil.mp hnil).symm
  | append_singleton cs c ih =>
    have hfront := ih fun front hfront => h front (hfront.trans (List.prefix_append _ _))
    have hself := h _ List.prefix_rfl
    rw [List.foldl_append] at hself ⊢
    cases c with
    | root => exact fun hroot => hself (List.prefix_nil.mp hroot).symm
    | here => exact hfront
    | up => exact fun hup => hfront (hup.trans <| List.dropLast_prefix _)
    | name text =>
      intro hname
      rcases List.prefix_concat_iff.mp hname with heq | hname
      · exact hself heq.symm
      · exact hfront hname

/-- Of the beginnings of a list with some property, one is the first. -/
theorem exists_first {P : List Component → Prop} {cs : List Component}
    (h : ∃ front, front <+: cs ∧ P front) :
    ∃ front, front <+: cs ∧ P front ∧ ∀ f, f <+: front → P f → f = front := by
  induction cs using List.reverseRecOn with
  | nil =>
    obtain ⟨front, hfront, hP⟩ := h
    obtain rfl := List.prefix_nil.mp hfront
    exact ⟨[], List.prefix_rfl, hP, fun f hf _ => List.prefix_nil.mp hf⟩
  | append_singleton cs c ih =>
    by_cases hearlier : ∃ front, front <+: cs ∧ P front
    · obtain ⟨front, hfront, hfirst⟩ := ih hearlier
      exact ⟨front, hfront.trans (List.prefix_append _ _), hfirst⟩
    · obtain ⟨front, hfront, hP⟩ := h
      rcases List.prefix_concat_iff.mp hfront with rfl | hfront
      · refine ⟨_, List.prefix_rfl, hP, fun f hf hPf => ?_⟩
        exact (List.prefix_concat_iff.mp hf).resolve_right fun hf => hearlier ⟨f, hf, hPf⟩
      · exact absurd ⟨front, hfront, hP⟩ hearlier

/-- Of the directories at and above a path, one is the first at the place of another. -/
theorem exists_first_arrival (hp : p.isAbsolute = true) (hq : q ∈ p.ancestors) :
    ∃ r ∈ p.ancestors, r.resolved = q.resolved ∧
      ∀ f, f <+: r.components.tail → f.foldl goOn [] = q.resolved → f = r.components.tail := by
  have hcomponents := components_of_isAbsolute (isAbsolute_of_mem_ancestors hp hq)
  have hway := components_prefix_of_mem_ancestors hp hq
  have hinner : q.components.tail <+: p.components.tail := by
    rw [components_of_isAbsolute hp, hcomponents, List.cons_prefix_cons] at hway
    rw [components_of_isAbsolute hp, hcomponents]
    exact hway.2
  obtain ⟨front, hfront, harrives, hfirst⟩ :=
    exists_first (P := fun cs => cs.foldl goOn [] = q.resolved)
      ⟨_, hinner, (resolved_eq_tail (isAbsolute_of_mem_ancestors hp hq)).symm⟩
  obtain ⟨r, hr, hr_components⟩ := exists_mem_ancestors hp (List.cons_ne_nil .root front) (by
    rw [components_of_isAbsolute hp, List.cons_prefix_cons]
    rw [components_of_isAbsolute hp] at hfront
    exact ⟨rfl, hfront⟩)
  refine ⟨r, hr, ?_, by rwa [hr_components]⟩
  rw [resolved, hr_components]
  exact harrives

/-- The names that occur in a path. -/
def names (p : Path) : List String :=
  p.components.filterMap fun
    | .name text => some text
    | _ => none

theorem isName_of_mem_names (hp : p.isAbsolute = true) {name : String} (h : name ∈ p.names) :
    IsName name := by
  obtain ⟨c, hc, hname⟩ := List.mem_filterMap.mp h
  cases c with
  | root | here | up => cases hname
  | name text =>
    obtain rfl := Option.some.inj hname
    rw [components_of_isAbsolute hp] at hc
    obtain ⟨s, hs, heq⟩ := List.mem_filterMap.mp ((List.mem_cons.mp hc).resolve_left (by simp))
    have hslash := not_mem_innerSegments p s hs
    rw [Component.ofInner?] at heq
    grind [IsName]

/-- Components lead through the names among them, one for each of them at most. -/
theorem foldl_goOn_bounds (cs : List Component) :
    (∀ name ∈ cs.foldl goOn [], .name name ∈ cs) ∧ (cs.foldl goOn []).length ≤ cs.length := by
  induction cs using List.reverseRecOn with
  | nil => simp
  | append_singleton cs c ih =>
    obtain ⟨hmem, hlength⟩ := ih
    rw [List.foldl_append, List.length_append]
    cases c with
    | root => simp [goOn]
    | here =>
      exact ⟨fun name hname => List.mem_append_left _ (hmem name hname),
        hlength.trans (Nat.le_add_right _ _)⟩
    | up =>
      refine ⟨fun name hname => List.mem_append_left _ (hmem name ?_), ?_⟩
      · exact List.mem_of_mem_dropLast hname
      · exact (List.dropLast_sublist _).length_le.trans (hlength.trans (Nat.le_add_right _ _))
    | name text =>
      refine ⟨fun name hname => ?_, by simpa [goOn] using hlength⟩
      rcases List.mem_append.mp hname with hname | hname
      · exact List.mem_append_left _ (hmem name hname)
      · rw [List.mem_singleton.mp hname]
        simp

end Path

/-! ### A file system with one configuration -/

/-- Folders of some names in each other, down to a depth. The one at the marked names has a
configuration file, and nothing else is in it. -/
def Node.planted (names marked : List String) : Nat → List String → Node
  | 0, _ => .folder []
  | depth + 1, here =>
    if here = marked then .folder [("arity-lint.toml", .file ⟨#[]⟩)]
    else .folder (names.map fun name => (name, planted names marked depth (here ++ [name])))

namespace Node

variable {names marked here path : List String} {depth : Nat}

theorem wellFormed_planted (hnodup : names.Nodup) (hnames : ∀ name ∈ names, Path.IsName name) :
    (planted names marked depth here).WellFormed := by
  induction depth generalizing here with
  | zero => exact .folder [] List.nodup_nil (by simp) (by simp)
  | succ depth ih =>
    rw [planted]
    split
    · refine .folder _ (by simp) ?_ ?_
      · simpa using Config.Source.isName_of_mem_projectNames (by decide)
      · simpa using WellFormed.file _
    · refine .folder _ ?_ ?_ ?_
      · rw [List.map_map]
        exact (List.map_id names).symm ▸ hnodup
      · simpa using hnames
      · rintro e he
        obtain ⟨name, -, rfl⟩ := List.mem_map.mp he
        exact ih

theorem find?_map (f : String → Node) (name : String) (names : List String) :
    find? name (names.map fun n => (n, f n)) = if name ∈ names then some (f name) else none := by
  induction names with
  | nil => rfl
  | cons first names ih =>
    rw [List.map_cons, find?, ih]
    grind

theorem child?_planted (hhere : here ≠ marked) (name : String) :
    (planted names marked (depth + 1) here).child? name =
      if name ∈ names then some (planted names marked depth (here ++ [name])) else none := by
  rw [planted, if_neg hhere, child?, find?_map]

theorem exists_planted_eq_folder (names marked : List String) (depth : Nat) (here : List String) :
    ∃ entries, planted names marked depth here = .folder entries := by
  cases depth with
  | zero => exact ⟨_, rfl⟩
  | succ depth =>
    rw [planted]
    split
    all_goals exact ⟨_, rfl⟩

/-- There are folders at all names, unless the way to them goes on from the marked ones. -/
theorem at?_planted (hpath : ∀ name ∈ path, name ∈ names) (hdepth : path.length ≤ depth)
    (hmarked : ∀ front, front <+: path → here ++ front = marked → front = path) :
    (planted names marked depth here).at? path =
      some (planted names marked (depth - path.length) (here ++ path)) := by
  induction path generalizing here depth with
  | nil => simp [at?]
  | cons name path ih =>
    obtain ⟨depth, rfl⟩ : ∃ d, depth = d + 1 := ⟨depth - 1, by simp at hdepth; omega⟩
    have hhere : here ≠ marked := by
      rintro rfl
      cases hmarked [] List.nil_prefix (List.append_nil _)
    rw [at?, child?_planted hhere, if_pos (hpath name List.mem_cons_self), Option.bind_some, ih]
    · simp
    · exact fun n hn => hpath n (List.mem_cons_of_mem _ hn)
    · simpa using hdepth
    · intro front hfront heq
      have hend := hmarked (name :: front) (List.cons_prefix_cons.mpr ⟨rfl, hfront⟩)
        (by simpa using heq)
      exact (List.cons.inj hend).2

theorem eq_file_of_at? {content : ByteArray} {node : Node}
    (h : (Node.file content).at? path = some node) : node = .file content := by
  cases path with
  | nil => exact (Option.some.inj h).symm
  | cons name path => cases h

/-- Only the folder at the marked names holds a file. -/
theorem eq_marked_of_at?_planted {node : Node} {name : String} {content : ByteArray}
    (hnode : (planted names marked depth here).at? path = some node)
    (hfile : node.child? name = some (.file content)) : here ++ path = marked := by
  induction path generalizing here depth with
  | nil =>
    obtain rfl := Option.some.inj hnode
    cases depth with
    | zero => cases hfile
    | succ depth =>
      by_contra hhere
      rw [List.append_nil] at hhere
      rw [child?_planted hhere] at hfile
      obtain ⟨entries, hentries⟩ := exists_planted_eq_folder names marked depth (here ++ [name])
      simp [hentries] at hfile
  | cons first path ih =>
    cases depth with
    | zero => cases hnode
    | succ depth =>
      by_cases hhere : here = marked
      · -- Below the marked folder there is only a file, which holds nothing.
        rw [planted, if_pos hhere, at?, child?, find?] at hnode
        split at hnode
        · obtain rfl := eq_file_of_at? hnode
          cases hfile
        · cases hnode
      · rw [at?, child?_planted hhere] at hnode
        obtain ⟨child, hchild, hnode⟩ := Option.bind_eq_some_iff.mp hnode
        obtain ⟨-, rfl⟩ : first ∈ names ∧ planted names marked depth (here ++ [first]) = child := by
          simpa using hchild
        simpa using ih hnode

/-- On a way that comes to the marked names at its end only, there are folders everywhere: it has
not been below them before. -/
theorem at?_planted_on_way {front way : List Component}
    (hnames : ∀ name, .name name ∈ way → name ∈ names) (hdepth : way.length ≤ depth)
    (harrives : way.foldl Path.goOn [] = marked)
    (hfirst : ∀ f, f <+: way → f.foldl Path.goOn [] = marked → f = way) (hfront : front <+: way) :
    (planted names marked depth []).at? (front.foldl Path.goOn []) =
      some (planted names marked (depth - (front.foldl Path.goOn []).length)
        (front.foldl Path.goOn [])) := by
  obtain ⟨hmem, hlength⟩ := Path.foldl_goOn_bounds front
  refine at?_planted (fun name h => hnames name (hfront.subset (hmem name h)))
    (hlength.trans (hfront.length_le.trans hdepth)) ?_
  rintro f hf rfl
  by_cases hend : front = way
  · rw [hend, harrives, List.nil_append]
  · refine absurd hf (Path.not_prefix_foldl_goOn fun g hg hmarked => hend ?_)
    have hway := hfirst g (hg.trans hfront) hmarked
    exact hfront.eq_of_length_le (hway ▸ hg.length_le)

end Node

namespace Path

/-- All folders that a path may lead through, with a configuration file at one place only. -/
def grove (p : Path) (marked : List String) : Node :=
  .planted p.names.dedup marked p.components.length []

variable {p q r : Path} {cwd : Path} {marked : List String}

theorem wellFormed_grove (hp : p.isAbsolute = true) (marked : List String) :
    (p.grove marked).WellFormed :=
  Node.wellFormed_planted (List.nodup_dedup _)
    fun _ hname => isName_of_mem_names hp (List.mem_dedup.mp hname)

/-- The file is held by the folder in which the path comes to the marked names first. -/
theorem holds_grove (hp : p.isAbsolute = true) (hr : r ∈ p.ancestors)
    (harrives : r.resolved = marked)
    (hfirst : ∀ f, f <+: r.components.tail → f.foldl goOn [] = marked → f = r.components.tail)
    (cwd : Path) : FileSystem.Holds ⟨p.grove marked, cwd⟩ r "arity-lint.toml" := by
  have hr_absolute := isAbsolute_of_mem_ancestors hp hr
  have hr_prefix := components_prefix_of_mem_ancestors hp hr
  have htail := resolved_eq_tail hr_absolute
  have hnames : ∀ name, .name name ∈ r.components.tail → name ∈ p.names.dedup := by
    intro name hname
    rw [List.mem_dedup]
    exact List.mem_filterMap.mpr ⟨_, hr_prefix.subset (List.mem_of_mem_tail hname), rfl⟩
  have hdepth : r.components.tail.length < p.components.length := by
    refine Nat.lt_of_lt_of_le ?_ hr_prefix.length_le
    rw [components_of_isAbsolute hr_absolute]
    exact Nat.lt_succ_self _
  have hway {front : List Component} (hfront : front <+: r.components.tail) :=
    Node.at?_planted_on_way hnames hdepth.le (htail.symm.trans harrives) hfirst hfront
  obtain ⟨place, hplace⟩ := FileSystem.exists_resolve ⟨p.grove marked, cwd⟩ hr_absolute
    fun front hfront => by
      obtain ⟨entries, hentries⟩ := Node.exists_planted_eq_folder p.names.dedup marked
        (p.components.length - (front.foldl goOn []).length) (front.foldl goOn [])
      exact ⟨entries, hentries ▸ hway hfront⟩
  have hnode := (FileSystem.reached_of_resolve hr_absolute hplace).at?.symm.trans
    (htail ▸ hway List.prefix_rfl)
  have hlength := (foldl_goOn_bounds r.components.tail).2
  rw [← htail] at hlength
  obtain ⟨depth, hdepth⟩ : ∃ d, p.components.length - r.resolved.length = d + 1 :=
    ⟨p.components.length - r.resolved.length - 1, by omega⟩
  refine ⟨place, ⟨#[]⟩, hplace, ?_⟩
  rw [Option.some.inj hnode, hdepth, Node.planted, if_pos harrives, Node.child?, Node.find?,
    if_pos rfl]

/-- No other folder holds a file. -/
theorem resolved_eq_of_holds_grove (hq : q.isAbsolute = true) {name : String}
    (h : FileSystem.Holds ⟨p.grove marked, cwd⟩ q name) : q.resolved = marked := by
  obtain ⟨place, content, hplace, hchild⟩ := h
  exact Node.eq_marked_of_at?_planted (FileSystem.reached_of_resolve hq hplace).at? hchild

end Path

/-! ### The search -/

namespace Config.Source

variable {fs : FileSystem} {cwd target f dir : Path} {name : String}

/-- A file that is found lies in a directory of the way, where its names lead to it. -/
theorem exists_dir_of_findProject? (fs : FileSystem) (hcwd : fs.cwd.isAbsolute = true)
    (h : findProject? fs target = some f) :
    ∃ dir ∈ (fs.absolute target).ancestors, ∃ name, fs.Holds dir name ∧
      ∃ parent, f.parent? = some parent ∧ parent.resolved = dir.resolved ∧
        f.resolved = dir.resolved ++ [name] := by
  obtain ⟨nearer, farther, dir, name, hway, -, ⟨hname, hholds, -⟩, rfl⟩ := exists_nearest hcwd h
  have hmem : dir ∈ (fs.absolute target).ancestors := by simp [hway]
  have hdir := isAbsolute_of_mem_way hcwd hmem
  have hcomponents := Path.components_join dir (isName_of_mem_projectNames hname)
  refine ⟨dir, hmem, name, hholds, ?_⟩
  rcases Path.parent?_of_isAbsolute (Path.isAbsolute_join hdir ⟨name⟩) with
    ⟨-, hroot⟩ | ⟨parent, c, hparent, -, hsplit⟩
  · simp [hcomponents, Path.components_of_isAbsolute hdir] at hroot
  · have hfront := List.append_inj_left' (hsplit.symm.trans hcomponents) rfl
    refine ⟨parent, hparent, ?_, ?_⟩
    · rw [Path.resolved, hfront, ← Path.resolved]
    · rw [Path.resolved, hcomponents, List.foldl_append, ← Path.resolved]
      rfl

/-- If all files are at one place and the way comes there, the file that is found is there. -/
theorem exists_findProject?_of_only (fs : FileSystem) (hcwd : fs.cwd.isAbsolute = true)
    (hdir : dir ∈ (fs.absolute target).ancestors) (hholds : fs.Holds dir "arity-lint.toml")
    {names : List String}
    (honly : ∀ d name, d.isAbsolute = true → fs.Holds d name → d.resolved = names) :
    ∃ f parent, findProject? fs target = some f ∧ f.parent? = some parent ∧
      parent.resolved = names := by
  have hfound : findProject? fs target ≠ none := by
    rw [Ne, findProject?_eq_none_iff hcwd]
    exact fun hbare => hbare dir hdir _ (by decide) hholds
  obtain ⟨f, hf⟩ := Option.ne_none_iff_exists'.mp hfound
  obtain ⟨d, hd, name, hd_holds, parent, hparent, hresolved, -⟩ :=
    exists_dir_of_findProject? fs hcwd hf
  exact ⟨f, parent, hf, hparent,
    hresolved.trans (honly d name (isAbsolute_of_mem_way hcwd hd) hd_holds)⟩

/-- **Any directory of the way may be the one that decides**: there is a file system in which the
file that is found lies there. -/
theorem exists_findProject?_in (hcwd : cwd.isAbsolute = true)
    (hdir : dir ∈ (cwd.join target).ancestors) :
    ∃ root : Node, root.WellFormed ∧ ∃ f parent, findProject? ⟨root, cwd⟩ target = some f ∧
      f.parent? = some parent ∧ parent.resolved = dir.resolved := by
  have hp := Path.isAbsolute_join hcwd target
  -- The way may come to that place more than once: the first time nothing is in the way.
  obtain ⟨r, hr, harrives, hfirst⟩ := Path.exists_first_arrival hp hdir
  have hholds := Path.holds_grove hp hr harrives hfirst cwd
  exact ⟨_, Path.wellFormed_grove hp dir.resolved,
    exists_findProject?_of_only ⟨(cwd.join target).grove dir.resolved, cwd⟩ hcwd hr hholds
      fun d name hd hd_holds => Path.resolved_eq_of_holds_grove hd hd_holds⟩

/-- **A configuration in use lies at or above the target, whatever the file system holds, exactly
if the target as it is written goes through no directory that it leaves for good.** It does so
without steps up. The file is where its path leads to. -/
theorem findProject?_inside (hcwd : cwd.isAbsolute = true) (target : Path) :
    ((∀ root : Node, root.WellFormed → ∀ f, findProject? ⟨root, cwd⟩ target = some f →
        ∃ parent, f.parent? = some parent ∧ parent.resolved <+: (cwd.join target).resolved) ↔
      (cwd.join target).Descends) ∧
    (.up ∉ (cwd.join target).components → (cwd.join target).Descends) ∧
    ∀ root f, findProject? ⟨root, cwd⟩ target = some f →
      ∃ content, root.at? f.resolved = some (.file content) := by
  have hp := Path.isAbsolute_join hcwd target
  refine ⟨⟨fun h dir hdir => ?_, fun h root _ f hf => ?_⟩, Path.descends_of_not_mem_up hp,
    fun root f hf => ?_⟩
  · obtain ⟨root, hroot, f, parent, hf, hparent, hresolved⟩ := exists_findProject?_in hcwd hdir
    obtain ⟨parent', hparent', hinside⟩ := h root hroot f hf
    obtain rfl := Option.some.inj (hparent.symm.trans hparent')
    rwa [← hresolved]
  · obtain ⟨dir, hdir, -, -, parent, hparent, hresolved, -⟩ :=
      exists_dir_of_findProject? ⟨root, cwd⟩ hcwd hf
    refine ⟨parent, hparent, ?_⟩
    rw [hresolved]
    exact h dir hdir
  · obtain ⟨dir, hdir, name, hholds, -, -, -, hresolved⟩ :=
      exists_dir_of_findProject? ⟨root, cwd⟩ hcwd hf
    rw [hresolved]
    exact hholds.exists_at? (Path.isAbsolute_of_mem_ancestors hp hdir)

/-- A directory that the way leaves and comes back to. -/
theorem findProject?_inside_of_detour :
    (⟨"/w"⟩ : Path).isAbsolute = true ∧
      ∀ root : Node, root.WellFormed → ∀ f,
        findProject? ⟨root, ⟨"/w"⟩⟩ ⟨"app/../app/./src"⟩ = some f →
        ∃ parent, f.parent? = some parent ∧ parent.resolved <+: ["w", "app", "src"] := by
  have hcwd : (⟨"/w"⟩ : Path).isAbsolute = true := by decide
  have hdescends : ((⟨"/w"⟩ : Path).join ⟨"app/../app/./src"⟩).Descends := by decide +kernel
  have hresolved : ((⟨"/w"⟩ : Path).join ⟨"app/../app/./src"⟩).resolved = ["w", "app", "src"] := by
    decide +kernel
  exact ⟨hcwd, hresolved ▸ (findProject?_inside hcwd _).1.mpr hdescends⟩

/-- From a directory with a configuration the one above it is analyzed, and the configuration is
used for all that lies there. -/
theorem findProject?_leaves_target :
    let fs : FileSystem := ⟨.folder [("w", .folder [
      ("app", .folder [("arity-lint.toml", .file ⟨#[]⟩)]), ("lib", .folder [])])], ⟨"/w/app"⟩⟩
    findProject? fs ⟨".."⟩ = some ⟨"/w/app/arity-lint.toml"⟩ ∧
      Path.parent? ⟨"/w/app/arity-lint.toml"⟩ = some ⟨"/w/app"⟩ ∧
      ¬Path.resolved ⟨"/w/app"⟩ <+: (fs.absolute ⟨".."⟩).resolved := by
  decide +kernel

end Config.Source

end ArityCheck
