import ArityCheck.Config.Source
import ArityCheck.Proofs.FileSystem.Places

/-! Which configuration a run uses.

Two searches are nested: through the directories from the target upwards, and through the names in
each of them. `Chosen` tells the outcome by what the directories hold: the nearest one with either
of the names decides, and the preferred name counts only within it. `resolve_chosen` says that this
is what a run does, and that nothing above the directory which decides is of any influence. -/
namespace ArityCheck.Config.Source

variable {fs : FileSystem} {target dir f : Path} {name : String} {source : Source}

/-! ### One directory -/

/-- The directory holds a configuration file of the name, and none of a name that is preferred. -/
def Offers (fs : FileSystem) (dir : Path) (name : String) : Prop :=
  name ∈ projectNames ∧ fs.Holds dir name ∧
    (name ≠ "arity-lint.toml" → ¬fs.Holds dir "arity-lint.toml")

/-- The directory holds no configuration file. -/
def Bare (fs : FileSystem) (dir : Path) : Prop := ∀ name ∈ projectNames, ¬fs.Holds dir name

theorem isName_of_mem_projectNames (h : name ∈ projectNames) : Path.IsName name := by
  revert name
  decide

theorem isFile_join_of_mem (hdir : dir.isAbsolute = true) (h : name ∈ projectNames) :
    fs.isFile (dir.join ⟨name⟩) = true ↔ fs.Holds dir name :=
  FileSystem.isFile_join_iff hdir (isName_of_mem_projectNames h)

theorem inDirectory?_eq_none_iff (hdir : dir.isAbsolute = true) :
    inDirectory? fs dir = none ↔ Bare fs dir := by
  rw [inDirectory?, List.find?_eq_none, List.forall_mem_map]
  exact forall₂_congr fun name hname => not_congr (isFile_join_of_mem hdir hname)

theorem inDirectory?_of_offers (hdir : dir.isAbsolute = true) (h : Offers fs dir name) :
    inDirectory? fs dir = some (dir.join ⟨name⟩) := by
  obtain ⟨hname, hholds, hpreferred⟩ := h
  have hfile := (isFile_join_of_mem hdir hname).mpr hholds
  have heq : inDirectory? fs dir =
      ([dir.join ⟨"arity-lint.toml"⟩, dir.join ⟨".arity-lint.toml"⟩]).find? fs.isFile := rfl
  rcases List.mem_pair.mp hname with rfl | rfl
  · rw [heq, List.find?_cons_of_pos hfile]
  · have hplain : ¬fs.isFile (dir.join ⟨"arity-lint.toml"⟩) = true := by
      rw [isFile_join_of_mem hdir (by decide)]
      exact hpreferred (by decide)
    rw [heq, List.find?_cons_of_neg hplain, List.find?_cons_of_pos hfile]

theorem exists_offers (h : ¬Bare fs dir) : ∃ name, Offers fs dir name := by
  by_cases hplain : fs.Holds dir "arity-lint.toml"
  · exact ⟨_, by decide, hplain, fun hne => absurd rfl hne⟩
  · obtain ⟨name, hname, hholds⟩ : ∃ name ∈ projectNames, fs.Holds dir name := by
      simpa [Bare] using h
    exact ⟨name, hname, hholds, fun _ => hplain⟩

/-! ### The way up -/

/-- The source of a configuration, told by what the directories hold. -/
inductive Chosen (fs : FileSystem) (target : Path) : Option Path → Option Path → Source → Prop
  /-- A path that is given outright is taken, whether there is something or not. -/
  | explicit (path : Path) (globalDir? : Option Path) :
      Chosen fs target (some path) globalDir? (.explicit path)
  /-- The nearest directory that is not bare decides. -/
  | project (globalDir? : Option Path) (nearer farther : List Path) (dir : Path) (name : String)
      (hway : (fs.absolute target).ancestors = nearer ++ dir :: farther)
      (hnearer : ∀ d ∈ nearer, Bare fs d) (hoffers : Offers fs dir name) :
      Chosen fs target none globalDir? (.project (dir.join ⟨name⟩))
  | global (globalDir : Path) (hbare : ∀ d ∈ (fs.absolute target).ancestors, Bare fs d)
      (hfile : fs.isFile (globalDir.join ⟨"config.toml"⟩) = true) :
      Chosen fs target none (some globalDir) (.global (globalDir.join ⟨"config.toml"⟩))
  | defaults (globalDir? : Option Path)
      (hbare : ∀ d ∈ (fs.absolute target).ancestors, Bare fs d)
      (hfile : ∀ globalDir ∈ globalDir?, fs.isFile (globalDir.join ⟨"config.toml"⟩) = false) :
      Chosen fs target none globalDir? .defaults

theorem resolve_of_some (h : findProject? fs target = some f) (globalDir? : Option Path) :
    resolve fs target none globalDir? = .project f := by
  unfold resolve
  simp only [h]

/-- Without a file in the project, the directory of the user is looked at. -/
theorem resolve_of_none (h : findProject? fs target = none) :
    (∀ globalDir : Path, fs.isFile (globalDir.join ⟨"config.toml"⟩) = true →
      resolve fs target none (some globalDir) = .global (globalDir.join ⟨"config.toml"⟩)) ∧
    ∀ globalDir? : Option Path,
      (∀ globalDir ∈ globalDir?, fs.isFile (globalDir.join ⟨"config.toml"⟩) = false) →
      resolve fs target none globalDir? = .defaults := by
  unfold resolve
  refine ⟨fun globalDir hfile => ?_, fun globalDir? hfile => ?_⟩
  · simp [h, globalName, Option.filter_some, hfile]
  · cases globalDir? with
    | none => simp [h]
    | some globalDir => simp [h, globalName, Option.filter_some, hfile globalDir rfl]

section Search

variable (hcwd : fs.cwd.isAbsolute = true)

include hcwd

theorem isAbsolute_of_mem_way (h : dir ∈ (fs.absolute target).ancestors) :
    dir.isAbsolute = true :=
  Path.isAbsolute_of_mem_ancestors (Path.isAbsolute_join hcwd target) h

theorem findProject?_eq_none_iff :
    findProject? fs target = none ↔ ∀ d ∈ (fs.absolute target).ancestors, Bare fs d := by
  rw [findProject?, List.findSome?_eq_none_iff]
  exact forall₂_congr fun d hd => inDirectory?_eq_none_iff (isAbsolute_of_mem_way hcwd hd)

/-- The search finds what the nearest directory offers that is not bare. -/
theorem findProject?_of_nearest {nearer farther : List Path}
    (hway : (fs.absolute target).ancestors = nearer ++ dir :: farther)
    (hnearer : ∀ d ∈ nearer, Bare fs d) (hoffers : Offers fs dir name) :
    findProject? fs target = some (dir.join ⟨name⟩) := by
  have habsolute : ∀ d ∈ nearer ++ dir :: farther, d.isAbsolute = true :=
    fun d hd => isAbsolute_of_mem_way hcwd (hway ▸ hd)
  have hnone : nearer.findSome? (inDirectory? fs) = none := by
    rw [List.findSome?_eq_none_iff]
    intro d hd
    exact (inDirectory?_eq_none_iff (habsolute d (List.mem_append_left _ hd))).mpr (hnearer d hd)
  rw [findProject?, hway, List.findSome?_append, hnone, Option.none_or, List.findSome?_cons,
    inDirectory?_of_offers (habsolute dir (by simp)) hoffers]

theorem exists_nearest (h : findProject? fs target = some f) :
    ∃ nearer farther dir name, (fs.absolute target).ancestors = nearer ++ dir :: farther ∧
      (∀ d ∈ nearer, Bare fs d) ∧ Offers fs dir name ∧ f = dir.join ⟨name⟩ := by
  obtain ⟨nearer, dir, farther, hway, hdir, hnearer⟩ := List.findSome?_eq_some_iff.mp h
  have habsolute : ∀ d ∈ nearer ++ dir :: farther, d.isAbsolute = true :=
    fun d hd => isAbsolute_of_mem_way hcwd (hway ▸ hd)
  have hself := habsolute dir (by simp)
  have hbare : ¬Bare fs dir := by
    rw [← inDirectory?_eq_none_iff hself, hdir]
    exact Option.some_ne_none f
  obtain ⟨name, hoffers⟩ := exists_offers hbare
  refine ⟨nearer, farther, dir, name, hway, fun d hd => ?_, hoffers, ?_⟩
  · exact (inDirectory?_eq_none_iff (habsolute d (List.mem_append_left _ hd))).mp (hnearer d hd)
  · exact Option.some.inj (hdir.symm.trans (inDirectory?_of_offers hself hoffers))

/-- What is chosen is what a run resolves to. -/
theorem resolve_of_chosen {explicit? globalDir? : Option Path}
    (h : Chosen fs target explicit? globalDir? source) :
    resolve fs target explicit? globalDir? = source := by
  cases h with
  | explicit path => rfl
  | project _ nearer farther dir name hway hnearer hoffers =>
    exact resolve_of_some (findProject?_of_nearest hcwd hway hnearer hoffers) globalDir?
  | global globalDir hbare hfile =>
    exact (resolve_of_none ((findProject?_eq_none_iff hcwd).mpr hbare)).1 globalDir hfile
  | defaults _ hbare hfile =>
    exact (resolve_of_none ((findProject?_eq_none_iff hcwd).mpr hbare)).2 globalDir? hfile

theorem exists_chosen (target : Path) (explicit? globalDir? : Option Path) :
    ∃ source, Chosen fs target explicit? globalDir? source := by
  cases explicit? with
  | some path => exact ⟨_, .explicit path globalDir?⟩
  | none =>
    cases hfound : findProject? fs target with
    | some f =>
      obtain ⟨nearer, farther, dir, name, hway, hnearer, hoffers, -⟩ := exists_nearest hcwd hfound
      exact ⟨_, .project globalDir? nearer farther dir name hway hnearer hoffers⟩
    | none =>
      have hbare := (findProject?_eq_none_iff hcwd).mp hfound
      cases globalDir? with
      | none => exact ⟨_, .defaults none hbare (by simp)⟩
      | some globalDir =>
        cases hfile : fs.isFile (globalDir.join ⟨"config.toml"⟩) with
        | true => exact ⟨_, .global globalDir hbare hfile⟩
        | false => exact ⟨_, .defaults _ hbare (by simpa using hfile)⟩

/-- **Above the directory that decides, anything may be.** Two file systems that agree up to there
give the same configuration, whatever the directory of the user. -/
theorem resolve_congr {fs' : FileSystem} (hsame : fs'.cwd = fs.cwd) {nearer farther : List Path}
    (hway : (fs.absolute target).ancestors = nearer ++ dir :: farther)
    (hnearer : ∀ d ∈ nearer, Bare fs d) (hdir : ¬Bare fs dir)
    (hagree : ∀ d ∈ nearer ++ [dir], ∀ name ∈ projectNames, (fs'.Holds d name ↔ fs.Holds d name))
    (globalDir? globalDir?' : Option Path) :
    resolve fs' target none globalDir?' = resolve fs target none globalDir? := by
  obtain ⟨name, hoffers⟩ := exists_offers hdir
  have hway' : (fs'.absolute target).ancestors = nearer ++ dir :: farther := by
    rw [FileSystem.absolute, hsame]
    exact hway
  have hnearer' : ∀ d ∈ nearer, Bare fs' d := fun d hd name hname =>
    (not_congr (hagree d (List.mem_append_left _ hd) name hname)).mpr (hnearer d hd name hname)
  have hoffers' : Offers fs' dir name := by
    obtain ⟨hname, hholds, hpreferred⟩ := hoffers
    have hself := hagree dir (by simp)
    exact ⟨hname, (hself name hname).mpr hholds,
      fun hne => (not_congr (hself _ (by decide))).mpr (hpreferred hne)⟩
  rw [resolve_of_some (findProject?_of_nearest hcwd hway hnearer hoffers),
    resolve_of_some (findProject?_of_nearest (hsame ▸ hcwd) hway' hnearer' hoffers')]

/-- **A run uses the configuration that is chosen**: one that is given, or else the one in the
nearest directory from the target upwards that has any, or else the one of the user, or none. The
directories are those of the absolute target as it is written, each with one component less than
the one before. What lies above the directory that decides never counts. -/
theorem resolve_chosen (target : Path) (explicit? globalDir? : Option Path) :
    (∀ source, resolve fs target explicit? globalDir? = source ↔
      Chosen fs target explicit? globalDir? source) ∧
    (fs.absolute target).ancestors.map Path.components =
      (fs.absolute target).components.inits.tail.reverse ∧
    ∀ (fs' : FileSystem) (nearer farther : List Path) (dir : Path) (globalDir?' : Option Path),
      fs'.cwd = fs.cwd → (fs.absolute target).ancestors = nearer ++ dir :: farther →
      (∀ d ∈ nearer, Bare fs d) → ¬Bare fs dir →
      (∀ d ∈ nearer ++ [dir], ∀ name ∈ projectNames, (fs'.Holds d name ↔ fs.Holds d name)) →
      resolve fs' target none globalDir?' = resolve fs target none globalDir? := by
  refine ⟨fun source => ⟨?_, resolve_of_chosen hcwd⟩,
    Path.map_components_ancestors (Path.isAbsolute_join hcwd target), ?_⟩
  · rintro rfl
    obtain ⟨source, hchosen⟩ := exists_chosen hcwd target explicit? globalDir?
    rwa [resolve_of_chosen hcwd hchosen]
  · intro fs' nearer farther dir globalDir?' hsame hway hnearer hdir hagree
    exact resolve_congr hcwd hsame hway hnearer hdir hagree globalDir? globalDir?'

end Search

/-- A hidden file near the target against a plain one above it, and a folder of that name nearer
still. -/
theorem resolve_chosen_of_hidden :
    let fs : FileSystem := ⟨.folder [("w", .folder [("arity-lint.toml", .file ⟨#[]⟩),
      ("a", .folder [(".arity-lint.toml", .file ⟨#[]⟩),
        ("b", .folder [("arity-lint.toml", .folder [])])])])], ⟨"/w"⟩⟩
    fs.cwd.isAbsolute = true ∧
      Chosen fs ⟨"a//b/"⟩ none none (.project ⟨"/w/a/.arity-lint.toml"⟩) ∧
      Chosen fs ⟨"a"⟩ (some ⟨"gone.toml"⟩) none (.explicit ⟨"gone.toml"⟩) := by
  intro fs
  have hcwd : fs.cwd.isAbsolute = true := by decide
  exact ⟨hcwd, ((resolve_chosen hcwd _ _ _).1 _).mp (by decide +kernel),
    ((resolve_chosen hcwd _ _ _).1 _).mp (by decide +kernel)⟩

end ArityCheck.Config.Source
