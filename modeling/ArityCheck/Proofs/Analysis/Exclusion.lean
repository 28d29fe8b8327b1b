import ArityCheck.Analysis.Basic
import ArityCheck.Proofs.Glob.Matching
import ArityCheck.Proofs.Path.Segments

/-! Files that are left out because of the directories that they lie in.

A pattern `**/name/**` stands for everything below a directory of that name. Its glob and its text
without the wildcards both look for the name between two separators, so on absolute paths they say
the same, and a file is left out exactly if its path leads through such a directory
(`isExcluded_by_directory`). That path is the whole one, from the root of the file system on: the
directories above the root of the analysis count like those below it (`isExcluded_under_roots`). -/
namespace ArityCheck

/-! ### Patterns for directories -/

namespace Glob

/-- The name of a directory that a pattern can hold as it is. -/
def IsPlain (name : String) : Prop := name ≠ "" ∧ ∀ c ∈ name.toList, c ∉ ['*', '?', '[', '/']

instance (name : String) : Decidable (IsPlain name) :=
  decidable_of_iff (name ≠ "" ∧ name.toList.any (['*', '?', '[', '/'].contains ·) = false)
    (by simp [IsPlain])

theorem IsPlain.not_mem {name : String} (h : IsPlain name) {c : Char}
    (hc : c ∈ ['*', '?', '[', '/']) : c ∉ name.toList :=
  fun hmem => h.2 c hmem hc

theorem toList_below (name : String) :
    (below name).toList = '*' :: '*' :: '/' :: (name.toList ++ ['/', '*', '*']) := by
  simp [below]

theorem read_plain {cs : List Char} (h : ∀ c ∈ cs, c ∉ ['*', '?', '[', '/']) (position : Nat)
    (last : Option Char) :
    read none position last (cs ++ ['/', '*', '*']) =
      .ok (cs.map .char ++ [.char '/', .recursive]) := by
  induction cs generalizing position last with
  | nil => rfl
  | cons c cs ih =>
    obtain ⟨hc, hcs⟩ := List.forall_mem_cons.mp h
    rw [List.cons_append, read, ih hcs]
    · rfl
    all_goals
      intros
      simp_all

/-- The pattern for what lies below a directory, as it is read. -/
def ofDirectory (name : String) : Glob :=
  ⟨below name, .recursive :: (name.toList.map .char ++ [.char '/', .recursive])⟩

theorem parse_below {name : String} (h : IsPlain name) :
    parse (below name) = .ok (ofDirectory name) := by
  rw [parse, toList_below, read, read_plain h.2]
  rfl

theorem rest_ofDirectory {name : String} (h : IsPlain name) :
    (ofDirectory name).rest = '/' :: name.toList ++ ['/'] := by
  have hstar : '*' ∉ '/' :: name.toList ++ ['/'] := by simp [h.not_mem]
  have hsplit : (below name).toList = '*' :: '*' :: ('/' :: name.toList ++ ['/'] ++ ['*', '*']) := by
    simp [below]
  show Text.unpaired (below name).toList = _
  rw [hsplit, Text.unpaired_pair, Text.unpaired_append_of_not_mem hstar, Text.unpaired_pair,
    Text.unpaired_nil, List.append_nil]

theorem mapM_parse_below {names : List String} (h : ∀ name ∈ names, IsPlain name) :
    (names.map below).mapM parse = .ok (names.map ofDirectory) := by
  induction names with
  | nil => rfl
  | cons name names ih =>
    obtain ⟨hname, hnames⟩ := List.forall_mem_cons.mp h
    rw [List.map_cons, List.mapM_cons, parse_below hname, ih hnames]
    rfl

/-- **The glob of a directory matches the absolute paths that lead through it.** -/
theorem isMatch_ofDirectory_iff {name : String} (h : IsPlain name) {path : Path}
    (hpath : path.isAbsolute = true) :
    (ofDirectory name).isMatch path.text = true ↔ name ∈ path.segments.dropLast := by
  have hslash := h.not_mem (by simp : '/' ∈ _)
  have hfirst : ¬name.toList ++ ['/'] <+: path.text.toList := by
    rw [Path.prefix_slash_iff hslash]
    intro hbegins
    have hempty : path.firstSegment = "" := ((Path.isAbsolute_iff path).mp hpath).1
    rw [Path.firstSegment, hbegins.1, String.ofList_toList] at hempty
    exact h.1 hempty
  rw [Path.mem_dropLast_segments_iff hpath h.1 hslash, isMatch, ofDirectory, accepts_below_iff,
    or_iff_right hfirst]

end Glob

namespace Analyzer

/-! ### What is left out -/

/-- The rest of a pattern counts if there is one and no wildcard is left in it. -/
theorem occursIn_iff {g : Glob} {path : Path} :
    occursIn g path = true ↔ g.rest ≠ [] ∧ '*' ∉ g.rest ∧ g.rest <:+: path.text.toList := by
  have hrest : (Text.replaceAll "**" "" g.text).toList = g.rest := Text.toList_replaceAll_pair _
  have hempty : Text.replaceAll "**" "" g.text = "" ↔ g.rest = [] := by
    rw [← hrest, String.toList_eq_nil_iff]
  simp [occursIn, Text.occursIn_iff, hrest, hempty, and_assoc]

theorem occursIn_ofDirectory_iff {name : String} (h : Glob.IsPlain name) {path : Path}
    (hpath : path.isAbsolute = true) :
    occursIn (.ofDirectory name) path = true ↔ name ∈ path.segments.dropLast := by
  have hstar : '*' ∉ '/' :: name.toList ++ ['/'] := by simp [h.not_mem]
  rw [occursIn_iff, Glob.rest_ofDirectory h,
    Path.mem_dropLast_segments_iff hpath h.1 (h.not_mem (by simp))]
  exact ⟨fun hrest => hrest.2.2, fun hinfix => ⟨by simp, hstar, hinfix⟩⟩

variable {a : Analyzer} {names : List String}

/-- **The rest of a pattern for a directory finds nothing that its glob does not match.** -/
theorem isExcluded_eq_any_isMatch (hnames : ∀ name ∈ names, Glob.IsPlain name)
    (ha : a.excludes = names.map .ofDirectory) {path : Path} (hpath : path.isAbsolute = true) :
    a.isExcluded path = a.excludes.any (·.isMatch path.text) := by
  have hsame : ∀ g ∈ a.excludes, occursIn g path = g.isMatch path.text := by
    rw [ha]
    intro g hg
    obtain ⟨name, hname, rfl⟩ := List.mem_map.mp hg
    rw [Bool.eq_iff_iff, occursIn_ofDirectory_iff (hnames name hname) hpath,
      Glob.isMatch_ofDirectory_iff (hnames name hname) hpath]
  have hany : a.excludes.any (occursIn · path) = a.excludes.any (·.isMatch path.text) := by
    rw [Bool.eq_iff_iff, List.any_eq_true, List.any_eq_true]
    exact exists_congr fun g => and_congr_right fun hg => by rw [hsame g hg]
  rw [isExcluded, hany, Bool.or_self]

/-- **A file is left out if its path leads through a directory of one of the names.** -/
theorem isExcluded_iff_of_directories (hnames : ∀ name ∈ names, Glob.IsPlain name)
    (ha : a.excludes = names.map .ofDirectory) {path : Path} (hpath : path.isAbsolute = true) :
    a.isExcluded path = true ↔ ∃ name ∈ names, name ∈ path.segments.dropLast := by
  rw [isExcluded_eq_any_isMatch hnames ha hpath, ha, List.any_map, List.any_eq_true]
  exact exists_congr fun name => and_congr_right fun hname =>
    Glob.isMatch_ofDirectory_iff (hnames name hname) hpath

/-! ### Analyzers that are built -/

/-- The patterns that an analyzer goes by. -/
def patternsOf (config : Option Config) (exclude : List String) : List String :=
  let given := exclude ++ (config.getD {}).analyzer.exclude
  if given.isEmpty then defaultExcludes else given

/-- An analyzer is built exactly if every pattern can be read. -/
theorem build_eq_ok_iff {cwd : Path} {root : Option Path} {config : Option Config}
    {exclude : List String} {rules : List Rule} {strict : Bool} :
    build cwd root config exclude rules strict = .ok a ↔
      ∃ excludes, (patternsOf config exclude).mapM Glob.parse = .ok excludes ∧
        a = ⟨cwd.join (root.getD (config.getD {}).analyzer.root), rules, excludes, config.getD {},
          strict⟩ := by
  simp only [build, bind_eq_ok_iff, mapError_eq_ok_iff, pure, Except.pure, Except.ok.injEq,
    @eq_comm _ _ a]
  rfl

theorem exists_build_of_directories (cwd : Path) (root : Option Path) {config : Option Config}
    {exclude : List String} (rules : List Rule) (strict : Bool)
    (hnames : ∀ name ∈ names, Glob.IsPlain name)
    (hpatterns : patternsOf config exclude = names.map Glob.below) :
    ∃ a, build cwd root config exclude rules strict = .ok a ∧
      a.root = cwd.join (root.getD (config.getD {}).analyzer.root) ∧
      a.excludes = names.map .ofDirectory := by
  have hparse : (patternsOf config exclude).mapM Glob.parse = .ok (names.map .ofDirectory) := by
    rw [hpatterns, Glob.mapM_parse_below hnames]
  exact ⟨_, build_eq_ok_iff.mpr ⟨_, hparse, rfl⟩, rfl, rfl⟩

/-- **Patterns for directories leave out the files below such directories and no others.** What is
left out by the rest of a pattern is what its glob matches. -/
theorem isExcluded_by_directory (cwd : Path) (root : Option Path) {config : Option Config}
    {exclude : List String} (rules : List Rule) (strict : Bool)
    (hnames : ∀ name ∈ names, Glob.IsPlain name)
    (hpatterns : patternsOf config exclude = names.map Glob.below) :
    ∃ a, build cwd root config exclude rules strict = .ok a ∧
      ∀ path : Path, path.isAbsolute = true →
        (a.isExcluded path = true ↔ ∃ name ∈ names, name ∈ path.segments.dropLast) ∧
        a.isExcluded path = a.excludes.any (·.isMatch path.text) := by
  obtain ⟨a, hbuild, -, ha⟩ :=
    exists_build_of_directories cwd root rules strict hnames hpatterns
  exact ⟨a, hbuild, fun path hpath =>
    ⟨isExcluded_iff_of_directories hnames ha hpath, isExcluded_eq_any_isMatch hnames ha hpath⟩⟩

/-- A name that only holds that of the directory is another one, and so is that of the file. -/
theorem isExcluded_by_directory_of_similar_names :
    ∃ a, build ⟨"/a"⟩ none none ["**/dist/**", "**/out/**"] [] false = .ok a ∧
      a.isExcluded ⟨"/a//mydist/dist/x.js"⟩ = true ∧
      a.isExcluded ⟨"/a/mydist/dist.js"⟩ = false ∧ a.isExcluded ⟨"/a/src/dist"⟩ = false := by
  have hpatterns : patternsOf none ["**/dist/**", "**/out/**"] = ["dist", "out"].map Glob.below := by
    decide
  obtain ⟨a, hbuild, ha⟩ := isExcluded_by_directory ⟨"/a"⟩ none [] false (by decide) hpatterns
  refine ⟨a, hbuild, (ha _ rfl).1.mpr (by decide), ?_, ?_⟩
  · rw [Bool.eq_false_iff, ne_eq, (ha _ rfl).1]
    decide
  · rw [Bool.eq_false_iff, ne_eq, (ha _ rfl).1]
    decide

/-! ### Directories above the root -/

def defaultDirectories : List String := ["node_modules", "dist", "build"]

theorem isPlain_of_mem_defaultDirectories : ∀ name ∈ defaultDirectories, Glob.IsPlain name := by
  decide

/-- One of the segments is a directory that is left out when nothing is said about it. -/
def HasDefault (segments : List String) : Prop := ∃ name ∈ defaultDirectories, name ∈ segments

instance (segments : List String) : Decidable (HasDefault segments) :=
  decidable_of_iff (defaultDirectories.any (segments.contains ·) = true) (by simp [HasDefault])

theorem patternsOf_eq_default {config : Option Config}
    (hconfig : (config.getD {}).analyzer.exclude = []) :
    patternsOf config [] = defaultDirectories.map Glob.below := by
  rw [patternsOf, hconfig]
  decide

/-- **With the default patterns, the whole path of a file decides**: it is left out for the root and
the directories that the root lies in as for those between the root and the file. -/
theorem exists_build_default (cwd : Path) {config : Option Config} (rules : List Rule)
    (strict : Bool) (hconfig : (config.getD {}).analyzer.exclude = []) {root : Path}
    (hroot : root.isAbsolute = true) :
    ∃ a, build cwd (some root) config [] rules strict = .ok a ∧ a.root = root ∧
      ∀ p : Path, p.isAbsolute = false →
        (a.isExcluded (root.join p) = true ↔
          HasDefault root.segments ∨ HasDefault p.segments.dropLast) := by
  have hplain := isPlain_of_mem_defaultDirectories
  obtain ⟨a, hbuild, hjoin, ha⟩ := exists_build_of_directories cwd (some root) rules strict hplain
    (patternsOf_eq_default hconfig)
  have hne : root.text ≠ "" := by
    intro hempty
    simp [Path.isAbsolute, hempty] at hroot
  refine ⟨a, hbuild, hjoin.trans (Path.join_of_isAbsolute cwd hroot), fun p hp => ?_⟩
  rw [isExcluded_iff_of_directories hplain ha (Path.isAbsolute_join hroot p), HasDefault, HasDefault,
    ← exists_or]
  refine exists_congr fun name => ?_
  rw [← and_or_left]
  exact and_congr_right fun hname => Path.mem_dropLast_segments_join hne hp (hplain name hname).1

/-- **Where the root lies decides about the files that lead through no default directory below it.**
A file is treated alike below two roots exactly if a directory between root and file has it left
out, or if both roots or neither of them have a default directory on their way. -/
theorem isExcluded_under_roots (cwd : Path) {config : Option Config} (rules : List Rule)
    (strict : Bool) (hconfig : (config.getD {}).analyzer.exclude = []) {root₁ root₂ p : Path}
    (hroot₁ : root₁.isAbsolute = true) (hroot₂ : root₂.isAbsolute = true)
    (hp : p.isAbsolute = false) :
    ∃ a₁ a₂, build cwd (some root₁) config [] rules strict = .ok a₁ ∧
      build cwd (some root₂) config [] rules strict = .ok a₂ ∧
      a₁.root = root₁ ∧ a₂.root = root₂ ∧
      (a₁.isExcluded (root₁.join p) = a₂.isExcluded (root₂.join p) ↔
        HasDefault p.segments.dropLast ∨
          (HasDefault root₁.segments ↔ HasDefault root₂.segments)) := by
  obtain ⟨a₁, hbuild₁, ha₁, hiff₁⟩ := exists_build_default cwd rules strict hconfig hroot₁
  obtain ⟨a₂, hbuild₂, ha₂, hiff₂⟩ := exists_build_default cwd rules strict hconfig hroot₂
  refine ⟨a₁, a₂, hbuild₁, hbuild₂, ha₁, ha₂, ?_⟩
  rw [Bool.eq_iff_iff, hiff₁ p hp, hiff₂ p hp]
  by_cases hbetween : HasDefault p.segments.dropLast
  · simp [hbetween]
  · simp [hbetween]

/-- Names that only hold that of a default directory do not tell the roots apart. -/
theorem isExcluded_under_roots_of_similar_names :
    ∃ a₁ a₂, build ⟨"/tmp"⟩ (some ⟨"/home/rebuild/"⟩) none [] [] false = .ok a₁ ∧
      build ⟨"/tmp"⟩ (some ⟨"/srv//dist.d"⟩) none [] [] false = .ok a₂ ∧
      a₁.isExcluded (Path.join ⟨"/home/rebuild/"⟩ ⟨"src/a.js"⟩) =
        a₂.isExcluded (Path.join ⟨"/srv//dist.d"⟩ ⟨"src/a.js"⟩) := by
  have hroot₁ : Path.isAbsolute ⟨"/home/rebuild/"⟩ = true := rfl
  have hroot₂ : Path.isAbsolute ⟨"/srv//dist.d"⟩ = true := rfl
  have hp : Path.isAbsolute ⟨"src/a.js"⟩ = false := rfl
  have hconfig : ((none : Option Config).getD {}).analyzer.exclude = [] := rfl
  obtain ⟨a₁, a₂, hbuild₁, hbuild₂, -, -, hsame⟩ :=
    isExcluded_under_roots ⟨"/tmp"⟩ [] false hconfig hroot₁ hroot₂ hp
  exact ⟨a₁, a₂, hbuild₁, hbuild₂, hsame.mpr (by decide)⟩

/-- The same file is left out below a root that lies in a directory `build`, and analyzed below one
that does not. -/
theorem isExcluded_differs_below_build :
    ∃ a₁ a₂, build ⟨"/tmp"⟩ (some ⟨"/home/build/app"⟩) none [] [] false = .ok a₁ ∧
      build ⟨"/tmp"⟩ (some ⟨"/home/app"⟩) none [] [] false = .ok a₂ ∧
      a₁.isExcluded (Path.join ⟨"/home/build/app"⟩ ⟨"src/a.js"⟩) = true ∧
      a₂.isExcluded (Path.join ⟨"/home/app"⟩ ⟨"src/a.js"⟩) = false := by
  have hroot₁ : Path.isAbsolute ⟨"/home/build/app"⟩ = true := rfl
  have hroot₂ : Path.isAbsolute ⟨"/home/app"⟩ = true := rfl
  have hp : Path.isAbsolute ⟨"src/a.js"⟩ = false := rfl
  have hconfig : ((none : Option Config).getD {}).analyzer.exclude = [] := rfl
  obtain ⟨a₁, hbuild₁, -, hiff₁⟩ := exists_build_default ⟨"/tmp"⟩ [] false hconfig hroot₁
  obtain ⟨a₂, hbuild₂, -, hiff₂⟩ := exists_build_default ⟨"/tmp"⟩ [] false hconfig hroot₂
  refine ⟨a₁, a₂, hbuild₁, hbuild₂, (hiff₁ _ hp).mpr (by decide), ?_⟩
  rw [Bool.eq_false_iff, ne_eq, hiff₂ _ hp]
  decide

end Analyzer

end ArityCheck
