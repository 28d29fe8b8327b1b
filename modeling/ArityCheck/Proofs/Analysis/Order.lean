import ArityCheck.Proofs.Analysis.Files
import ArityCheck.Proofs.FileSystem.Shuffle
import Mathlib.Data.List.Nodup

/-! The order in which files are found does not count.

Whatever order a walk brings its entries in, the files are sorted before the first of them is
opened. Sorting forgets the order they came in as long as no two entries are tied, that is, are two
spellings of one path (`select_perm`), and a walk never brings such entries. So both a report and
the error that an analysis ends with depend on the set of entries only (`analyze_order`). -/
namespace ArityCheck.Analyzer

variable {a : Analyzer} {fs : FileSystem}

/-- The analysis of the entries that a walk brings, in the order in which it brings them. -/
def analyzeFound (a : Analyzer) (fs : FileSystem) (found : List Path) :
    Except AnalysisError Report := do
  let report ← a.collect ((a.select found).map (a.inspectFile fs))
  return report.sort

/-- No two entries are different spellings of one path. -/
def SpelledOnce (found : List Path) : Prop :=
  ∀ p ∈ found, ∀ q ∈ found, p.components = q.components → p = q

theorem analyze_eq_analyzeFound {found : List Path}
    (h : fs.walk a.root a.config.analyzer.respectGitignore = .ok found) :
    a.analyze fs = a.analyzeFound fs found := by
  rw [analyze, discover_eq_ok_iff.mpr ⟨found, h, rfl⟩]
  rfl

theorem analyze_of_walk_error {fault : FileFault}
    (h : fs.walk a.root a.config.analyzer.respectGitignore = .error fault) :
    a.analyze fs = .error (.walk a.root fault) := by
  rw [analyze, discover, h]
  rfl

/-- Entries that a walk brings are spelled in one way. -/
theorem spelledOnce_walk (hfs : fs.WellFormed) {root : Path} {respect : Bool} {found : List Path}
    (h : fs.walk root respect = .ok found) : SpelledOnce found := by
  have hdistinct : (found.map Path.components).Nodup :=
    List.pairwise_map.mpr (FileSystem.walk_spec hfs h).2
  exact fun p hp q hq => List.inj_on_of_nodup_map hdistinct hp hq

/-- **The files to analyze are listed the same way, in whichever order they were found.** -/
theorem select_perm (a : Analyzer) {found order : List Path} (hfound : SpelledOnce found)
    (h : order.Perm found) : a.select order = a.select found := by
  have hperm : (a.select order).Perm (a.select found) :=
    (List.mergeSort_perm _ _).trans
      (((h.filter _).filter _).trans (List.mergeSort_perm _ _).symm)
  refine hperm.eq_of_pairwise (fun p q hp hq hpq hqp => ?_) (a.select_sorted order)
    (a.select_sorted found)
  -- Two paths that come before each other are tied, and then they are one path.
  have htied : p.order q = .eq := Std.OrientedCmp.isLE_antisymm hpq hqp
  have hp := h.mem_iff.mp (mem_select.mp hp).1.1
  have hq := (mem_select.mp hq).1.1
  exact hfound p hp q hq ((Path.order_eq_eq_iff p q).mp htied)

theorem analyzeFound_perm (a : Analyzer) (fs : FileSystem) {found order : List Path}
    (hfound : SpelledOnce found) (h : order.Perm found) :
    a.analyzeFound fs order = a.analyzeFound fs found := by
  rw [analyzeFound, analyzeFound, a.select_perm hfound h]

theorem analyzeFound_congr_read {fs' : FileSystem} (h : ∀ p, fs'.read p = fs.read p)
    (found : List Path) : a.analyzeFound fs' found = a.analyzeFound fs found := by
  have hinspect : a.inspectFile fs' = a.inspectFile fs := by
    funext p
    rw [inspectFile, inspectFile, h]
  rw [analyzeFound, analyzeFound, hinspect]

theorem analyze_shuffled {fs' : FileSystem} (hfs : fs.WellFormed) (h : fs.Shuffled fs') :
    a.analyze fs' = a.analyze fs := by
  rcases h.walk hfs a.root a.config.analyzer.respectGitignore with
    ⟨fault, hwalk, hwalk'⟩ | ⟨found, found', hwalk, hwalk', hperm⟩
  · rw [analyze_of_walk_error hwalk, analyze_of_walk_error hwalk']
  · calc
      a.analyze fs' = a.analyzeFound fs' found' := analyze_eq_analyzeFound hwalk'
      _ = a.analyzeFound fs found' := analyzeFound_congr_read (h.read hfs) found'
      _ = a.analyzeFound fs found := analyzeFound_perm a fs (spelledOnce_walk hfs hwalk) hperm
      _ = a.analyze fs := (analyze_eq_analyzeFound hwalk).symm

/-- **An analysis comes out the same, in whichever order its walk brings the entries**: with the
same report or the same error. That holds for any entries of which no two are different spellings
of one path, and what a walk brings is of that kind. In particular the order in which folders list
what is in them makes no difference. -/
theorem analyze_order (a : Analyzer) (fs : FileSystem) :
    (∀ found order, SpelledOnce found → order.Perm found →
      a.analyzeFound fs order = a.analyzeFound fs found) ∧
    (fs.WellFormed → ∀ found,
      fs.walk a.root a.config.analyzer.respectGitignore = .ok found →
      SpelledOnce found ∧ ∀ order, order.Perm found → a.analyze fs = a.analyzeFound fs order) ∧
    (fs.WellFormed → ∀ fs', fs.Shuffled fs' →
      (∀ found, fs.walk a.root a.config.analyzer.respectGitignore = .ok found →
        ∃ order, fs'.walk a.root a.config.analyzer.respectGitignore = .ok order ∧
          order.Perm found) ∧
      a.analyze fs' = a.analyze fs) := by
  refine ⟨fun found order hfound h => a.analyzeFound_perm fs hfound h,
    fun hfs found hwalk => ?_, fun hfs fs' h => ⟨fun found hwalk => ?_, analyze_shuffled hfs h⟩⟩
  · have hfound := spelledOnce_walk hfs hwalk
    refine ⟨hfound, fun order hperm => ?_⟩
    rw [analyze_eq_analyzeFound hwalk, a.analyzeFound_perm fs hfound hperm]
  · rcases h.walk hfs a.root a.config.analyzer.respectGitignore with
      ⟨fault, hwalk₀, -⟩ | ⟨_, found', hwalk₀, hwalk', hperm⟩
    · nomatch hwalk.symm.trans hwalk₀
    · obtain rfl := Except.ok.inj (hwalk.symm.trans hwalk₀)
      exact ⟨found', hwalk', hperm⟩

/-- Two files with syntax errors, the later one listed first: whichever way round they are found,
it is the earlier one that ends the analysis. -/
theorem analyze_order_of_two_errors :
    let a : Analyzer := ⟨⟨"/p"⟩, [], [], {}, true⟩
    let fs (files : List (String × Node)) : FileSystem := ⟨.folder [("p", .folder files)], ⟨"/"⟩⟩
    let f : String × Node := ("a.js", .file "f(".toUTF8)
    let g : String × Node := ("b.js", .file "g(".toUTF8)
    (fs [g, f]).WellFormed ∧ (fs [g, f]).Shuffled (fs [f, g]) ∧
      a.analyze (fs [f, g]) = a.analyze (fs [g, f]) ∧
      (fs [g, f]).walk ⟨"/p"⟩ true = .ok [⟨"/p/b.js"⟩, ⟨"/p/a.js"⟩] ∧
      a.analyze (fs [g, f]) = a.analyzeFound (fs [g, f]) [⟨"/p/a.js"⟩, ⟨"/p/b.js"⟩] ∧
      ∃ m, a.analyze (fs [g, f]) = .error (.malformed ⟨"/p/a.js"⟩ m) := by
  intro a fs f g
  have hfs : (fs [g, f]).WellFormed := by
    refine .folder _ (by decide) (by decide) (List.forall_mem_singleton.mpr ?_)
    refine .folder _ (by decide) (by decide) ?_
    rw [List.forall_mem_cons, List.forall_mem_singleton]
    exact ⟨.file _, .file _⟩
  have hshuffled : (fs [g, f]).Shuffled (fs [f, g]) :=
    ⟨rfl, .entry [] "p" [] (.folder (.swap f g []))⟩
  have hwalk : (fs [g, f]).walk ⟨"/p"⟩ true = .ok [⟨"/p/b.js"⟩, ⟨"/p/a.js"⟩] :=
    eq_ok_of_toOption (by decide +kernel)
  have hdiscover : a.discover (fs [g, f]) = .ok [⟨"/p/a.js"⟩, ⟨"/p/b.js"⟩] :=
    eq_ok_of_toOption (by rw [discover_toOption]; decide +kernel)
  refine ⟨hfs, hshuffled, ((analyze_order a _).2.2 hfs _ hshuffled).2, hwalk,
    ((analyze_order a _).2.1 hfs _ hwalk).2 _ (.swap _ _ _), "syntax error at 1:1 (1 total)", ?_⟩
  have hcollect : a.collect ([⟨"/p/a.js"⟩, ⟨"/p/b.js"⟩].map (a.inspectFile (fs [g, f]))) =
      .error (.malformed ⟨"/p/a.js"⟩ "syntax error at 1:1 (1 total)") := by
    decide +kernel
  simp only [analyze, hdiscover, hcollect, bind, Except.bind]

end ArityCheck.Analyzer
