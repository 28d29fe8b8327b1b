import ArityCheck.Cli.Run
import ArityCheck.Proofs.Analysis.Files
import ArityCheck.Proofs.FileSystem.Names

/-! Files that are read again to show what is wrong with them.

A report tells files by their paths as seen from the root, and the pretty format joins the root to
them again. Below a folder that gives the very paths that were analyzed, so a report can be printed
to its end (`errors_of_folder`). If the root is itself a source file, nothing is left of its path
when the root is cut off, and joining makes that a separator at the end: the file cannot be read
again (`errors_of_file`). -/
namespace ArityCheck

/-! ### Snippets -/

/-- Snippets come to their end exactly if every file can be read again. -/
theorem Violation.snippets_eq_none_iff {fs : FileSystem} {root : Path} (vs : List Violation) :
    (snippets fs root vs).2 = none ↔ ∀ v ∈ vs, ∃ text, fs.read (v.sourcePath root) = .ok text := by
  induction vs with
  | nil => simp [snippets]
  | cons v vs ih =>
    rw [snippets, List.forall_mem_cons, ← ih]
    cases fs.read (v.sourcePath root) with
    | error fault => simp
    | ok text => simp

theorem Report.print_pretty (r : Report) (fs : FileSystem) (root : Path) :
    (r.print fs root .pretty).2 = (Violation.snippets fs root r.violations).2 := by
  rw [print]
  split
  · next h => rw [h]
  · rfl

/-- What is printed beside a report is why it could not be printed to its end. -/
theorem Cli.Outcome.errors_ofReport (r : Report) (fs : FileSystem) (root : Path)
    (format : Format) :
    (ofReport r fs root format).errors =
      (r.print fs root format).2.elim "" fun fault => (Failure.reread fault).text := by
  rw [ofReport]
  split
  · next h => rw [h]; rfl
  · next h => rw [h]; rfl

/-! ### Files below the root -/

namespace Analyzer

variable {a : Analyzer} {fs : FileSystem} {files : List Path} {report : Report} {p : Path}

theorem exists_resolve_of_discover (h : a.discover fs = .ok files) :
    ∃ place, fs.resolve a.root = .ok place ∧ fs.isFile a.root = place.node.isFile ∧
      ∀ p ∈ files, ∃ respect levels, p ∈ Walk.files respect levels a.root place.node := by
  obtain ⟨found, hwalk, rfl⟩ := discover_eq_ok_iff.mp h
  obtain ⟨place, hresolve, rfl⟩ := FileSystem.walk_eq_ok_iff.mp hwalk
  refine ⟨place, hresolve, ?_, fun p hp => ⟨_, _, (mem_select.mp hp).1.1⟩⟩
  rw [FileSystem.isFile, hresolve]

/-- **Below a folder, the path that is told leads back to the file.** -/
theorem join_relativeTo_of_folder (hfs : fs.WellFormed) (h : a.discover fs = .ok files)
    (hroot : fs.isFile a.root = false) (hp : p ∈ files) :
    (p.relativeTo a.root).text ≠ "" ∧ a.root.join (p.relativeTo a.root) = p := by
  obtain ⟨place, hresolve, hkind, hfiles⟩ := exists_resolve_of_discover h
  obtain ⟨respect, levels, hwalked⟩ := hfiles p hp
  obtain ⟨names, hnames, rfl, hne⟩ :=
    Walk.exists_names_of_mem_files (hfs.resolve hresolve).node hwalked
  have hfolder : place.node.isFolder = true := by
    simpa [Node.isFile, hroot] using hkind
  have htext := FileSystem.text_ne_empty_of_resolve hresolve
  refine ⟨?_, Path.join_relativeTo_under htext hnames (hne hfolder)⟩
  rw [Path.relativeTo_under htext hnames (hne hfolder)]
  exact Path.joinSegments_ne_empty hnames (hne hfolder)

/-- **Nothing is told of the path of a file that is itself the root.** -/
theorem join_relativeTo_of_file (h : a.discover fs = .ok files) (hroot : fs.isFile a.root = true)
    (hp : p ∈ files) :
    p = a.root ∧ p.relativeTo a.root = ⟨""⟩ ∧
      a.root.join (p.relativeTo a.root) = ⟨a.root.text ++ "/"⟩ ∧
      fs.read ⟨a.root.text ++ "/"⟩ = .error .notDirectory := by
  obtain ⟨place, hresolve, hkind, hfiles⟩ := exists_resolve_of_discover h
  obtain ⟨respect, levels, hwalked⟩ := hfiles p hp
  have hfile : place.node.isFolder = false := by
    simpa [Node.isFile, hroot] using hkind
  have htext := FileSystem.text_ne_empty_of_resolve hresolve
  have hself : p = a.root := by
    cases hnode : place.node with
    | file content => simpa [hnode, Walk.files] using hwalked
    | folder entries => simp [hnode, Node.isFolder] at hfile
  subst hself
  rw [Path.relativeTo_self htext]
  exact ⟨rfl, rfl, Path.join_empty htext (FileSystem.getLast?_ne_slash hresolve hfile),
    FileSystem.read_slash hresolve hfile⟩

theorem mem_violations_iff (h : a.analyze fs = .ok report) (hfiles : a.discover fs = .ok files)
    {v : Violation} : v ∈ report.violations ↔ ∃ p ∈ files, v ∈ a.fileViolations fs p := by
  obtain ⟨files', hfiles', -, rfl⟩ := (analyze_eq_ok_iff report).mp h
  obtain rfl := Except.ok.inj (hfiles.symm.trans hfiles')
  rw [Report.sort, List.mem_mergeSort, List.mem_flatMap]

end Analyzer

/-! ### Reports that are printed -/

namespace Cli

open Analyzer

variable {a : Analyzer} {fs : FileSystem} {files : List Path} {report : Report}

theorem errors_of_folder (hfs : fs.WellFormed) (h : a.analyze fs = .ok report)
    (hroot : fs.isFile a.root = false) :
    (Outcome.ofReport report fs a.root .pretty).errors = "" := by
  obtain ⟨files, hfiles, hpasses, -⟩ := (analyze_eq_ok_iff report).mp h
  have hread : ∀ v ∈ report.violations, ∃ text, fs.read (v.sourcePath a.root) = .ok text := by
    intro v hv
    obtain ⟨p, hp, hv⟩ := (mem_violations_iff h hfiles).mp hv
    obtain ⟨text, htext, -⟩ := hpasses p hp
    refine ⟨text, ?_⟩
    rw [Violation.sourcePath, file_of_mem_fileViolations hv,
      (join_relativeTo_of_folder hfs hfiles hroot hp).2, htext]
  rw [Outcome.errors_ofReport, Report.print_pretty,
    (Violation.snippets_eq_none_iff report.violations).mpr hread]
  rfl

/-- The first violation is where printing stops. -/
theorem errors_of_file (h : a.analyze fs = .ok report) (hroot : fs.isFile a.root = true) :
    (Outcome.ofReport report fs a.root .pretty).errors =
      if report.violations.isEmpty then ""
      else (Failure.reread ⟨⟨a.root.text ++ "/"⟩, .notDirectory⟩).text := by
  obtain ⟨files, hfiles, -, -⟩ := (analyze_eq_ok_iff report).mp h
  rw [Outcome.errors_ofReport, Report.print_pretty]
  cases hviolations : report.violations with
  | nil => rfl
  | cons v vs =>
    obtain ⟨p, hp, hv⟩ := (mem_violations_iff h hfiles).mp (hviolations ▸ List.mem_cons_self)
    obtain ⟨-, -, hjoin, hread⟩ := join_relativeTo_of_file hfiles hroot hp
    have hsource : v.sourcePath a.root = ⟨a.root.text ++ "/"⟩ := by
      rw [Violation.sourcePath, file_of_mem_fileViolations hv, hjoin]
    rw [Violation.snippets, hsource, hread]
    rfl

/-- **The pretty format reads every file again, unless the root is that file.** Below a folder, what
is told of a path is not empty and leads back to the same text, so nothing is in the way of the
report. For a root that is a file, what is told is empty, what it leads to has a separator too many,
and no violation can be printed. -/
theorem pretty_rereads_files (hfs : fs.WellFormed) (h : a.analyze fs = .ok report) :
    ∃ files, a.discover fs = .ok files ∧
      (∀ v ∈ report.violations, ∃ p ∈ files,
        v ∈ a.fileViolations fs p ∧ v.location.file = p.relativeTo a.root) ∧
      (fs.isFile a.root = false →
        (∀ p ∈ files, (p.relativeTo a.root).text ≠ "" ∧ a.root.join (p.relativeTo a.root) = p) ∧
        (Outcome.ofReport report fs a.root .pretty).errors = "") ∧
      (fs.isFile a.root = true →
        (∀ p ∈ files, p = a.root ∧ p.relativeTo a.root = ⟨""⟩ ∧
          a.root.join (p.relativeTo a.root) = ⟨p.text ++ "/"⟩) ∧
        (Outcome.ofReport report fs a.root .pretty).errors =
          if report.violations.isEmpty then ""
          else (Failure.reread ⟨⟨a.root.text ++ "/"⟩, .notDirectory⟩).text) := by
  obtain ⟨files, hfiles, -, -⟩ := (analyze_eq_ok_iff report).mp h
  refine ⟨files, hfiles, fun v hv => ?_, fun hroot => ⟨fun p hp => ?_, ?_⟩,
    fun hroot => ⟨fun p hp => ?_, ?_⟩⟩
  · obtain ⟨p, hp, hv⟩ := (mem_violations_iff h hfiles).mp hv
    exact ⟨p, hp, hv, file_of_mem_fileViolations hv⟩
  · exact join_relativeTo_of_folder hfs hfiles hroot hp
  · exact errors_of_folder hfs h hroot
  · obtain ⟨rfl, hempty, hjoin, -⟩ := join_relativeTo_of_file hfiles hroot hp
    exact ⟨rfl, hempty, hjoin⟩
  · exact errors_of_file h hroot

/-- A folder that is written with separators and dots at its end. -/
theorem pretty_rereads_files_of_spelling :
    let a : Analyzer := ⟨⟨"/p/.//"⟩, [(Rule.ofKind .arguments).withLimit "f" 0], [], {}, false⟩
    let fs : FileSystem := ⟨.folder [("p", .folder [("src", .folder
      [("a.js", .file "f(1)".toUTF8)])])], ⟨"/"⟩⟩
    fs.WellFormed ∧ ∃ report, a.analyze fs = .ok report ∧
      report.violations.map (fun v => (v.location.file, v.sourcePath a.root)) =
        [(⟨"src/a.js"⟩, ⟨"/p/.//src/a.js"⟩)] ∧
      (Outcome.ofReport report fs a.root .pretty).errors = "" := by
  intro a fs
  have hfs : fs.WellFormed := by
    refine .folder _ (by decide) (by decide) (List.forall_mem_singleton.mpr ?_)
    refine .folder _ (by decide) (by decide) (List.forall_mem_singleton.mpr ?_)
    exact .folder _ (by decide) (by decide) (List.forall_mem_singleton.mpr (.file _))
  have hdiscover : a.discover fs = .ok [⟨"/p/.//src/a.js"⟩] :=
    eq_ok_of_toOption (by rw [discover_toOption]; decide +kernel)
  have hread : fs.read ⟨"/p/.//src/a.js"⟩ = .ok "f(1)" := eq_ok_of_toOption (by decide +kernel)
  have hpasses : ∀ p ∈ [⟨"/p/.//src/a.js"⟩], a.Passes fs p :=
    List.forall_mem_singleton.mpr (passes_of_isSource (by decide +kernel) hread (.inr rfl))
  have hreport := (analyze_eq_ok_iff _).mpr ⟨_, hdiscover, hpasses, rfl⟩
  obtain ⟨files, -, -, hfolder, -⟩ := pretty_rereads_files hfs hreport
  refine ⟨hfs, _, hreport, ?_, (hfolder (by decide +kernel)).2⟩
  rw [Report.sort_eq_insertionSort]
  decide +kernel

/-- A file that is checked by itself has a violation, and it cannot be shown. -/
theorem pretty_fails_on_single_file :
    let a : Analyzer := ⟨⟨"/a.js"⟩, [(Rule.ofKind .arguments).withLimit "f" 0], [], {}, false⟩
    let fs : FileSystem := ⟨.folder [("a.js", .file "f(1)".toUTF8)], ⟨"/"⟩⟩
    fs.WellFormed ∧ a.discover fs = .ok [⟨"/a.js"⟩] ∧ ∃ report, a.analyze fs = .ok report ∧
      report.violations.map (fun v => (v.location.file, v.sourcePath a.root)) =
        [(⟨""⟩, ⟨"/a.js/"⟩)] ∧
      (Outcome.ofReport report fs a.root .pretty).errors =
        (Failure.reread ⟨⟨"/a.js/"⟩, .notDirectory⟩).text := by
  intro a fs
  have hfs : fs.WellFormed :=
    .folder _ (by decide) (by decide) (List.forall_mem_singleton.mpr (.file _))
  have hdiscover : a.discover fs = .ok [⟨"/a.js"⟩] :=
    eq_ok_of_toOption (by rw [discover_toOption]; decide +kernel)
  have hread : fs.read ⟨"/a.js"⟩ = .ok "f(1)" := eq_ok_of_toOption (by decide +kernel)
  have hpasses : ∀ p ∈ [⟨"/a.js"⟩], a.Passes fs p :=
    List.forall_mem_singleton.mpr (passes_of_isSource (by decide +kernel) hread (.inr rfl))
  have hreport := (analyze_eq_ok_iff _).mpr ⟨_, hdiscover, hpasses, rfl⟩
  refine ⟨hfs, hdiscover, _, hreport, ?_, ?_⟩
  · rw [Report.sort_eq_insertionSort]
    decide +kernel
  · rw [errors_of_file hreport (by decide +kernel), Report.sort_eq_insertionSort]
    exact if_neg (by decide +kernel)

end Cli

end ArityCheck
