import ArityCheck.Proofs.Analysis.Collect
import ArityCheck.Proofs.Except
import ArityCheck.Proofs.FileSystem.Walk
import ArityCheck.Proofs.List
import ArityCheck.Proofs.Report.Sort

/-! The report on all files below a root, told file by file.

Two sorts decide the order of a report: the files are sorted by their full paths before they are
analyzed, and the violations by the paths as seen from the root afterwards. The two agree, since
all paths go on from the root, so the second sort only moves violations within their file. What is
left is a report made of one piece for each file (`analyze_eq_ok_iff`, `sort_fileViolations`),
which is why one more file only adds its own piece. -/
namespace ArityCheck.Analyzer

variable {a : Analyzer} {fs : FileSystem} {p : Path}

/-! ### The files below the root -/

theorem mem_select {found : List Path} :
    p ∈ a.select found ↔ (p ∈ found ∧ isSource p = true) ∧ a.isExcluded p = false := by
  rw [select, List.mem_mergeSort, List.mem_filter, List.mem_filter, Bool.not_eq_true']

theorem select_sorted (a : Analyzer) (found : List Path) :
    (a.select found).Pairwise fun p q => (p.order q).isLE :=
  List.pairwise_mergeSort (fun _ _ _ => Std.TransCmp.isLE_trans) isLE_or_isLE _

theorem discover_eq_ok_iff {files : List Path} :
    a.discover fs = .ok files ↔ ∃ found,
      fs.walk a.root a.config.analyzer.respectGitignore = .ok found ∧ a.select found = files := by
  rw [discover]
  cases fs.walk a.root a.config.analyzer.respectGitignore with
  | error fault => simp
  | ok found => simp

/-- The files to analyze are source files that lie below the root, in ascending order. -/
theorem discover_spec (hfs : fs.WellFormed) {files : List Path}
    (h : a.discover fs = .ok files) :
    (∀ p ∈ files, isSource p = true ∧ a.root.components <+: p.components) ∧
      files.Pairwise fun p q => p.order q = .lt := by
  obtain ⟨found, hwalk, rfl⟩ := discover_eq_ok_iff.mp h
  obtain ⟨hbelow, hdistinct⟩ := FileSystem.walk_spec hfs hwalk
  constructor
  · intro p hp
    obtain ⟨⟨hfound, hsource⟩, -⟩ := mem_select.mp hp
    exact ⟨hsource, hbelow p hfound⟩
  · have hne : (a.select found).Pairwise fun p q => p.components ≠ q.components := by
      refine ((List.mergeSort_perm _ _).pairwise_iff fun h => Ne.symm h).mpr ?_
      exact (hdistinct.sublist List.filter_sublist).sublist List.filter_sublist
    refine (a.select_sorted found).imp₂ (fun p q hle hne => ?_) hne
    have hneq : p.order q ≠ .eq := mt (Path.order_eq_eq_iff p q).mp hne
    cases horder : p.order q with
    | lt => rfl
    | eq => exact absurd horder hneq
    | gt => simp [horder] at hle

/-- **The order by full paths is the order by the paths seen from the root.** -/
theorem discover_order_relativeTo (hfs : fs.WellFormed) {files : List Path}
    (h : a.discover fs = .ok files) {p q : Path} (hp : p ∈ files) (hq : q ∈ files) :
    (p.relativeTo a.root).order (q.relativeTo a.root) = p.order q :=
  Path.order_relativeTo ((discover_spec hfs h).1 p hp).2 ((discover_spec hfs h).1 q hq).2

theorem discover_pairwise_relativeTo (hfs : fs.WellFormed) {files : List Path}
    (h : a.discover fs = .ok files) :
    files.Pairwise fun p q => (p.relativeTo a.root).order (q.relativeTo a.root) = .lt := by
  refine (discover_spec hfs h).2.imp_of_mem fun {p q} hp hq hlt => ?_
  rw [discover_order_relativeTo hfs h hp hq, hlt]

/-- **The sorted report is made of one sorted piece for each file.** -/
theorem sort_fileViolations (hfs : fs.WellFormed) {files : List Path}
    (h : a.discover fs = .ok files) (checked : Nat) :
    Report.sort ⟨files.flatMap (a.fileViolations fs), checked⟩ =
      ⟨files.flatMap fun p => Violation.sortWithin (a.fileViolations fs p), checked⟩ := by
  rw [Report.sort, Violation.sort_flatMap (fun p _ v hv => file_of_mem_fileViolations hv)
    (discover_pairwise_relativeTo hfs h)]

theorem analyze_eq_ok_iff (report : Report) :
    a.analyze fs = .ok report ↔ ∃ files, a.discover fs = .ok files ∧
      (∀ p ∈ files, a.Passes fs p) ∧
        report = Report.sort ⟨files.flatMap (a.fileViolations fs), files.countP fs.isSound⟩ := by
  rw [analyze]
  cases hdiscover : a.discover fs with
  | error e => simp [bind, Except.bind]
  | ok files =>
    cases hcollect : a.collect (files.map (a.inspectFile fs)) with
    | error e =>
      simp only [bind, Except.bind, hcollect, reduceCtorEq, false_iff]
      rintro ⟨_, ⟨⟩, hpasses, -⟩
      have hok := (collect_eq_ok_iff files _).mpr ⟨hpasses, rfl⟩
      rw [hcollect] at hok
      nomatch hok
    | ok r =>
      obtain ⟨hpasses, rfl⟩ := (collect_eq_ok_iff files r).mp hcollect
      simp only [bind, Except.bind, hcollect, pure, Except.pure, Except.ok.injEq]
      constructor
      · rintro rfl
        exact ⟨files, rfl, hpasses, rfl⟩
      · rintro ⟨_, rfl, -, rfl⟩
        rfl

/-! ### The piece of one file -/

section Pieces

variable {files : List Path} (hfs : fs.WellFormed) (hfiles : a.discover fs = .ok files)

include hfs hfiles in
/-- A file stands in the list of files once, and the others are shown by other paths. -/
theorem discover_split (hp : p ∈ files) :
    ∃ before after, files = before ++ p :: after ∧
      ∀ q ∈ before ++ after, q.relativeTo a.root ≠ p.relativeTo a.root := by
  obtain ⟨before, after, rfl⟩ := List.append_of_mem hp
  refine ⟨before, after, rfl, fun q hq heq => ?_⟩
  have hself : (p.relativeTo a.root).order (p.relativeTo a.root) = .eq := Std.ReflCmp.compare_self
  have hpairwise := discover_pairwise_relativeTo hfs hfiles
  rw [List.pairwise_append, List.pairwise_cons] at hpairwise
  rcases List.mem_append.mp hq with hq | hq
  · have hlt := hpairwise.2.2 q hq p List.mem_cons_self
    simp [heq, hself] at hlt
  · have hlt := hpairwise.2.1.1 q hq
    simp [heq, hself] at hlt

/-- Violations of files that are shown by other paths are not shown by this one. -/
theorem file_ne_of_mem_flatMap {qs : List Path} {file : Path}
    (h : ∀ q ∈ qs, q.relativeTo a.root ≠ file) {v : Violation}
    (hv : v ∈ qs.flatMap fun q => Violation.sortWithin (a.fileViolations fs q)) :
    v.location.file ≠ file := by
  obtain ⟨q, hq, hvq⟩ := List.mem_flatMap.mp hv
  rw [file_of_mem_fileViolations (Violation.mem_sortWithin.mp hvq)]
  exact h q hq

include hfs hfiles in
/-- **The violations of one file stand together.** -/
theorem pieces_split (hp : p ∈ files) :
    ∃ before after,
      files.flatMap (fun q => Violation.sortWithin (a.fileViolations fs q)) =
        before ++ Violation.sortWithin (a.fileViolations fs p) ++ after ∧
      ∀ v ∈ before ++ after, v.location.file ≠ p.relativeTo a.root := by
  obtain ⟨before, after, rfl, hne⟩ := discover_split hfs hfiles hp
  refine ⟨_, _, by rw [List.flatMap_append, List.flatMap_cons, List.append_assoc], ?_⟩
  intro v hv
  rw [← List.flatMap_append] at hv
  exact file_ne_of_mem_flatMap hne hv

include hfs hfiles in
/-- **At one place of a file, the rules come one after the other**, and what each of them reports
is in the order of the constructs. -/
theorem filter_pieces_isAt (hp : p ∈ files) {o : Outline} (ho : fs.outline? p = some o)
    (hfaults : o.faults = []) (line column : Nat) :
    (files.flatMap fun q => Violation.sortWithin (a.fileViolations fs q)).filter
        (fun v => v.location.file = p.relativeTo a.root && v.isAt line column) =
      a.rules.flatMap fun r =>
        (o.constructs.filterMap (a.violation? (p.relativeTo a.root) r)).filter
          (Violation.isAt line column) := by
  obtain ⟨before, after, hpieces, hne⟩ := pieces_split hfs hfiles hp
  have hothers : ∀ vs : List Violation, (∀ v ∈ vs, v.location.file ≠ p.relativeTo a.root) →
      vs.filter (fun v => v.location.file = p.relativeTo a.root && v.isAt line column) = [] := by
    intro vs hvs
    refine List.filter_eq_nil_iff.mpr fun v hv => ?_
    simp [hvs v hv]
  have hown : (Violation.sortWithin (a.fileViolations fs p)).filter
        (fun v => v.location.file = p.relativeTo a.root && v.isAt line column) =
      (Violation.sortWithin (a.fileViolations fs p)).filter (Violation.isAt line column) := by
    refine List.filter_congr fun v hv => ?_
    simp [file_of_mem_fileViolations (Violation.mem_sortWithin.mp hv)]
  rw [hpieces, List.filter_append, List.filter_append,
    hothers before fun v hv => hne v (List.mem_append_left _ hv),
    hothers after fun v hv => hne v (List.mem_append_right _ hv), hown,
    Violation.filter_sortWithin, fileViolations_eq_flatMap ho hfaults, List.filter_flatMap,
    List.nil_append, List.append_nil]

include hfs hfiles in
/-- Two violations of a file at the same place stand as the rules and the constructs do. -/
theorem pair_sublist_pieces (hp : p ∈ files) {o : Outline} (ho : fs.outline? p = some o)
    (hfaults : o.faults = []) {v w : Violation} (hplace : v.SamePlace w)
    (h : [v, w].Sublist (a.rules.flatMap fun r =>
      o.constructs.filterMap (a.violation? (p.relativeTo a.root) r))) :
    [v, w].Sublist (files.flatMap fun q => Violation.sortWithin (a.fileViolations fs q)) := by
  have hat : [v, w].filter (Violation.isAt v.location.line v.location.column) = [v, w] := by
    simp [Violation.isAt, hplace.2.1, hplace.2.2]
  have hfilter := h.filter (Violation.isAt v.location.line v.location.column)
  rw [hat, List.filter_flatMap, ← filter_pieces_isAt hfs hfiles hp ho hfaults] at hfilter
  exact hfilter.trans List.filter_sublist

/-- Within one rule, violations stand as their nodes do in the document. -/
theorem pair_sublist_of_address {t : Tree} (hfaults : (Outline.ofTree t).faults = []) {r : Rule}
    (hr : r ∈ a.rules) {c d : Cursor} (hc : c ∈ (Cursor.ofTree t).walk)
    (hd : d ∈ (Cursor.ofTree t).walk) (hlt : c.address < d.address) {x y : Construct}
    (hx : c.construct? = some x) (hy : d.construct? = some y) {file : Path} {v w : Violation}
    (hv : a.violation? file r x = some v) (hw : a.violation? file r y = some w) :
    [v, w].Sublist (a.rules.flatMap fun r =>
      (Outline.ofTree t).constructs.filterMap (a.violation? file r)) := by
  have hsound : ∀ e ∈ (Cursor.ofTree t).walk, e.focus.isFault = false :=
    fun e he => (Outline.faults_ofTree_eq_nil_iff t).mp hfaults e.address e.focus
      (Cursor.at?_eq_some_iff_mem_walk.mpr ⟨e, he, rfl, rfl⟩)
  have hconstructs := Outline.pair_sublist_constructs hc hd hlt (hsound c hc) (hsound d hd) hx hy
  have hpair := hconstructs.filterMap (a.violation? file r)
  rw [List.filterMap_cons_some hv, List.filterMap_cons_some hw, List.filterMap_nil] at hpair
  exact hpair.trans (List.sublist_flatten_of_mem (List.mem_map_of_mem hr))

include hfs hfiles in
/-- At one place, what is counted at calls stands before what is counted at functions, if the
rules do. -/
theorem pieces_pairwise_kind
    (hrules : a.rules.Pairwise fun r s => ¬(r.kind = .parameters ∧ s.kind = .arguments)) :
    (files.flatMap fun q => Violation.sortWithin (a.fileViolations fs q)).Pairwise fun v w =>
      v.SamePlace w → ¬(v.rule = "func-params" ∧ w.rule = "func-args") := by
  rw [List.pairwise_iff_forall_sublist]
  intro v w hsublist hplace
  obtain ⟨p, hp, hvp⟩ := List.mem_flatMap.mp (hsublist.mem List.mem_cons_self)
  have hvp := Violation.mem_sortWithin.mp hvp
  have hfile := file_of_mem_fileViolations hvp
  obtain ⟨o, ho, hfaults, -⟩ := outline_of_mem_fileViolations hvp
  -- Both stand at one place of one file, so the pair is left by the filter for that place.
  have hat : [v, w].filter (fun u => u.location.file = p.relativeTo a.root &&
      u.isAt v.location.line v.location.column) = [v, w] := by
    simp [Violation.isAt, ← hfile, hplace.1, hplace.2.1, hplace.2.2]
  have hpair := hsublist.filter (fun u => u.location.file = p.relativeTo a.root &&
    u.isAt v.location.line v.location.column)
  rw [hat, filter_pieces_isAt hfs hfiles hp ho hfaults, ← List.filter_flatMap] at hpair
  exact List.pairwise_iff_forall_sublist.mp (pairwise_rule hrules) (hpair.trans List.filter_sublist)

end Pieces

/-! ### One more file -/

section Insertion

variable {fs' : FileSystem} {files files' : List Path} {f : Path} (hfs : fs.WellFormed)
  (hfiles : a.discover fs = .ok files) (hfs' : fs'.WellFormed)
  (hfiles' : a.discover fs' = .ok files') (hperm : files'.Perm (f :: files))

include hfs hfiles hfs' hfiles' hperm in
/-- One more file is put between those before and those after it. -/
theorem discover_insert :
    ∃ before after, files = before ++ after ∧ files' = before ++ f :: after ∧
      ∀ p ∈ before ++ after, p.relativeTo a.root ≠ f.relativeTo a.root := by
  have hf : f ∈ files' := hperm.mem_iff.mpr List.mem_cons_self
  obtain ⟨before, after, rfl, hne⟩ := discover_split hfs' hfiles' hf
  refine ⟨before, after, ?_, rfl, hne⟩
  have hrest : (before ++ after).Perm files := (List.perm_middle.symm.trans hperm).cons_inv
  have hsorted : (before ++ after).Pairwise fun p q => p.order q = .lt :=
    (discover_spec hfs' hfiles').2.sublist ((List.sublist_cons_self f after).append_left before)
  have hsorted' := (discover_spec hfs hfiles).2
  refine (hrest.eq_of_pairwise (fun p q _ _ hpq hqp => ?_) hsorted hsorted').symm
  have hswap : p.order q = (q.order p).swap := Std.OrientedCmp.eq_swap
  simp [hpq, hqp] at hswap

/-- Files that read alike give the same. -/
theorem flatMap_congr_read {qs : List Path} (hread : ∀ p ∈ qs, fs'.read p = fs.read p) :
    (qs.flatMap fun p => Violation.sortWithin (a.fileViolations fs' p)) =
      qs.flatMap fun p => Violation.sortWithin (a.fileViolations fs p) := by
  refine List.flatMap_congr fun p hp => ?_
  rw [fileViolations, fileViolations, hread p hp]

theorem countP_congr_read {qs : List Path} (hread : ∀ p ∈ qs, fs'.read p = fs.read p) :
    qs.countP fs'.isSound = qs.countP fs.isSound := by
  refine List.countP_congr fun p hp => ?_
  rw [FileSystem.isSound, FileSystem.isSound, FileSystem.outline?, FileSystem.outline?, hread p hp]

include hfs hfiles hfs' hfiles' hperm in
/-- **One more file adds its own piece to the report and leaves the rest as it is.** -/
theorem analyze_insert {report : Report} (hreport : a.analyze fs = .ok report)
    (hread : ∀ p ∈ files, fs'.read p = fs.read p) {text : String} (htext : fs'.read f = .ok text)
    (hpasses : fs'.isSound f = true ∨ a.failOnParseError = false) :
    ∃ report' before after, a.analyze fs' = .ok report' ∧
      report.violations = before ++ after ∧
      report'.violations = before ++ Violation.sortWithin (a.fileViolations fs' f) ++ after ∧
      (∀ v ∈ before ++ after, v.location.file ≠ f.relativeTo a.root) ∧
      report'.filesChecked = report.filesChecked + if fs'.isSound f then 1 else 0 := by
  obtain ⟨_, hfiles₀, hall, rfl⟩ := (analyze_eq_ok_iff report).mp hreport
  obtain rfl := Except.ok.inj (hfiles.symm.trans hfiles₀)
  have hsource : isSource f = true :=
    ((discover_spec hfs' hfiles').1 f (hperm.mem_iff.mpr List.mem_cons_self)).1
  have hall' : ∀ p ∈ files', a.Passes fs' p := by
    intro p hp
    rcases List.mem_cons.mp (hperm.mem_iff.mp hp) with rfl | hp
    · exact passes_of_isSource hsource htext hpasses
    · rw [Passes, hread p hp]
      exact hall p hp
  obtain ⟨before, after, rfl, rfl, hne⟩ := discover_insert hfs hfiles hfs' hfiles' hperm
  refine ⟨_, before.flatMap fun p => Violation.sortWithin (a.fileViolations fs p),
    after.flatMap fun p => Violation.sortWithin (a.fileViolations fs p),
    (analyze_eq_ok_iff _).mpr ⟨_, hfiles', hall', rfl⟩, ?_, ?_, ?_, ?_⟩
  · rw [sort_fileViolations hfs hfiles, List.flatMap_append]
  · rw [sort_fileViolations hfs' hfiles', List.flatMap_append, List.flatMap_cons,
      flatMap_congr_read fun p hp => hread p (List.mem_append_left _ hp),
      flatMap_congr_read fun p hp => hread p (List.mem_append_right _ hp), List.append_assoc]
  · intro v hv
    rw [← List.flatMap_append] at hv
    exact file_ne_of_mem_flatMap hne hv
  · rw [sort_fileViolations hfs hfiles, sort_fileViolations hfs' hfiles']
    simp only [List.countP_append, List.countP_cons,
      countP_congr_read fun p hp => hread p (List.mem_append_left _ hp),
      countP_congr_read fun p hp => hread p (List.mem_append_right _ hp)]
    omega

end Insertion

/-! ### The report -/

/-- **The report on a file system goes file by file.** Whenever there is one:
the violations are those of the files in the order of their paths, each file's in the order of
lines and columns; as many files were checked as are sound; the files ascend both by their full
paths and by the paths they are shown by; those of one file stand together; at one place of a file
they come rule by rule, each rule's in the order of the document, so that calls come before
functions if their rules do, and what encloses another construct comes before it. One more file
adds its own violations in one place and changes nothing else, and if it has syntax errors that
are let pass, it adds nothing at all. -/
theorem analyze_file_by_file (a : Analyzer) (fs : FileSystem) (hfs : fs.WellFormed)
    (report : Report) (hreport : a.analyze fs = .ok report) :
    ∃ files, a.discover fs = .ok files ∧
      report.violations =
        files.flatMap (fun p => Violation.sortWithin (a.fileViolations fs p)) ∧
      (∀ p ∈ files, ∃ text, fs.read p = .ok text ∧
        (a.analyzeSource p text = .ok (a.fileViolations fs p) ∧ fs.isSound p = true ∨
          (∃ m, a.analyzeSource p text = .error (.malformed p m)) ∧
            fs.isSound p = false ∧ a.fileViolations fs p = [])) ∧
      report.filesChecked = files.countP fs.isSound ∧
      files.Pairwise (fun p q => p.order q = .lt ∧
        (p.relativeTo a.root).order (q.relativeTo a.root) = .lt) ∧
      (∀ p ∈ files, ∃ before after,
        report.violations = before ++ Violation.sortWithin (a.fileViolations fs p) ++ after ∧
        (∀ v ∈ a.fileViolations fs p, v.location.file = p.relativeTo a.root) ∧
        ∀ v ∈ before ++ after, v.location.file ≠ p.relativeTo a.root) ∧
      (∀ p ∈ files, ∀ o, fs.outline? p = some o → o.faults = [] → ∀ line column,
        report.violations.filter
            (fun v => v.location.file = p.relativeTo a.root && v.isAt line column) =
          a.rules.flatMap fun r =>
            (o.constructs.filterMap (a.violation? (p.relativeTo a.root) r)).filter
              (Violation.isAt line column)) ∧
      (a.rules.Pairwise (fun r s => ¬(r.kind = .parameters ∧ s.kind = .arguments)) →
        report.violations.Pairwise fun v w =>
          v.SamePlace w → ¬(v.rule = "func-params" ∧ w.rule = "func-args")) ∧
      (∀ p ∈ files, ∀ text dialect, fs.read p = .ok text → Dialect.ofPath p = .ok dialect →
        fs.isSound p = true → ∀ r ∈ a.rules,
        ∀ c ∈ (Cursor.ofTree (Grammar.parse dialect text)).walk,
        ∀ d ∈ (Cursor.ofTree (Grammar.parse dialect text)).walk, c.address < d.address →
        ∀ x y v w, c.construct? = some x → d.construct? = some y →
          a.violation? (p.relativeTo a.root) r x = some v →
          a.violation? (p.relativeTo a.root) r y = some w → v.SamePlace w →
          [v, w].Sublist report.violations) ∧
      (∀ fs' files' f text, FileSystem.WellFormed fs' → a.discover fs' = .ok files' →
        files'.Perm (f :: files) → (∀ p ∈ files, fs'.read p = fs.read p) →
        fs'.read f = .ok text → (fs'.isSound f = true ∨ a.failOnParseError = false) →
        ∃ report' before after, a.analyze fs' = .ok report' ∧
          report.violations = before ++ after ∧
          report'.violations = before ++ Violation.sortWithin (a.fileViolations fs' f) ++ after ∧
          report'.violations.filter (·.location.file ≠ f.relativeTo a.root) =
            report.violations ∧
          report'.filesChecked = report.filesChecked + (if fs'.isSound f then 1 else 0) ∧
          (fs'.isSound f = false → report' = report)) := by
  obtain ⟨files, hfiles, hpasses, rfl⟩ := (analyze_eq_ok_iff report).mp hreport
  have hsort := sort_fileViolations hfs hfiles (files.countP fs.isSound)
  refine ⟨files, hfiles, congrArg Report.violations hsort, fun p hp => passes_cases (hpasses p hp),
    congrArg Report.filesChecked hsort, (discover_spec hfs hfiles).2.and
    (discover_pairwise_relativeTo hfs hfiles), fun p hp => ?_, ?_, ?_, ?_, ?_⟩
  · obtain ⟨before, after, hpieces, hne⟩ := pieces_split hfs hfiles hp
    rw [hsort]
    exact ⟨before, after, hpieces, fun v hv => file_of_mem_fileViolations hv, hne⟩
  · rw [hsort]
    exact fun p hp o ho hfaults => filter_pieces_isAt hfs hfiles hp ho hfaults
  · rw [hsort]
    exact pieces_pairwise_kind hfs hfiles
  · rw [hsort]
    intro p hp text dialect hread hdialect hsound r hr c hc d hd hlt x y v w hx hy hv hw hplace
    have ho : fs.outline? p = some (Outline.ofTree (Grammar.parse dialect text)) :=
      FileSystem.outline?_eq_some_iff.mpr ⟨text, dialect, hread, hdialect, rfl⟩
    have hfaults : (Outline.ofTree (Grammar.parse dialect text)).faults = [] := by
      simpa [FileSystem.isSound, ho] using hsound
    exact pair_sublist_pieces hfs hfiles hp ho hfaults hplace
      (pair_sublist_of_address hfaults hr hc hd hlt hx hy hv hw)
  · intro fs' files' f text hfs' hfiles' hperm hread htext hsound
    obtain ⟨report', before, after, hreport', hold, hnew, hne, hchecked⟩ :=
      analyze_insert hfs hfiles hfs' hfiles' hperm hreport hread htext hsound
    refine ⟨report', before, after, hreport', hold, hnew, ?_, hchecked, fun hmalformed => ?_⟩
    · have hown : ∀ v ∈ Violation.sortWithin (a.fileViolations fs' f),
          v.location.file = f.relativeTo a.root :=
        fun v hv => file_of_mem_fileViolations (Violation.mem_sortWithin.mp hv)
      rw [hnew, hold]
      exact filter_insert (fun v hv => by simpa using hne v hv)
        (fun v hv => by simpa using hown v hv)
    · rw [fileViolations_of_not_isSound hmalformed] at hnew
      rw [hmalformed] at hchecked
      obtain ⟨violations, checked⟩ := report'
      simp_all [Violation.sortWithin]

theorem discover_toOption (a : Analyzer) (fs : FileSystem) :
    (a.discover fs).toOption =
      (fs.walk a.root a.config.analyzer.respectGitignore).toOption.map fun found =>
        ((found.filter isSource).filter (!a.isExcluded ·)).insertionSort
          fun p q => (p.order q).isLE := by
  rw [discover]
  cases fs.walk a.root a.config.analyzer.respectGitignore with
  | error fault => rfl
  | ok found =>
    refine congrArg some ?_
    exact Sorting.mergeSort_eq_insertionSort (fun _ _ _ => Std.TransCmp.isLE_trans) isLE_or_isLE _

/-- A folder comes before a file whose name goes on after its own, a call before the function that
it calls and before the call whose result it calls, though they start at one place, and a file with
a syntax error that is put beside them changes nothing. -/
theorem analyze_file_by_file_of_nested_calls :
    let rules := [RuleKind.arguments, .parameters].map fun k => (Rule.ofKind k).withLimit "global" 0
    let a : Analyzer := ⟨⟨"/p"⟩, rules, [], {}, false⟩
    let root : Node := .folder [("p", .folder [("a.js", .file "f(1)(2)".toUTF8),
      ("a", .folder [("b.js", .file "x=function(a){}(1)".toUTF8)])])]
    let fs : FileSystem := ⟨root, ⟨"/"⟩⟩
    let fs' : FileSystem := ⟨.graft (.file "f(".toUTF8) ["p", "c.js"] root, ⟨"/"⟩⟩
    fs.WellFormed ∧ fs'.WellFormed ∧
      ∃ report, a.analyze fs = .ok report ∧ a.analyze fs' = .ok report ∧
        report.violations.map
            (fun v => (v.location.file.text, v.location.column, v.rule, v.data)) =
          [("a/b.js", 3, "func-args", some ⟨"", 1, 0⟩),
            ("a/b.js", 3, "func-params", some ⟨"function", 1, 0⟩),
            ("a.js", 1, "func-args", some ⟨"", 1, 0⟩), ("a.js", 1, "func-args", some ⟨"f", 1, 0⟩)] ∧
        report.violations.Pairwise (fun v w =>
          v.SamePlace w → ¬(v.rule = "func-params" ∧ w.rule = "func-args")) ∧
        report.filesChecked = 2 := by
  intro rules a root fs fs'
  have hfs : fs.WellFormed := by
    refine .folder _ (by decide) (by decide) (List.forall_mem_singleton.mpr ?_)
    refine .folder _ (by decide) (by decide) ?_
    rw [List.forall_mem_cons, List.forall_mem_singleton]
    exact ⟨.file _, .folder _ (by decide) (by decide) (List.forall_mem_singleton.mpr (.file _))⟩
  have hfs' : fs'.WellFormed := Node.WellFormed.graft (.file _) (by decide) hfs
  have hdiscover : a.discover fs = .ok [⟨"/p/a/b.js"⟩, ⟨"/p/a.js"⟩] :=
    eq_ok_of_toOption (by rw [discover_toOption]; decide +kernel)
  have hdiscover' : a.discover fs' = .ok [⟨"/p/a/b.js"⟩, ⟨"/p/a.js"⟩, ⟨"/p/c.js"⟩] :=
    eq_ok_of_toOption (by rw [discover_toOption]; decide +kernel)
  have hb : fs.read ⟨"/p/a/b.js"⟩ = .ok "x=function(a){}(1)" :=
    eq_ok_of_toOption (by decide +kernel)
  have ha : fs.read ⟨"/p/a.js"⟩ = .ok "f(1)(2)" := eq_ok_of_toOption (by decide +kernel)
  have hb' : fs'.read ⟨"/p/a/b.js"⟩ = .ok "x=function(a){}(1)" :=
    eq_ok_of_toOption (by decide +kernel)
  have ha' : fs'.read ⟨"/p/a.js"⟩ = .ok "f(1)(2)" := eq_ok_of_toOption (by decide +kernel)
  have hc' : fs'.read ⟨"/p/c.js"⟩ = .ok "f(" := eq_ok_of_toOption (by decide +kernel)
  have hpasses : ∀ p ∈ [⟨"/p/a/b.js"⟩, ⟨"/p/a.js"⟩], a.Passes fs p := by
    rw [List.forall_mem_cons, List.forall_mem_singleton]
    exact ⟨passes_of_isSource (by decide +kernel) hb (.inr rfl),
      passes_of_isSource (by decide +kernel) ha (.inr rfl)⟩
  have hreport := (analyze_eq_ok_iff _).mpr ⟨_, hdiscover, hpasses, rfl⟩
  obtain ⟨files, hfiles, hviolations, -, hchecked, -, -, -, hkinds, -, hinsert⟩ :=
    analyze_file_by_file a fs hfs _ hreport
  obtain rfl := Except.ok.inj (hdiscover.symm.trans hfiles)
  have hread : ∀ p ∈ [⟨"/p/a/b.js"⟩, ⟨"/p/a.js"⟩], fs'.read p = fs.read p := by
    rw [List.forall_mem_cons, List.forall_mem_singleton]
    exact ⟨hb'.trans hb.symm, ha'.trans ha.symm⟩
  obtain ⟨report', -, -, hreport', -, -, -, -, hsame⟩ :=
    hinsert fs' _ ⟨"/p/c.js"⟩ "f(" hfs' hdiscover' (by decide) hread hc' (.inr rfl)
  obtain rfl := hsame (by decide +kernel)
  refine ⟨hfs, hfs', _, hreport, hreport', ?_, hkinds (by decide), ?_⟩
  · rw [hviolations]
    simp only [Violation.sortWithin_eq_insertionSort]
    decide +kernel
  · rw [hchecked]
    decide +kernel

end ArityCheck.Analyzer