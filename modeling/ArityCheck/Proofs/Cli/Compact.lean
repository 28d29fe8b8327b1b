import ArityCheck.Proofs.Cli.Reread
import ArityCheck.Proofs.Outline.Lines
import ArityCheck.Proofs.Report.Message

/-! The lines of a compact report.

The compact format ends a line after each violation, so there are as many lines as violations
exactly if no summary has a line break in it. All of a summary but the name of its subject stands on
one line, as long as the path of the file does (`Finding.break_mem_summary_iff`). That leaves the
names: those of calls stand on one line, and those of functions do unless they come from a key that
is a string over several lines (`Finding.tellsBrokenKey_iff`). -/
namespace ArityCheck

/-! ### Texts without line breaks -/

theorem break_not_mem_toString (n : Nat) : '\n' ∉ (toString n).toList :=
  Excess.not_mem_toString (by decide) n

theorem RuleKind.break_not_mem_rest (kind : RuleKind) (count max : Nat) :
    '\n' ∉ kind.rest (toString count).toList (toString max).toList := by
  have hwords : '\n' ∉ kind.words.toList := by cases kind <;> decide
  simp only [rest, List.mem_cons, List.mem_append, not_or]
  exact ⟨by decide, hwords, break_not_mem_toString count, by decide, break_not_mem_toString max,
    by decide⟩

theorem Severity.break_not_mem_name (s : Severity) : '\n' ∉ s.name.toList := by
  cases s <;> decide

theorem RuleKind.break_not_mem_code (kind : RuleKind) : '\n' ∉ kind.code.toList := by
  cases kind <;> decide

theorem Shape.break_not_mem_phrase (shape : Shape) : '\n' ∉ shape.phrase.toList := by
  have hdescribe : ∀ (m : Modifiers) (noun : String), '\n' ∉ noun.toList →
      '\n' ∉ (m.describe noun).toList := by
    intro m noun hnoun
    obtain ⟨isAsync, isGenerator⟩ := m
    cases isAsync <;> cases isGenerator <;> simp [Modifiers.describe, hnoun]
  cases shape with
  | declaration name modifiers | expression name modifiers =>
    exact hdescribe modifiers _ (by decide)
  | method name kind modifiers =>
    cases kind with
    | method => exact hdescribe modifiers _ (by decide)
    | getter | setter | constructor => simp [phrase]
  | arrow isAsync => cases isAsync <;> decide
  | signature name kind => cases kind <;> simp [phrase]

/-! ### Messages -/

theorem Excess.break_mem_render_iff (e : Excess) (kind : RuleKind) :
    '\n' ∈ (e.render kind.template).toList ↔ '\n' ∈ e.name.toList := by
  have hfilled : '\n' ∈ e.filledName.toList ↔ '\n' ∈ e.name.toList := by
    rw [toList_filledName,
      Text.mem_replaceAfter_iff (by decide) (by decide) (break_not_mem_toString e.max),
      Text.mem_replaceAfter_iff (by decide) (by decide) (break_not_mem_toString e.count)]
  rw [render_template, RuleKind.toList_sentence, List.mem_append, hfilled]
  exact or_iff_left (kind.break_not_mem_rest e.count e.max)

/-- What is shown of a subject goes over several lines exactly if its name does. -/
theorem RuleKind.break_mem_shown_iff {kind : RuleKind} {x : Construct} {s : Subject}
    (h : kind.subject? x = some s) : '\n' ∈ s.shown.toList ↔ '\n' ∈ s.name.toList := by
  cases kind <;> cases x <;> simp only [subject?, Option.some.injEq, reduceCtorEq] at h
  case arguments.call callee count span =>
    subst h
    dsimp only
    split
    case isTrue hempty => rw [hempty]; decide
    case isFalse => rfl
  case parameters.function => subst h; rfl

theorem Violation.break_mem_summary_iff {v : Violation}
    (hfile : '\n' ∉ v.location.file.text.toList) (hcode : '\n' ∉ v.code.toList) :
    '\n' ∈ v.summary.toList ↔ '\n' ∈ v.message.toList := by
  have hplace : '\n' ∉ v.place.toList := by
    simp only [place, String.toList_append, List.mem_append, not_or]
    exact ⟨⟨⟨⟨hfile, by decide⟩, break_not_mem_toString _⟩, by decide⟩, break_not_mem_toString _⟩
  have hseverity := v.severity.break_not_mem_name
  simp [summary, hplace, hseverity, hcode]

/-- **A summary has a line break in it exactly if the name of its subject has.** -/
theorem Finding.break_mem_summary_iff {f : Finding} {x : Construct}
    (h : f.kind.subject? x = some f.subject) {file : Path} (hfile : '\n' ∉ file.text.toList)
    (severity : Severity) :
    '\n' ∈ (f.violation file severity).summary.toList ↔ '\n' ∈ f.subject.name.toList := by
  rw [Violation.break_mem_summary_iff hfile f.kind.break_not_mem_code]
  show '\n' ∈ f.message.toList ↔ _
  rw [message, Excess.break_mem_render_iff]
  exact RuleKind.break_mem_shown_iff h

/-! ### Names -/

/-- The violation is of a function of the text, and it tells the function by the name of a key that
goes over several lines. -/
def Violation.TellsBrokenKey (v : Violation) (t : Tree) : Prop :=
  ∃ shape count binding span max name,
    Construct.function shape count binding span ∈ (Outline.ofTree t).constructs ∧
    v.data = some ⟨shape.label binding, count, max⟩ ∧ shape.labelName? binding = some name ∧
    t.HasBrokenKey name

theorem Shape.break_mem_label_iff {shape : Shape} {binding : Option Binding} :
    '\n' ∈ (shape.label binding).toList ↔
      ∃ name, shape.labelName? binding = some name ∧ '\n' ∈ name.toList := by
  have hphrase := shape.break_not_mem_phrase
  rw [label]
  cases shape.labelName? binding with
  | none => simpa using hphrase
  | some name => simp [hphrase]

/-- **The name of a subject goes over several lines exactly if it is told by such a key.** -/
theorem Finding.tellsBrokenKey_iff {t : Tree} (ht : t.Lined) {f : Finding} {x : Construct}
    (hx : x ∈ (Outline.ofTree t).constructs) (h : f.kind.subject? x = some f.subject) (file : Path)
    (severity : Severity) :
    '\n' ∈ f.subject.name.toList ↔ (f.violation file severity).TellsBrokenKey t := by
  obtain ⟨kind, s, max⟩ := f
  constructor
  · intro hbreak
    cases kind <;> cases x <;> simp only [RuleKind.subject?, Option.some.injEq, reduceCtorEq] at h
    case arguments.call callee count span =>
      subst h
      cases hname : callee.name? with
      | none => simp [hname] at hbreak
      | some name =>
        rw [hname] at hbreak
        exact absurd hbreak (Outline.not_mem_name_of_call ht hx hname)
    case parameters.function shape count binding span =>
      subst h
      obtain ⟨name, hname, hbreak⟩ := Shape.break_mem_label_iff.mp hbreak
      exact ⟨shape, count, binding, span, max, name, hx, rfl, hname,
        Outline.hasBrokenKey_of_function ht hx hname hbreak⟩
  · rintro ⟨shape, count, binding, span, max', name, _, hdata, hname, hkey⟩
    have hlabel : s.name = shape.label binding := congrArg Excess.name (Option.some.inj hdata)
    rw [hlabel]
    exact Shape.break_mem_label_iff.mpr ⟨name, hname, hkey.break_mem⟩

/-! ### Reports -/

/-- **What is reported about a text has a line break in it exactly if it tells a key that has.** -/
theorem Analyzer.break_mem_summary_iff (a : Analyzer) {path : Path}
    (hpath : '\n' ∉ path.text.toList) {t : Tree} (ht : t.Lined) {v : Violation}
    (hv : v ∈ a.rules.flatMap fun r =>
      (Outline.ofTree t).constructs.filterMap (a.violation? (path.relativeTo a.root) r)) :
    '\n' ∈ v.summary.toList ↔ v.TellsBrokenKey t := by
  obtain ⟨r, _, hv⟩ := List.mem_flatMap.mp hv
  obtain ⟨x, hx, hv⟩ := List.mem_filterMap.mp hv
  rw [violation?] at hv
  split at hv
  case isFalse => cases hv
  case isTrue =>
    obtain ⟨f, hf, rfl⟩ := Option.map_eq_some_iff.mp hv
    obtain ⟨s, max, hs, _, rfl⟩ := Rule.finding?_eq_some_iff.mp hf
    have hfile : '\n' ∉ (path.relativeTo a.root).text.toList := fun hbreak =>
      hpath (Path.mem_text_of_mem_relativeTo (by decide) hbreak)
    have hsubject : (Finding.mk r.kind s max).kind.subject? x = some s := hs
    rw [Finding.break_mem_summary_iff hsubject hfile]
    exact Finding.tellsBrokenKey_iff ht hx hsubject _ _

theorem Analyzer.break_mem_summary_of_fileViolations (a : Analyzer) {fs : FileSystem} {p : Path}
    (hpath : '\n' ∉ p.text.toList) {v : Violation} (hv : v ∈ a.fileViolations fs p) :
    ∃ text dialect, fs.read p = .ok text ∧ Dialect.ofPath p = .ok dialect ∧
      ('\n' ∈ v.summary.toList ↔ v.TellsBrokenKey (Grammar.parse dialect text)) := by
  obtain ⟨o, ho, _, hv⟩ := outline_of_mem_fileViolations hv
  obtain ⟨text, dialect, hread, hdialect, rfl⟩ := FileSystem.outline?_eq_some_iff.mp ho
  exact ⟨text, dialect, hread, hdialect,
    a.break_mem_summary_iff hpath (Grammar.lined_parse dialect text) hv⟩

/-- The violations in the compact format. -/
def Violation.lines (vs : List Violation) : List Char :=
  (String.join (vs.map fun v => v.summary ++ "\n")).toList

/-- Each violation takes a line, and more than one exactly if its summary has a line break in it. -/
theorem Violation.count_lines (vs : List Violation) :
    vs.length ≤ (lines vs).count '\n' ∧
      ((lines vs).count '\n' = vs.length ↔ ∀ v ∈ vs, '\n' ∉ v.summary.toList) := by
  induction vs with
  | nil => simp [lines]
  | cons v vs ih =>
    obtain ⟨hle, hiff⟩ := ih
    have hend : "\n".toList.count '\n' = 1 := by decide
    have hsummary := List.count_eq_zero (a := '\n') (l := v.summary.toList)
    rw [lines, List.map_cons, String.join_cons, String.toList_append, String.toList_append,
      List.count_append, List.count_append, hend, ← lines, List.length_cons,
      List.forall_mem_cons, ← hsummary, ← hiff]
    omega

theorem Report.count_print_compact (r : Report) (fs : FileSystem) (root : Path) :
    (Cli.Outcome.ofReport r fs root .compact).output.toList.count '\n' = r.violations.length ↔
      ∀ v ∈ r.violations, '\n' ∉ v.summary.toList :=
  (Violation.count_lines r.violations).2

namespace Cli

open Analyzer

/-- **The compact format prints one line for each violation, unless one tells a key that goes over
several lines.** For a file whose path stands on one line, a summary has a line break in it exactly
if it tells a function by such a key, so a text whose strings stand on one line gives none. -/
theorem compact_lines_of_violations (a : Analyzer) :
    (∀ (path : Path) (text : String) (vs : List Violation), '\n' ∉ path.text.toList →
      a.analyzeSource path text = .ok vs → ∃ dialect, Dialect.ofPath path = .ok dialect ∧
        (∀ v ∈ vs, '\n' ∈ v.summary.toList ↔ v.TellsBrokenKey (Grammar.parse dialect text)) ∧
        ((∀ address n, (Grammar.parse dialect text).at? address = some n → n.kind = .string →
          '\n' ∉ n.text.toList) → ∀ v ∈ vs, '\n' ∉ v.summary.toList)) ∧
    ∀ (fs : FileSystem) (files : List Path) (report : Report), a.discover fs = .ok files →
      (∀ p ∈ files, '\n' ∉ p.text.toList) → a.analyze fs = .ok report →
        ((Outcome.ofReport report fs a.root .compact).output.toList.count '\n' =
            report.violations.length ↔
          ∀ p ∈ files, ∀ text dialect, fs.read p = .ok text → Dialect.ofPath p = .ok dialect →
            ∀ v ∈ a.fileViolations fs p, ¬v.TellsBrokenKey (Grammar.parse dialect text)) := by
  constructor
  · intro path text vs hpath h
    obtain ⟨dialect, hdialect, _, rfl⟩ := (a.analyzeSource_eq_ok_iff path text vs).mp h
    have hlined := Grammar.lined_parse dialect text
    refine ⟨dialect, hdialect, fun v hv => a.break_mem_summary_iff hpath hlined hv,
      fun hstrings v hv hbreak => ?_⟩
    obtain ⟨_, _, _, _, _, _, _, _, _, hkey⟩ :=
      (a.break_mem_summary_iff hpath hlined hv).mp hbreak
    obtain ⟨address, literal, hat, hkind, hlines⟩ := hkey.exists_string
    exact hstrings address literal hat hkind hlines
  · intro fs files report hfiles hpaths h
    rw [Report.count_print_compact]
    constructor
    · intro hlines p hp text dialect hread hdialect v hv
      obtain ⟨text', dialect', hread', hdialect', hiff⟩ :=
        a.break_mem_summary_of_fileViolations (hpaths p hp) hv
      obtain rfl := Except.ok.inj (hread.symm.trans hread')
      obtain rfl := Except.ok.inj (hdialect.symm.trans hdialect')
      rw [← hiff]
      exact hlines v ((Analyzer.mem_violations_iff h hfiles).mpr ⟨p, hp, hv⟩)
    · intro hkeys v hv
      obtain ⟨p, hp, hv⟩ := (Analyzer.mem_violations_iff h hfiles).mp hv
      obtain ⟨text, dialect, hread, hdialect, hiff⟩ :=
        a.break_mem_summary_of_fileViolations (hpaths p hp) hv
      rw [hiff]
      exact hkeys p hp text dialect hread hdialect v hv

/-- A call, a key that is a string and one that is computed from a string, all on one line. -/
theorem compact_lines_of_violations_of_keys :
    let a : Analyzer := ⟨⟨"/p"⟩, [(Rule.ofKind .arguments).withLimit "global" 0,
      (Rule.ofKind .parameters).withLimit "global" 0], [], {}, false⟩
    let text := "f(1);o=\x7b'a b':x=>x,['c'](x)\x7b\x7d\x7d"
    let fs : FileSystem := ⟨.folder [("p", .folder [("a.js", .file text.toUTF8)])], ⟨"/"⟩⟩
    a.discover fs = .ok [⟨"/p/a.js"⟩] ∧ (∀ p ∈ [Path.mk "/p/a.js"], '\n' ∉ p.text.toList) ∧
      (∃ vs, a.analyzeSource ⟨"/p/a.js"⟩ text = .ok vs ∧ ∀ v ∈ vs, '\n' ∉ v.summary.toList) ∧
      ∃ report, a.analyze fs = .ok report ∧ report.violations.length = 3 ∧
        (Outcome.ofReport report fs a.root .compact).output.toList.count '\n' = 3 := by
  intro a text fs
  have hdiscover : a.discover fs = .ok [⟨"/p/a.js"⟩] :=
    eq_ok_of_toOption (by rw [discover_toOption]; decide +kernel)
  have hpaths : ∀ p ∈ [Path.mk "/p/a.js"], '\n' ∉ p.text.toList := by decide
  have hread : fs.read ⟨"/p/a.js"⟩ = .ok text := eq_ok_of_toOption (by decide +kernel)
  have hjavaScript : Dialect.ofPath ⟨"/p/a.js"⟩ = .ok .javaScript :=
    eq_ok_of_toOption (by decide +kernel)
  obtain ⟨vs, hvs⟩ := (fs.isSound_iff a hread).mp (by decide +kernel)
  have hpasses : ∀ p ∈ [⟨"/p/a.js"⟩], a.Passes fs p :=
    List.forall_mem_singleton.mpr ⟨text, hread, .inl ⟨vs, hvs⟩⟩
  have hreport := (analyze_eq_ok_iff _).mpr ⟨_, hdiscover, hpasses, rfl⟩
  have hlength : (Report.sort ⟨[Path.mk "/p/a.js"].flatMap (a.fileViolations fs),
      [Path.mk "/p/a.js"].countP fs.isSound⟩).violations.length = 3 := by
    rw [Report.sort_eq_insertionSort]
    decide +kernel
  obtain ⟨hsource, hprint⟩ := compact_lines_of_violations a
  obtain ⟨dialect, hdialect, hiff, hstrings⟩ := hsource ⟨"/p/a.js"⟩ text vs (by decide) hvs
  obtain rfl := Except.ok.inj (hjavaScript.symm.trans hdialect)
  have hone : ∀ v ∈ vs, '\n' ∉ v.summary.toList := by
    refine hstrings fun address n hat hkind hbreak => ?_
    have hall : ∀ e ∈ (Grammar.parse .javaScript text).located, e.2.kind = .string →
        '\n' ∉ e.2.text.toList := by decide +kernel
    exact hall (address, n) (Tree.mem_located_iff.mpr hat) hkind hbreak
  refine ⟨hdiscover, hpaths, ⟨vs, hvs, hone⟩, _, hreport, hlength, ?_⟩
  rw [← hlength]
  refine (hprint fs _ _ hdiscover hpaths hreport).mpr ?_
  refine List.forall_mem_singleton.mpr fun text' dialect' hread' hdialect' v hv htells => ?_
  obtain rfl := Except.ok.inj (hread.symm.trans hread')
  obtain rfl := Except.ok.inj (hjavaScript.symm.trans hdialect')
  rw [fileViolations_of_ok hread hvs] at hv
  exact hone v hv ((hiff v hv).mpr htells)

/-- A string that goes on after a backslash at the end of a line takes the message with it. -/
theorem compact_breaks_line_of_key :
    let a : Analyzer :=
      ⟨⟨"/p"⟩, [(Rule.ofKind .parameters).withLimit "global" 1], [], {}, false⟩
    let text := "const o = \x7b 'a\\\nb'(x, y) \x7b\x7d \x7d;\n"
    let fs : FileSystem := ⟨.folder [("p", .folder [("a.js", .file text.toUTF8)])], ⟨"/"⟩⟩
    a.discover fs = .ok [⟨"/p/a.js"⟩] ∧ (∀ p ∈ [Path.mk "/p/a.js"], '\n' ∉ p.text.toList) ∧
      ∃ report, a.analyze fs = .ok report ∧ report.violations.length = 1 ∧
        (Outcome.ofReport report fs a.root .compact).output =
          "a.js:1:13: error [AR002] method 'a\\\nb' has too many params (2). " ++
            "Maximum allowed is (1).\n" := by
  intro a text fs
  have hdiscover : a.discover fs = .ok [⟨"/p/a.js"⟩] :=
    eq_ok_of_toOption (by rw [discover_toOption]; decide +kernel)
  have hread : fs.read ⟨"/p/a.js"⟩ = .ok text := eq_ok_of_toOption (by decide +kernel)
  have hpasses : ∀ p ∈ [⟨"/p/a.js"⟩], a.Passes fs p :=
    List.forall_mem_singleton.mpr (passes_of_isSource (by decide +kernel) hread (.inr rfl))
  have hreport := (analyze_eq_ok_iff _).mpr ⟨_, hdiscover, hpasses, rfl⟩
  refine ⟨hdiscover, by decide, _, hreport, ?_⟩
  rw [Report.sort_eq_insertionSort]
  decide +kernel

end Cli

end ArityCheck
