import ArityCheck.Proofs.Analysis.Exclusion
import ArityCheck.Proofs.Glob.Anchored

/-! When the rests of patterns leave out no more than their globs match.

The rest of a pattern is looked for anywhere in a path, so it can be found where the glob does not
match: `**/name.js` leaves out `name.jsx` as well. That does not happen to anchored patterns, and it
happens to every other one, in the path of some source file (`agrees_iff_isAnchored`). -/
namespace ArityCheck

namespace Glob

variable {g : Glob}

def probePath (g : Glob) : Path := ⟨String.ofList g.probe⟩

theorem isAbsolute_probePath (g : Glob) : g.probePath.isAbsolute = true := by
  simp [Path.isAbsolute, probePath, probe]

theorem isSource_probePath (g : Glob) : Analyzer.isSource g.probePath = true := by
  obtain ⟨front, last, hsplit, hlast⟩ := Path.exists_last_segment (g.longName ++ g.rest)
  have htext : g.probe = front ++ '/' :: (last ++ g.longName ++ '.' :: ['j', 's']) := by
    rw [probe, ← List.cons_append, hsplit]
    simp
  have hbase : last ++ g.longName ≠ [] := by simp [longName]
  have hslash : '/' ∉ last ++ g.longName ++ ['j', 's'] := by
    simp [hlast, g.slash_not_mem_longName]
  rw [Analyzer.isSource, probePath, htext,
    Path.extension?_of_append front hbase hslash (by simp) (by simp)]
  rfl

end Glob

namespace Analyzer

variable {a : Analyzer} {g : Glob} {path : Path}

/-- A source file is left out exactly if one of the globs matches its path. -/
def Agrees (a : Analyzer) : Prop :=
  ∀ path : Path, path.isAbsolute = true → isSource path = true →
    (a.isExcluded path = true ↔ ∃ g ∈ a.excludes, g.isMatch path.text = true)

theorem isExcluded_iff : a.isExcluded path = true ↔
    (∃ g ∈ a.excludes, g.isMatch path.text = true) ∨ ∃ g ∈ a.excludes, occursIn g path = true := by
  rw [isExcluded, Bool.or_eq_true, List.any_eq_true, List.any_eq_true]

theorem isMatch_of_occursIn {text : String} (h : Glob.parse text = .ok g)
    (hanchored : g.isAnchored = true) (hpath : path.isAbsolute = true)
    (hoccurs : occursIn g path = true) : g.isMatch path.text = true := by
  obtain ⟨hne, hstar, hrest⟩ := occursIn_iff.mp hoccurs
  exact Glob.isMatch_of_isAnchored h hanchored hne hstar (by simpa [Path.isAbsolute] using hpath)
    hrest

/-- The rest of a pattern that is not anchored occurs in a path that the glob does not match. -/
theorem occursIn_probePath (h : g.isAnchored = false) :
    occursIn g g.probePath = true ∧ g.isMatch g.probePath.text = false := by
  rw [Glob.isAnchored, Bool.or_eq_false_iff, Bool.or_eq_false_iff] at h
  obtain ⟨⟨hne, hstar⟩, hprobe⟩ := h
  have htext : g.probePath.text.toList = g.probe := by simp [Glob.probePath]
  refine ⟨occursIn_iff.mpr ⟨by simpa using hne, by simpa using hstar, ?_⟩, ?_⟩
  · rw [htext, Glob.probe]
    exact ((List.infix_append _ _ _).trans (List.suffix_cons _ _).isInfix)
  · rw [Glob.isMatch, htext, hprobe]

theorem agrees_of_isAnchored (hparse : ∀ g ∈ a.excludes, ∃ text, Glob.parse text = .ok g)
    (hanchored : ∀ g ∈ a.excludes, g.isAnchored = true) : a.Agrees := by
  intro path hpath _
  rw [isExcluded_iff]
  refine ⟨?_, .inl⟩
  rintro (hmatch | ⟨g, hg, hoccurs⟩)
  · exact hmatch
  · obtain ⟨text, htext⟩ := hparse g hg
    exact ⟨g, hg, isMatch_of_occursIn htext (hanchored g hg) hpath hoccurs⟩

theorem isAnchored_of_agrees (ha : a.excludes = [g]) (h : a.Agrees) : g.isAnchored = true := by
  by_contra hanchored
  obtain ⟨hoccurs, hmatch⟩ := occursIn_probePath (Bool.eq_false_iff.mpr hanchored)
  have hexcluded : a.isExcluded g.probePath = true :=
    isExcluded_iff.mpr (.inr ⟨g, by simp [ha], hoccurs⟩)
  have hagrees := (h _ g.isAbsolute_probePath g.isSource_probePath).mp hexcluded
  simp [ha, hmatch] at hagrees

/-- **The rests of patterns leave out no more than the globs match, if the patterns are anchored.**
A single pattern that is not anchored leaves out more, and without classes it can be read off a
pattern whether it is. -/
theorem agrees_iff_isAnchored {cwd : Path} {root : Option Path} {config : Option Config}
    {exclude : List String} {rules : List Rule} {strict : Bool}
    (h : build cwd root config exclude rules strict = .ok a) :
    ((∀ g ∈ a.excludes, g.isAnchored = true) → a.Agrees) ∧
      ∀ g ∈ a.excludes, (Agrees { a with excludes := [g] } ↔ g.isAnchored = true) ∧
        (Glob.Classless g.tokens → (g.isAnchored = true ↔ g.tokens = [] ∨ .sequence ∈ g.tokens ∨
          Glob.BeginsRecursive g.tokens ∧ g.tokens.getLast? = some .recursive)) := by
  obtain ⟨excludes, hexcludes, rfl⟩ := build_eq_ok_iff.mp h
  have hparse : ∀ g ∈ excludes, ∃ text, Glob.parse text = .ok g := by
    intro g hg
    obtain ⟨text, -, htext⟩ := exists_of_mem_mapM hexcludes hg
    exact ⟨text, htext⟩
  refine ⟨agrees_of_isAnchored hparse, fun g hg => ?_⟩
  obtain ⟨text, htext⟩ := hparse g hg
  refine ⟨⟨isAnchored_of_agrees rfl, fun hanchored => ?_⟩, Glob.isAnchored_iff htext⟩
  exact agrees_of_isAnchored (by simpa using ⟨text, htext⟩) (by simpa using hanchored)

/-- A lone wildcard and a separator at the front are no obstacle. -/
theorem agrees_iff_isAnchored_of_wildcards :
    ∃ a, build ⟨"/p"⟩ none none ["/**/gen?/**", "**/*.min.js"] [] false = .ok a ∧ a.Agrees := by
  have hanchored : ((build ⟨"/p"⟩ none none ["/**/gen?/**", "**/*.min.js"] [] false).toOption.any
      fun a => a.excludes.all Glob.isAnchored) = true := by decide +kernel
  cases hbuild : build ⟨"/p"⟩ none none ["/**/gen?/**", "**/*.min.js"] [] false with
  | error e => simp [hbuild, Except.toOption] at hanchored
  | ok a =>
    refine ⟨a, rfl, (agrees_iff_isAnchored hbuild).1 ?_⟩
    simpa [hbuild, Except.toOption] using hanchored

/-- A file with a longer extension is left out, though the pattern ends before it. -/
theorem isExcluded_longer_extension :
    ∃ a, build ⟨"/p"⟩ none none ["**/name.js"] [] false = .ok a ∧
      Path.isAbsolute ⟨"/p/name.jsx"⟩ = true ∧ isSource ⟨"/p/name.jsx"⟩ = true ∧
      a.isExcluded ⟨"/p/name.jsx"⟩ = true ∧
      a.excludes.any (·.isMatch "/p/name.jsx") = false :=
  ⟨_, rfl, rfl, by decide +kernel, by decide +kernel, by decide +kernel⟩

end Analyzer

end ArityCheck
