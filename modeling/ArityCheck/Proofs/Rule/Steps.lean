import ArityCheck.Proofs.Analysis.Source
import ArityCheck.Proofs.SortedMap
import Mathlib.Data.List.Induction

/-! Rules that are made step by step.

A rule starts without limits and gets them, and its severity, one step after the other. What a step
writes may be written again later, and then only the last write counts: `limits_get?_ofSteps` and
`severity_ofSteps` say so for a whole sequence of steps, from what one step does. So two sequences
with the same last writes make the same rule (`ofSteps_congr`), and `check_ofSteps` tells what that
means for its violations and for the limits it lists. -/
namespace ArityCheck.Rule

/-! ### Steps -/

/-- One step in making a rule. The limit of a category is that of its key, and the global one that
of `global`. -/
inductive Step where
  | limit (key : String) (value : Int)
  | severity (s : Severity)
deriving DecidableEq, Repr

namespace Step

def apply (r : Rule) : Step → Rule
  | .limit key value => r.withLimit key value
  | .severity s => r.withSeverity s

/-- What a step writes: the limit of a key, or else the severity. -/
def target : Step → Option String
  | .limit key _ => some key
  | .severity _ => none

/-- The limit that a step gives to a key. -/
def limitOf? (key : String) : Step → Option Int
  | .limit k value => if k = key then some value else none
  | .severity _ => none

def severity? : Step → Option Severity
  | .limit _ _ => none
  | .severity s => some s

end Step

/-- The rule that a sequence of steps makes. -/
def ofSteps (kind : RuleKind) (steps : List Step) : Rule := steps.foldl Step.apply (ofKind kind)

/-- The limit that a key is given last. -/
def lastLimit? (steps : List Step) (key : String) : Option Int :=
  steps.reverse.findSome? (Step.limitOf? key)

/-- The severity that is given last. -/
def lastSeverity? (steps : List Step) : Option Severity := steps.reverse.findSome? Step.severity?

/-! ### What a sequence writes -/

theorem ofSteps_concat (kind : RuleKind) (steps : List Step) (s : Step) :
    ofSteps kind (steps ++ [s]) = s.apply (ofSteps kind steps) := by
  rw [ofSteps, List.foldl_append]
  rfl

theorem lastLimit?_concat (steps : List Step) (s : Step) (key : String) :
    lastLimit? (steps ++ [s]) key = (s.limitOf? key).or (lastLimit? steps key) := by
  rw [lastLimit?, List.reverse_append, List.reverse_singleton, List.singleton_append,
    List.findSome?_cons]
  cases s.limitOf? key <;> rfl

theorem lastSeverity?_concat (steps : List Step) (s : Step) :
    lastSeverity? (steps ++ [s]) = s.severity?.or (lastSeverity? steps) := by
  rw [lastSeverity?, List.reverse_append, List.reverse_singleton, List.singleton_append,
    List.findSome?_cons]
  cases s.severity? <;> rfl

theorem kind_ofSteps (kind : RuleKind) (steps : List Step) : (ofSteps kind steps).kind = kind := by
  induction steps using List.reverseRecOn with
  | nil => rfl
  | append_singleton steps s ih => rw [ofSteps_concat]; cases s <;> exact ih

/-- **A key has the limit that it was given last.** -/
theorem limits_get?_ofSteps (kind : RuleKind) (steps : List Step) (key : String) :
    (ofSteps kind steps).limits.get? key = lastLimit? steps key := by
  induction steps using List.reverseRecOn with
  | nil => rfl
  | append_singleton steps s ih =>
    rw [ofSteps_concat, lastLimit?_concat, ← ih]
    cases s with
    | limit k value =>
      show SortedMap.get? (SortedMap.insert _ k value) key = _
      rw [SortedMap.get?_insert, Step.limitOf?]
      split <;> rfl
    | severity s => rfl

/-- **The severity is the one that was given last**, and that of an error if there was none. -/
theorem severity_ofSteps (kind : RuleKind) (steps : List Step) :
    (ofSteps kind steps).severity = (lastSeverity? steps).getD .error := by
  induction steps using List.reverseRecOn with
  | nil => rfl
  | append_singleton steps s ih =>
    rw [ofSteps_concat, lastSeverity?_concat]
    cases s with
    | limit k value => exact ih
    | severity s => rfl

/-- Sequences with the same last writes make the same rule. -/
theorem ofSteps_congr (kind : RuleKind) {steps steps' : List Step}
    (hlimits : ∀ key, lastLimit? steps' key = lastLimit? steps key)
    (hseverity : (lastSeverity? steps').getD .error = (lastSeverity? steps).getD .error) :
    ofSteps kind steps' = ofSteps kind steps := by
  have hmap : (ofSteps kind steps').limits = (ofSteps kind steps).limits :=
    SortedMap.ext_get? fun key => by rw [limits_get?_ofSteps, limits_get?_ofSteps, hlimits]
  have hkind := (kind_ofSteps kind steps').trans (kind_ofSteps kind steps).symm
  have hsame := (severity_ofSteps kind steps').trans
    (hseverity.trans (severity_ofSteps kind steps).symm)
  generalize ofSteps kind steps' = r' at *
  generalize ofSteps kind steps = r at *
  obtain ⟨_, _, _⟩ := r'
  obtain ⟨_, _, _⟩ := r
  simp_all

/-! ### Reordering -/

/-- Steps that write something else may be left out. -/
theorem findSome?_filter_target {α : Type} {f : Step → Option α} {t : Option String}
    (h : ∀ s, s.target ≠ t → f s = none) (steps : List Step) :
    (steps.filter (·.target = t)).reverse.findSome? f = steps.reverse.findSome? f := by
  rw [← List.filter_reverse]
  induction steps.reverse with
  | nil => rfl
  | cons s steps ih =>
    by_cases hs : s.target = t
    · rw [List.filter_cons_of_pos (by simpa using hs), List.findSome?_cons, List.findSome?_cons, ih]
    · rw [List.filter_cons_of_neg (by simpa using hs), List.findSome?_cons, h s hs, ih]

theorem lastLimit?_filter_target (steps : List Step) (key : String) :
    lastLimit? (steps.filter (·.target = some key)) key = lastLimit? steps key := by
  refine findSome?_filter_target (fun s hs => ?_) steps
  cases s with
  | limit k value => exact if_neg fun hk => hs (congrArg some hk)
  | severity s => rfl

theorem lastSeverity?_filter_target (steps : List Step) :
    lastSeverity? (steps.filter (·.target = none)) = lastSeverity? steps := by
  refine findSome?_filter_target (fun s hs => ?_) steps
  cases s with
  | limit k value => rfl
  | severity s => exact absurd rfl hs

theorem ofSteps_reordered (kind : RuleKind) {steps steps' : List Step}
    (h : ∀ t, steps'.filter (·.target = t) = steps.filter (·.target = t)) :
    ofSteps kind steps' = ofSteps kind steps := by
  refine ofSteps_congr kind (fun key => ?_) ?_
  · rw [← lastLimit?_filter_target steps', h, lastLimit?_filter_target]
  · rw [← lastSeverity?_filter_target steps', h, lastSeverity?_filter_target]

/-! ### The limits that were written -/

theorem lastLimit?_isSome_iff (steps : List Step) (key : String) :
    (lastLimit? steps key).isSome ↔ ∃ value, .limit key value ∈ steps := by
  rw [lastLimit?, List.findSome?_isSome_iff]
  simp only [List.mem_reverse]
  constructor
  · rintro ⟨s, hs, hsome⟩
    cases s with
    | limit k value =>
      by_cases hk : k = key
      · exact ⟨value, hk ▸ hs⟩
      · simp [Step.limitOf?, hk] at hsome
    | severity s => simp [Step.limitOf?] at hsome
  · rintro ⟨value, hvalue⟩
    exact ⟨_, hvalue, by simp [Step.limitOf?]⟩

theorem mem_limits_ofSteps (kind : RuleKind) (steps : List Step) (key : String) (value : Int) :
    (key, value) ∈ (ofSteps kind steps).limits.entries ↔ lastLimit? steps key = some value := by
  rw [SortedMap.mem_entries_iff, limits_get?_ofSteps]

theorem mem_keys_ofSteps (kind : RuleKind) (steps : List Step) (key : String) :
    key ∈ (ofSteps kind steps).limits.entries.map (·.1) ↔ ∃ value, .limit key value ∈ steps := by
  rw [← lastLimit?_isSome_iff, Option.isSome_iff_exists, List.mem_map]
  simp only [← mem_limits_ofSteps kind]
  constructor
  · rintro ⟨⟨_, value⟩, hvalue, rfl⟩
    exact ⟨value, hvalue⟩
  · rintro ⟨value, hvalue⟩
    exact ⟨_, hvalue, rfl⟩

/-- Only a rule on arguments that was never given a limit is passed over. -/
theorem isActive_ofSteps_eq_false_iff (kind : RuleKind) (steps : List Step) :
    (ofSteps kind steps).isActive = false ↔
      kind = .arguments ∧ ∀ key value, .limit key value ∉ steps := by
  have hempty : (ofSteps kind steps).limits.isEmpty = true ↔
      ∀ key value, .limit key value ∉ steps := by
    rw [SortedMap.isEmpty, List.isEmpty_iff, ← List.map_eq_nil_iff (f := Prod.fst),
      List.eq_nil_iff_forall_not_mem]
    simp only [mem_keys_ofSteps, not_exists]
  rw [← hempty, isActive, kind_ofSteps]
  cases kind <;> simp

/-! ### Visiting constructs -/

/-- The violations that were found, with that of one more construct if there is one. -/
def visit (r : Rule) (file : Path) (found : List Violation) (c : Construct) : List Violation :=
  match r.finding? c with
  | none => found
  | some f => found ++ [f.violation file r.severity]

theorem foldl_visit (r : Rule) (file : Path) (constructs : List Construct)
    (found : List Violation) :
    constructs.foldl (r.visit file) found = found ++
      constructs.filterMap fun c => (r.finding? c).map (·.violation file r.severity) := by
  induction constructs generalizing found with
  | nil => simp
  | cons c constructs ih =>
    rw [List.foldl_cons, ih, visit]
    cases hfinding : r.finding? c <;> simp [hfinding]

/-- **Passing over a rule without limits makes no difference.** -/
theorem check_eq_foldl_visit (r : Rule) (file : Path) (constructs : List Construct) :
    r.check file constructs = constructs.foldl (r.visit file) [] := by
  rw [foldl_visit, check_eq_filterMap, List.nil_append]

/-- **Only the last writes count.** Sequences of steps that end in the same limit for each key and
in the same severity make rules with the same violations, in particular if one of them has the
steps of the other in another order, where those that write the same keep theirs. The limits of the
rule are the last ones of the keys that were written, each key once and in the order of bytes. The
rule is passed over if it is on arguments and no limit was written, which is what visiting the
constructs one by one would come to as well. -/
theorem check_ofSteps (kind : RuleKind) (steps : List Step) :
    (∀ steps', (∀ key, lastLimit? steps' key = lastLimit? steps key) →
      (lastSeverity? steps').getD .error = (lastSeverity? steps).getD .error →
      ∀ file constructs,
        (ofSteps kind steps').check file constructs = (ofSteps kind steps).check file constructs) ∧
    (∀ steps', (∀ t, steps'.filter (·.target = t) = steps.filter (·.target = t)) →
      ∀ file constructs,
        (ofSteps kind steps').check file constructs = (ofSteps kind steps).check file constructs) ∧
    (∀ key value,
      (key, value) ∈ (ofSteps kind steps).limits.entries ↔ lastLimit? steps key = some value) ∧
    (∀ key, key ∈ (ofSteps kind steps).limits.entries.map (·.1) ↔
      ∃ value, .limit key value ∈ steps) ∧
    ((ofSteps kind steps).limits.entries.map (·.1)).Nodup ∧
    (ofSteps kind steps).limits.entries.Pairwise (fun a b => Text.bytes a.1 < Text.bytes b.1) ∧
    ((ofSteps kind steps).isActive = false ↔
      kind = .arguments ∧ ∀ key value, .limit key value ∉ steps) ∧
    ∀ file constructs, (ofSteps kind steps).check file constructs =
      constructs.foldl ((ofSteps kind steps).visit file) [] := by
  refine ⟨fun steps' hlimits hseverity file constructs => ?_, fun steps' h file constructs => ?_,
    mem_limits_ofSteps kind steps, mem_keys_ofSteps kind steps, SortedMap.nodup_keys _,
    SortedMap.entries_pairwise_bytes _, isActive_ofSteps_eq_false_iff kind steps,
    check_eq_foldl_visit _⟩
  · rw [ofSteps_congr kind hlimits hseverity]
  · rw [ofSteps_reordered kind h]

/-- Limits and severities are written over, and some steps change places. -/
theorem check_ofSteps_of_overwriting :
    let steps : List Step := [.limit "global" (-7), .severity .info, .limit "arrowFuncExpression" 1,
      .limit "global" 0, .severity .warning]
    let steps' : List Step := [.severity .info, .severity .warning, .limit "global" (-7),
      .limit "global" 0, .limit "arrowFuncExpression" 1]
    let arrow : Construct := .function (.arrow false) 2 none ⟨0, 9, 1, 1⟩
    (∀ t, steps'.filter (·.target = t) = steps.filter (·.target = t)) ∧
      (ofSteps .parameters steps').check ⟨"a.js"⟩ [arrow] =
        (ofSteps .parameters steps).check ⟨"a.js"⟩ [arrow] ∧
      ((ofSteps .parameters steps).check ⟨"a.js"⟩ [arrow]).map (fun v => (v.severity, v.data)) =
        [(.warning, some ⟨"arrow function", 2, 1⟩)] ∧
      ("global", 0) ∈ (ofSteps .parameters steps).limits.entries := by
  intro steps steps' arrow
  have hsame : ∀ t, steps'.filter (·.target = t) = steps.filter (·.target = t) := by
    intro t
    by_cases hnone : t = none
    · subst hnone
      decide +kernel
    · by_cases hglobal : t = some "global"
      · subst hglobal
        decide +kernel
      · simp [steps, steps', List.filter_cons, Step.target, Ne.symm hnone, Ne.symm hglobal]
  obtain ⟨-, hreordered, hlisted, -⟩ := check_ofSteps .parameters steps
  exact ⟨hsame, hreordered steps' hsame _ _, by decide +kernel, (hlisted _ _).mpr rfl⟩

end ArityCheck.Rule
