import ArityCheck.Proofs.Analysis.Source
import Mathlib.Data.List.Basic

/-! What becomes of the violations of a rule when one of its limits is relaxed.

A construct is held to the number at one key: its own, or `global`. `Limits.source?` says which one
that is. It depends only on the keys that are there, so giving one of them another number changes
what is selected for the constructs that are held to it, and nothing else (`select?_insert`). A
number that is larger or turns the check off is exceeded by fewer counts (`exceededBy_relaxed`), so
`Rule.check_relaxed`: relaxing a limit adds no violation, and leaves alone all constructs that are
held to another. -/
namespace ArityCheck

namespace Limits

variable {limits : Limits} {k : String}

/-! ### Which number applies -/

/-- The key whose number applies to a key: itself if it is not empty and there, or else `global`. -/
def source? (limits : Limits) (key : String) : Option String :=
  if key ≠ "" ∧ (limits.get? key).isSome then some key
  else if (limits.get? globalKey).isSome then some globalKey
  else none

theorem select?_eq_bind_source? (limits : Limits) (key : String) :
    limits.select? key = (limits.source? key).bind limits.get? := by
  unfold select? source?
  by_cases hempty : key = ""
  · cases hglobal : limits.get? globalKey <;> simp [hempty, hglobal]
  · cases hown : limits.get? key with
    | some n => simp [hempty, hown]
    | none => cases hglobal : limits.get? globalKey <;> simp [hempty, hglobal]

theorem source?_of_isSome {key : String} (hempty : key ≠ "") (h : (limits.get? key).isSome) :
    limits.source? key = some key := if_pos ⟨hempty, h⟩

theorem source?_ne_of_key_ne {key : String} (hk : k ≠ globalKey) (h : key ≠ k) :
    limits.source? key ≠ some k := by
  unfold source?
  split
  · simpa using h
  · split <;> simp [Ne.symm hk]

/-- Another number at a key that is there makes no other key apply. -/
theorem source?_insert (hk : (limits.get? k).isSome) (n : Int) (key : String) :
    source? (limits.insert k n) key = limits.source? key := by
  have hsame : ∀ k', (SortedMap.get? (limits.insert k n) k').isSome = (limits.get? k').isSome := by
    intro k'
    rw [SortedMap.get?_insert]
    split
    next heq => rw [← heq, hk]; rfl
    next => rfl
  simp only [source?, hsame]

/-- **Only where the key applies is another number selected.** -/
theorem select?_insert (hk : (limits.get? k).isSome) (n : Int) (key : String) :
    select? (limits.insert k n) key =
      if limits.source? key = some k then some n else limits.select? key := by
  rw [select?_eq_bind_source?, select?_eq_bind_source?, source?_insert hk]
  cases hsource : limits.source? key with
  | none => simp
  | some k' =>
    simp only [Option.bind_some, SortedMap.get?_insert, Option.some.injEq, eq_comm (a := k)]

/-! ### Larger numbers -/

/-- What exceeds a number exceeds every smaller one that can be exceeded at all. -/
theorem exceededBy_relaxed {v v' : Int} (hv : 0 ≤ v) (h : v ≤ v' ∨ v' < 0) {count : Nat}
    (hexceeded : ((Limit.ofInt v').exceededBy count).isSome) :
    ((Limit.ofInt v).exceededBy count).isSome := by
  rw [exceededBy_ofInt] at hexceeded ⊢
  split at hexceeded
  next hv' => rw [if_pos (by omega)]; rfl
  next => cases hexceeded

theorem exceededBy_resolve_insert {v v' : Int} (hk : limits.get? k = some v) (hv : 0 ≤ v)
    (h : v ≤ v' ∨ v' < 0) {key : String} {count : Nat}
    (hexceeded : ((resolve (limits.insert k v') key).exceededBy count).isSome) :
    ((limits.resolve key).exceededBy count).isSome := by
  have hpresent : (limits.get? k).isSome := by rw [hk]; rfl
  rw [resolve, select?_insert hpresent] at hexceeded
  by_cases hsource : limits.source? key = some k
  · rw [if_pos hsource] at hexceeded
    have hselect : limits.select? key = some v := by
      rw [select?_eq_bind_source?, hsource, Option.bind_some, hk]
    rw [resolve, hselect]
    exact exceededBy_relaxed hv h hexceeded
  · rwa [if_neg hsource] at hexceeded

end Limits

namespace Rule

variable {r : Rule} {k : String}

/-! ### What a rule reports, construct by construct -/

/-- The rule finds fault with a construct. -/
def reports (r : Rule) (file : Path) (c : Construct) : Bool := !(r.check file [c]).isEmpty

theorem reports_eq (r : Rule) (file : Path) (c : Construct) :
    r.reports file c = (r.finding? c).isSome := by
  rw [reports, check_eq_filterMap, List.filterMap_cons, List.filterMap_nil]
  cases r.finding? c <;> rfl

/-- A rule reports one violation for each construct that it finds fault with, in their order. -/
theorem check_eq_flatMap (r : Rule) (file : Path) (constructs : List Construct) :
    r.check file constructs =
      (constructs.filter (r.reports file)).flatMap fun c => r.check file [c] := by
  induction constructs with
  | nil => simp [check_eq_filterMap]
  | cons c constructs ih =>
    rw [List.filter_cons, reports_eq]
    simp only [check_eq_filterMap] at ih ⊢
    cases hfinding : r.finding? c with
    | none => simp [hfinding, ih]
    | some f => simp [hfinding, ih]

/-! ### Relaxing a limit -/

theorem reports_of_relaxed {v v' : Int} (hk : r.limits.get? k = some v) (hv : 0 ≤ v)
    (h : v ≤ v' ∨ v' < 0) {file : Path} {c : Construct}
    (hreports : (r.withLimit k v').reports file c = true) : r.reports file c = true := by
  rw [reports_eq, Option.isSome_iff_exists] at hreports ⊢
  obtain ⟨f, hf⟩ := hreports
  obtain ⟨s, max, hsubject, hmax, -⟩ := finding?_eq_some_iff.mp hf
  have hexceeded := Limits.exceededBy_resolve_insert hk hv h (Option.isSome_of_mem hmax)
  obtain ⟨max', hmax'⟩ := Option.isSome_iff_exists.mp hexceeded
  exact ⟨_, finding?_eq_some_iff.mpr ⟨s, max', hsubject, hmax', rfl⟩⟩

/-- A construct that is held to another key is judged as before, whatever number the key gets. -/
theorem check_withLimit_of_source?_ne (hk : (r.limits.get? k).isSome) (n : Int) (file : Path)
    {c : Construct} (hsource : ∀ s, r.kind.subject? c = some s → r.limits.source? s.key ≠ some k) :
    (r.withLimit k n).check file [c] = r.check file [c] := by
  have hfinding : (r.withLimit k n).finding? c = r.finding? c := by
    unfold finding?
    show (r.kind.subject? c).bind _ = _
    cases hsubject : r.kind.subject? c with
    | none => rfl
    | some s =>
      have hresolve : (r.withLimit k n).limits.resolve s.key = r.limits.resolve s.key := by
        show Limits.resolve (r.limits.insert k n) s.key = _
        rw [Limits.resolve, Limits.select?_insert hk, if_neg (hsource s hsubject), Limits.resolve]
      simp only [Option.bind_some, hresolve]
      rfl
  rw [check_eq_filterMap, check_eq_filterMap, List.filterMap_cons, List.filterMap_cons, hfinding]
  rfl

/-- **Relaxing a limit adds no violation, and only constructs that are held to it are judged anew.**
A key gets a larger number, or one that turns the check off. What is reported then is reported
about some of the constructs of before, in the same order. A construct that is held to another key
is judged as it was: one with another key, if it is not the global limit that was relaxed, and one
whose own key is there, if it is. -/
theorem check_relaxed (r : Rule) (k : String) (v v' : Int) (hk : r.limits.get? k = some v)
    (hv : 0 ≤ v) (h : v ≤ v' ∨ v' < 0) (file : Path) (constructs : List Construct) :
    (constructs.filter ((r.withLimit k v').reports file)).Sublist
      (constructs.filter (r.reports file)) ∧
    (∀ r' ∈ [r, r.withLimit k v'], r'.check file constructs =
      (constructs.filter (r'.reports file)).flatMap fun c => r'.check file [c]) ∧
    (∀ c, (∀ s, r.kind.subject? c = some s → r.limits.source? s.key ≠ some k) →
      (r.withLimit k v').check file [c] = r.check file [c]) ∧
    (k ≠ "global" → ∀ c, (∀ s, r.kind.subject? c = some s → s.key ≠ k) →
      (r.withLimit k v').check file [c] = r.check file [c]) ∧
    (k = "global" → ∀ c, (∀ s, r.kind.subject? c = some s →
        s.key ≠ "" ∧ s.key ≠ "global" ∧ (r.limits.get? s.key).isSome) →
      (r.withLimit k v').check file [c] = r.check file [c]) := by
  have hpresent : (r.limits.get? k).isSome := by rw [hk]; rfl
  refine ⟨?_, fun r' _ => r'.check_eq_flatMap file constructs,
    fun c hc => check_withLimit_of_source?_ne hpresent v' file hc, fun hglobal c hc => ?_,
    fun hglobal c hc => ?_⟩
  · exact List.monotone_filter_right constructs fun c hc => reports_of_relaxed hk hv h hc
  · exact check_withLimit_of_source?_ne hpresent v' file fun s hs =>
      Limits.source?_ne_of_key_ne hglobal (hc s hs)
  · refine check_withLimit_of_source?_ne hpresent v' file fun s hs => ?_
    obtain ⟨hempty, hother, hown⟩ := hc s hs
    rw [Limits.source?_of_isSome hempty hown, hglobal]
    simpa using hother

/-- The global limit is raised above what can be enforced. The call with a limit of its own is
reported as before; a call without a name and one of a function that is called `global` are not
reported any more. -/
theorem check_relaxed_of_global :
    let r := ((Rule.ofKind .arguments).withLimit "f" 1).withLimit "global" 0
    let r' := r.withLimit "global" 4294967296
    let f : Construct := .call (.identifier "f") 2 ⟨0, 6, 1, 1⟩
    let calls := [.call .other 1 ⟨7, 6, 2, 1⟩, f, .call (.identifier "global") 3 ⟨14, 12, 3, 1⟩]
    r.limits.get? "global" = some 0 ∧ (calls.filter (r.reports ⟨"a.js"⟩)) = calls ∧
      (calls.filter (r'.reports ⟨"a.js"⟩)).Sublist calls ∧
      r'.check ⟨"a.js"⟩ calls = r.check ⟨"a.js"⟩ [f] := by
  intro r r' f calls
  have hk : r.limits.get? "global" = some 0 := by decide +kernel
  have hall : calls.filter (r.reports ⟨"a.js"⟩) = calls := by decide +kernel
  have hleft : calls.filter (r'.reports ⟨"a.js"⟩) = [f] := by decide +kernel
  obtain ⟨hsublist, hchecks, -, -, hothers⟩ :=
    check_relaxed r "global" 0 4294967296 hk (by decide) (by decide) ⟨"a.js"⟩ calls
  have hf : r'.check ⟨"a.js"⟩ [f] = r.check ⟨"a.js"⟩ [f] := by
    refine hothers rfl f fun s hs => ?_
    obtain rfl := Option.some.inj hs
    decide +kernel
  refine ⟨hk, hall, hall ▸ hsublist, ?_⟩
  rw [hchecks r' (List.mem_cons_of_mem _ List.mem_cons_self), hleft, List.flatMap_singleton, hf]

end Rule

end ArityCheck
