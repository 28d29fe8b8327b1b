import Mathlib.Data.List.Infix
import ArityCheck.Proofs.Path.Segments

/-! The directories above a path, as it is written.

A step up takes the last component away (`components_parent?`), and the steps end at the root. So
the directories at and above an absolute path are told by the beginnings of its components, the
longest one first (`map_components_ancestors`), whatever separators and dots stand in its text. -/
namespace ArityCheck

/-- A segment after the first one goes up or to the name that it is. -/
theorem Component.ofInner?_eq_some {segment : String} {c : Component}
    (h : ofInner? segment = some c) : c = .up ∨ c = .name segment := by
  rw [ofInner?] at h
  grind

namespace Path

variable {p q : Path}

/-! ### One step up -/

/-- What remains without the silent segments at the end has one at its end that is not silent. -/
theorem exists_trimEnd_eq {segments : List String} (h : trimEnd segments ≠ []) :
    ∃ front last, trimEnd segments = front ++ [last] ∧ isSilent last = false := by
  have hhead := List.head?_dropWhile_not isSilent segments.reverse
  rw [trimEnd] at h ⊢
  cases hdrop : segments.reverse.dropWhile isSilent with
  | nil => simp [hdrop] at h
  | cons last rest =>
    refine ⟨rest.reverse, last, List.reverse_cons, ?_⟩
    simpa [hdrop] using hhead

/-- An absolute path that is put together from segments. -/
theorem components_ofSegments (hp : p.isAbsolute = true) {inner : List String}
    (hinner : ∀ s ∈ inner, '/' ∉ s.toList) :
    (p.ofSegments inner).isAbsolute = true ∧
      (p.ofSegments inner).components = .root :: inner.filterMap Component.ofInner? := by
  obtain ⟨hfirst, -⟩ := (isAbsolute_iff p).mp hp
  cases inner with
  | nil =>
    rw [ofSegments, if_pos (by simp [hp])]
    exact ⟨rfl, by decide⟩
  | cons s inner =>
    have hslash : '/' ∉ p.firstSegment.toList := not_mem_firstSegment p
    have hsegments := innerSegments_joinSegments hslash hinner
    have habsolute : isAbsolute ⟨joinSegments (p.firstSegment :: s :: inner)⟩ = true := by
      rw [isAbsolute_iff, firstSegment_joinSegments hslash hinner, hsegments]
      exact ⟨hfirst, List.cons_ne_nil _ _⟩
    rw [ofSegments, if_neg (by simp)]
    refine ⟨habsolute, ?_⟩
    rw [components, if_pos habsolute, hsegments]
    rfl

theorem components_of_isAbsolute (hp : p.isAbsolute = true) :
    p.components = .root :: p.innerSegments.filterMap Component.ofInner? := by
  rw [components, if_pos hp]
  rfl

theorem parent?_eq {c : Component} (hc : p.components.getLast? = some c) (hroot : c ≠ .root)
    {front : List String} {last : String} (h : trimEnd p.innerSegments = front ++ [last]) :
    p.parent? = some (p.ofSegments (trimEnd front)) := by
  rw [parent?, hc]
  cases c with
  | root => exact absurd rfl hroot
  | here | up | name text => simp [h]

/-- **A step up takes the last component away**, and above the root there is none. -/
theorem parent?_of_isAbsolute (hp : p.isAbsolute = true) :
    (p.parent? = none ∧ p.components = [.root]) ∨
      ∃ q c, p.parent? = some q ∧ q.isAbsolute = true ∧ p.components = q.components ++ [c] := by
  have hcomponents := components_of_isAbsolute hp
  rw [← filterMap_trimEnd] at hcomponents
  by_cases hempty : trimEnd p.innerSegments = []
  · left
    rw [hempty] at hcomponents
    rw [parent?, hcomponents]
    exact ⟨rfl, rfl⟩
  · right
    obtain ⟨front, last, htrim, hlast⟩ := exists_trimEnd_eq hempty
    obtain ⟨c, hc⟩ : ∃ c, Component.ofInner? last = some c := by
      rw [isSilent, Option.isNone_eq_false_iff, Option.isSome_iff_exists] at hlast
      exact hlast
    have hroot : c ≠ .root := by
      rcases Component.ofInner?_eq_some hc with rfl | rfl
      all_goals simp
    have hfront : ∀ s ∈ trimEnd front, '/' ∉ s.toList := by
      intro s hs
      have hmem : s ∈ trimEnd p.innerSegments := by
        rw [htrim]
        exact List.mem_append_left _ (mem_of_mem_trimEnd hs)
      exact not_mem_innerSegments p s (mem_of_mem_trimEnd hmem)
    obtain ⟨habsolute, hparent⟩ := components_ofSegments hp hfront
    have hsplit : p.components = (p.ofSegments (trimEnd front)).components ++ [c] := by
      rw [hparent, filterMap_trimEnd, hcomponents, htrim, List.filterMap_append,
        List.filterMap_cons_some hc]
      rfl
    exact ⟨_, c, parent?_eq (by simp [hsplit]) hroot htrim, habsolute, hsplit⟩

/-- **The directories at and above an absolute path** are told by the beginnings of its components,
the longest one first. -/
theorem map_components_ancestorsWithin (hp : p.isAbsolute = true) {n : Nat}
    (hn : p.components.length ≤ n + 1) :
    (ancestorsWithin n p).map components = p.components.inits.tail.reverse := by
  induction n generalizing p with
  | zero =>
    have hroot : p.components = [.root] := by
      rw [components_of_isAbsolute hp] at hn ⊢
      simpa using hn
    rw [ancestorsWithin, List.map_singleton, hroot]
    rfl
  | succ n ih =>
    rw [ancestorsWithin]
    rcases parent?_of_isAbsolute hp with ⟨hnone, hroot⟩ | ⟨q, c, hsome, hq, hsplit⟩
    · rw [hnone, List.map_singleton, hroot]
      rfl
    · have hlength : q.components.length ≤ n + 1 := by
        rw [hsplit, List.length_append, List.length_singleton] at hn
        omega
      have hne : q.components.inits ≠ [] := by
        intro hnil
        simpa using congrArg List.length hnil
      rw [hsome, List.map_cons, ih hq hlength, hsplit, List.inits_append,
        List.tail_append_of_ne_nil hne]
      simp

theorem map_components_ancestors (hp : p.isAbsolute = true) :
    p.ancestors.map components = p.components.inits.tail.reverse :=
  map_components_ancestorsWithin hp (Nat.le_succ _)

theorem isAbsolute_of_mem_ancestorsWithin (hp : p.isAbsolute = true) {n : Nat}
    (hq : q ∈ ancestorsWithin n p) : q.isAbsolute = true := by
  induction n generalizing p with
  | zero =>
    obtain rfl := List.mem_singleton.mp hq
    exact hp
  | succ n ih =>
    rw [ancestorsWithin] at hq
    rcases parent?_of_isAbsolute hp with ⟨hnone, -⟩ | ⟨r, c, hsome, hr, -⟩
    · rw [hnone, List.mem_singleton] at hq
      exact hq ▸ hp
    · rw [hsome] at hq
      rcases List.mem_cons.mp hq with rfl | hq
      · exact hp
      · exact ih hr hq

theorem isAbsolute_of_mem_ancestors (hp : p.isAbsolute = true) (hq : q ∈ p.ancestors) :
    q.isAbsolute = true :=
  isAbsolute_of_mem_ancestorsWithin hp hq

end Path

end ArityCheck
