import Mathlib.Data.List.Chain
import ArityCheck.Proofs.Glob.Matching

/-! Patterns that match a text wherever it stands.

A pattern without lone wildcards has its other tokens within reach of separators: those before a
recursive wildcard end with a separator, and those after one begin next to a separator. If it also
ends with a recursive wildcard (`Rigid`), there is no place for them in a name that is longer than
the pattern (`Rigid.not_accepts_within`). So if such a pattern matches some text between two long
names, it matches that text wherever it stands in an absolute path
(`Rigid.accepts_of_accepts_between`): one match decides about all of them. -/
namespace ArityCheck.Glob

variable {t : Token} {ts : List Token} {l front back : List Char}

/-! ### Patterns without lone wildcards -/

/-- Recursive wildcards begin a pattern or come after a separator. -/
def Joined (ts : List Token) : Prop :=
  ts.IsChain fun t u => u = .recursive → t = .recursive ∨ t = .char '/'

/-- A pattern that has no lone wildcards and ends with a recursive one. -/
structure Rigid (ts : List Token) : Prop where
  sequence_not_mem : .sequence ∉ ts
  getLast? : ts.getLast? = some .recursive
  joined : Joined ts

theorem Spells.joined {free : Bool} {text : List Char} (h : Spells free ts text) : Joined ts := by
  induction h with
  | nil => exact .nil
  | last => exact .singleton _
  | recursive h ih => exact List.isChain_cons.mpr ⟨fun _ _ _ => .inl rfl, ih⟩
  | sequence _ h ih | any h ih | oneOf h ih =>
    refine List.isChain_cons.mpr ⟨fun u hu hrecursive => ?_, ih⟩
    exact absurd (h.free_of_head (hrecursive ▸ hu)) Bool.false_ne_true
  | @char _ c _ _ hc h ih =>
    refine List.isChain_cons.mpr ⟨fun u hu hrecursive => .inr ?_, ih⟩
    have hslash : c = '/' := by simpa using h.free_of_head (hrecursive ▸ hu)
    rw [hslash]

/-- A pattern that does not end with a recursive wildcard matches no text that ends with a name
longer than the pattern. -/
theorem not_accepts_of_back (hsequence : .sequence ∉ ts) (hlast : ts.getLast? ≠ some .recursive)
    (hback : '/' ∉ back) (hlength : ts.length < back.length) (l : List Char) :
    accepts ts (l ++ back) = false := by
  induction ts generalizing l back with
  | nil =>
    have hne : back ≠ [] := List.ne_nil_of_length_pos hlength
    simp [accepts, hne]
  | cons t ts ih =>
    obtain ⟨ht, hothers⟩ := List.ne_and_not_mem_of_not_mem_cons hsequence
    rw [List.length_cons] at hlength
    rcases recursive_or_isSingle (Ne.symm ht) with rfl | hsingle
    · obtain ⟨u, us, rfl⟩ : ∃ u us, ts = u :: us :=
        List.exists_cons_of_ne_nil fun hnil => hlast (by simp [hnil])
      have hlast : (u :: us).getLast? ≠ some .recursive := by simpa using hlast
      rw [Bool.eq_false_iff, Ne, accepts_recursive_iff]
      rintro (h | ⟨r, hr, h⟩)
      · rw [ih hothers hlast hback (by omega)] at h
        cases h
      · rcases mem_afterSeparators_append hback hr with rfl | ⟨before, rest, -, rfl⟩
        · have hall := eq_recursive_of_accepts_nil hothers h _ (List.getLast_mem (by simp))
          exact hlast (List.getLast?_eq_some_getLast _ ▸ congrArg some hall)
        · rw [ih hothers hlast hback (by omega)] at h
          cases h
    · have hlast : ts.getLast? ≠ some .recursive := by
        cases ts with
        | nil => simp
        | cons u us => simpa using hlast
      cases l with
      | nil =>
        obtain ⟨d, back, rfl⟩ := List.exists_cons_of_length_pos (by omega : 0 < back.length)
        have hrest := ih hothers hlast (List.ne_and_not_mem_of_not_mem_cons hback).2
          (by simpa using hlength) []
        rw [List.nil_append, accepts_cons hsingle, ← List.nil_append back, hrest, Bool.and_false]
      | cons d l =>
        rw [List.cons_append, accepts_cons hsingle, ih hothers hlast hback (by omega),
          Bool.and_false]

theorem Spells.rigid {free : Bool} {text : List Char} (h : Spells free ts text)
    (hsequence : .sequence ∉ ts) (hback : '/' ∉ back) (hlength : ts.length < back.length)
    (haccepts : accepts ts (l ++ back) = true) : Rigid ts := by
  refine ⟨hsequence, ?_, h.joined⟩
  by_contra hlast
  rw [not_accepts_of_back hsequence hlast hback hlength] at haccepts
  cases haccepts

/-- A separator after a name is one of the text after the name. -/
theorem exists_eq_append_slash (hfront : '/' ∉ front) {before rest : List Char}
    (h : front ++ l = before ++ '/' :: rest) : ∃ before, l = before ++ '/' :: rest := by
  rcases List.append_eq_append_iff.mp h with ⟨middle, -, hl⟩ | ⟨middle, rfl, hrest⟩
  · exact ⟨middle, hl⟩
  · cases middle with
    | nil => exact ⟨[], hrest.symm⟩
    | cons c middle =>
      obtain ⟨rfl, -⟩ := List.cons.inj hrest
      simp at hfront

namespace Rigid

theorem rest (h : Rigid (t :: ts)) (hne : ts ≠ []) : Rigid ts := by
  obtain ⟨u, us, rfl⟩ := List.exists_cons_of_ne_nil hne
  exact ⟨(List.ne_and_not_mem_of_not_mem_cons h.sequence_not_mem).2,
    by simpa using h.getLast?, (List.isChain_cons.mp h.joined).2⟩

theorem recursive_or_isSingle (h : Rigid (t :: ts)) : t = .recursive ∨ t.isSingle = true :=
  Glob.recursive_or_isSingle (Ne.symm (List.ne_and_not_mem_of_not_mem_cons h.sequence_not_mem).1)

theorem rest_ne_nil (h : Rigid (t :: ts)) (ht : t.isSingle = true) : ts ≠ [] := by
  rintro rfl
  have hrecursive : t = .recursive := by simpa using h.getLast?
  rw [hrecursive] at ht
  cases ht

/-- What comes before a recursive wildcard ends with a separator. -/
theorem eq_slash_of_head? (h : Rigid (t :: ts)) (ht : t.isSingle = true)
    (hhead : ts.head? = some .recursive) : t = .char '/' := by
  rcases (List.isChain_cons.mp h.joined).1 _ hhead rfl with rfl | hslash
  · cases ht
  · exact hslash

/-! ### Names that are longer than the pattern -/

/-- **There is no place in a long name for what comes before a recursive wildcard.** -/
theorem not_accepts_within (h : Rigid ts) (hhead : ts.head? ≠ some .recursive)
    (hfront : '/' ∉ front) (hlength : ts.length ≤ front.length) (l : List Char) :
    accepts ts (front ++ l) = false := by
  induction ts generalizing front with
  | nil => exact absurd h.getLast? (by simp)
  | cons t ts ih =>
    have ht : t.isSingle = true := h.recursive_or_isSingle.resolve_left (by simpa using hhead)
    cases front with
    | nil => simp at hlength
    | cons d front =>
      obtain ⟨hd, hfront⟩ := List.ne_and_not_mem_of_not_mem_cons hfront
      rw [List.cons_append, accepts_cons ht, Bool.and_eq_false_iff]
      by_cases hnext : ts.head? = some .recursive
      · left
        simp [h.eq_slash_of_head? ht hnext, Token.takes, hd]
      · right
        exact ih (h.rest (h.rest_ne_nil ht)) hnext hfront (by simpa using hlength)

/-- What a recursive wildcard stands for before a name: either everything is matched anyway, or the
rest is matched at once or after some separator before the name. -/
theorem recursive_cases (h : Rigid (.recursive :: ts)) (hback : '/' ∉ back)
    (haccepts : accepts (.recursive :: ts) (l ++ back) = true) :
    (∀ whole, accepts (.recursive :: ts) whole = true) ∨ Rigid ts ∧
      (accepts ts (l ++ back) = true ∨
        ∃ before rest, l = before ++ '/' :: rest ∧ accepts ts (rest ++ back) = true) := by
  by_cases hne : ts = []
  · rw [hne]
    exact .inl accepts_last
  · rcases accepts_recursive_iff.mp haccepts with hfrom | ⟨r, hr, hfrom⟩
    · exact .inr ⟨h.rest hne, .inl hfrom⟩
    · rcases mem_afterSeparators_append hback hr with rfl | ⟨before, rest, hl, rfl⟩
      · have hall := eq_recursive_of_accepts_nil (h.rest hne).sequence_not_mem hfrom
        refine .inl (accepts_of_forall_recursive (List.cons_ne_nil _ _) ?_)
        exact List.forall_mem_cons.mpr ⟨rfl, hall⟩
      · exact .inr ⟨h.rest hne, .inr ⟨before, rest, hl, hfrom⟩⟩

/-- **What is matched before a long name is matched before anything**, since the name can only be
what the last wildcard stands for. -/
theorem accepts_append (h : Rigid ts) (hback : '/' ∉ back) (hlength : ts.length ≤ back.length)
    (haccepts : accepts ts (l ++ back) = true) (after : List Char) :
    accepts ts (l ++ after) = true := by
  induction ts generalizing l with
  | nil => exact absurd h.getLast? (by simp)
  | cons t ts ih =>
    have hshorter : ts.length ≤ back.length := by
      rw [List.length_cons] at hlength
      omega
    rcases h.recursive_or_isSingle with rfl | ht
    · rcases h.recursive_cases hback haccepts with hall | ⟨hts, hfrom | ⟨before, rest, rfl, hfrom⟩⟩
      · exact hall _
      · exact accepts_recursive_iff.mpr (.inl (ih hts hshorter hfrom))
      · refine accepts_recursive_iff.mpr (.inr ⟨rest ++ after, ?_, ih hts hshorter hfrom⟩)
        simpa using mem_afterSeparators_of_append (r := rest ++ after) before
    · cases l with
      | nil =>
        have hnone := h.not_accepts_within (head?_ne_of_isSingle ht) hback hlength []
        rw [List.append_nil] at hnone
        exact absurd (haccepts.symm.trans hnone) Bool.true_eq_false.mp
      | cons d l =>
        rw [List.cons_append, accepts_cons ht, Bool.and_eq_true] at haccepts ⊢
        exact ⟨haccepts.1, ih (h.rest (h.rest_ne_nil ht)) hshorter haccepts.2⟩

/-- **What is matched between two long names is matched from a separator on**, so it is matched in
every text where the same follows a separator or begins the text. -/
theorem accepts_of_names (h : Rigid ts) (hfront : '/' ∉ front) (hback : '/' ∉ back)
    (hlength : ts.length ≤ front.length) (hlength' : ts.length ≤ back.length)
    (haccepts : accepts ts (front ++ l ++ back) = true) (after : List Char) {whole : List Char}
    (hwhole : ∀ before rest, l = before ++ '/' :: rest →
      rest ++ after = whole ∨ rest ++ after ∈ afterSeparators whole) :
    accepts ts whole = true := by
  induction ts with
  | nil => exact absurd h.getLast? (by simp)
  | cons t ts ih =>
    rcases h.recursive_or_isSingle with rfl | ht
    · rw [List.length_cons] at hlength hlength'
      rcases h.recursive_cases hback haccepts with hall | ⟨hts, hfrom | ⟨before, rest, hl, hfrom⟩⟩
      · exact hall _
      · exact accepts_recursive_iff.mpr (.inl (ih hts (by omega) (by omega) hfrom))
      · -- The separator is not in the name, so it is one of the text between the names.
        obtain ⟨before, hl⟩ := exists_eq_append_slash hfront hl
        have hfrom := hts.accepts_append hback (by omega) hfrom after
        rcases hwhole before rest hl with rfl | hmem
        · exact accepts_recursive_iff.mpr (.inl hfrom)
        · exact accepts_recursive_iff.mpr (.inr ⟨_, hmem, hfrom⟩)
    · have hnone := h.not_accepts_within (head?_ne_of_isSingle ht) hfront hlength (l ++ back)
      rw [← List.append_assoc, haccepts] at hnone
      cases hnone

/-- **What is matched in an absolute path between two long names is matched in every absolute
path.** -/
theorem accepts_of_accepts_between (h : Rigid ts) (hfront : '/' ∉ front) (hback : '/' ∉ back)
    (hlength : ts.length ≤ front.length) (hlength' : ts.length ≤ back.length)
    (haccepts : accepts ts ('/' :: (front ++ l ++ back)) = true) {whole : List Char}
    (habsolute : whole.head? = some '/') (hl : l <:+: whole) : accepts ts whole = true := by
  obtain ⟨before, after, hwhole⟩ := hl
  induction ts with
  | nil => exact absurd h.getLast? (by simp)
  | cons t ts ih =>
    rcases h.recursive_or_isSingle with rfl | ht
    · rcases accepts_recursive_iff.mp haccepts with hfrom | ⟨r, hr, hfrom⟩
      · by_cases hne : ts = []
        · rw [hne]
          exact accepts_last _
        · rw [List.length_cons] at hlength hlength'
          exact accepts_recursive_iff.mpr (.inl (ih (h.rest hne) (by omega) (by omega) hfrom))
      · have hrest : accepts (.recursive :: ts) (front ++ l ++ back) = true := by
          rw [afterSeparators, if_pos rfl] at hr
          rcases List.mem_cons.mp hr with rfl | hr
          · exact accepts_recursive_iff.mpr (.inl hfrom)
          · exact accepts_recursive_iff.mpr (.inr ⟨r, hr, hfrom⟩)
        refine h.accepts_of_names hfront hback hlength hlength' hrest after ?_
        rintro inner rest rfl
        refine .inr (mem_afterSeparators.mpr (.inr ⟨before ++ inner, ?_⟩))
        simp [← hwhole]
    · -- The separator that a path begins with can only be the one before a recursive wildcard.
      obtain ⟨whole, rfl⟩ := List.head?_eq_some_iff.mp habsolute
      have hts := h.rest (h.rest_ne_nil ht)
      rw [List.length_cons] at hlength hlength'
      rw [accepts_cons ht, Bool.and_eq_true] at haccepts ⊢
      refine ⟨haccepts.1, ?_⟩
      refine hts.accepts_of_names hfront hback (by omega) (by omega) haccepts.2 after ?_
      rintro inner rest rfl
      have hsplit : '/' :: whole = (before ++ inner) ++ '/' :: (rest ++ after) := by
        simp [← hwhole]
      cases hbefore : before ++ inner with
      | nil =>
        rw [hbefore] at hsplit
        exact .inl (List.cons.inj hsplit).2.symm
      | cons c skipped =>
        rw [hbefore] at hsplit
        exact .inr (mem_afterSeparators.mpr (.inr ⟨skipped, (List.cons.inj hsplit).2⟩))

end Rigid

end ArityCheck.Glob
