import ArityCheck.Text.Replace

/-! When one text occurs in another, and what becomes of a text in which it is replaced.

A pattern is found only between characters that it does not hold, so a text can be cut at such a
character before it is replaced (`replaceAfter_append`). Leaving out pairs of stars is the case of
an empty value. -/
namespace ArityCheck.Text

theorem isPartOf_iff (pattern text : List Char) :
    isPartOf pattern text = true ↔ pattern <:+: text := by
  induction text with
  | nil => simp [isPartOf]
  | cons c cs ih =>
    rw [isPartOf, Bool.or_eq_true, ih, List.isPrefixOf_iff_prefix, List.infix_cons_iff]

theorem occursIn_iff (pattern text : String) :
    occursIn pattern text = true ↔ pattern.toList <:+: text.toList :=
  isPartOf_iff _ _

/-! ### Replacing -/

theorem toList_replaceAll (pattern value text : String) :
    (replaceAll pattern value text).toList =
      replaceAfter pattern.toList value.toList 0 text.toList :=
  String.toList_ofList

section Replace

variable {pattern value text before : List Char} {c : Char}

/-- A text that goes on after a character which the pattern does not hold begins with the pattern
only if what stands before that character does. -/
theorem isPrefixOf_append (hc : c ∉ pattern) (before after : List Char) :
    pattern.isPrefixOf (before ++ c :: after) = pattern.isPrefixOf before := by
  rw [Bool.eq_iff_iff, List.isPrefixOf_iff_prefix, List.isPrefixOf_iff_prefix]
  constructor
  · intro h
    rcases Nat.lt_or_ge before.length pattern.length with hlt | hle
    · have hlonger : before ++ [c] <+: pattern :=
        List.prefix_of_prefix_length_le (by simp) h (by simp; omega)
      exact absurd (hlonger.subset (by simp)) hc
    · exact List.prefix_of_prefix_length_le h (List.prefix_append _ _) hle
  · exact fun h => h.trans (List.prefix_append _ _)

/-- **No place where the pattern stands goes over a character that it does not hold**, so what is
before the character and what is after it are replaced by themselves. -/
theorem replaceAfter_append (hne : pattern ≠ []) (hc : c ∉ pattern) (value : List Char) {skip : Nat}
    (hskip : skip ≤ before.length) (after : List Char) :
    replaceAfter pattern value skip (before ++ c :: after) =
      replaceAfter pattern value skip before ++ c :: replaceAfter pattern value 0 after := by
  induction before generalizing skip with
  | nil =>
    obtain rfl : skip = 0 := Nat.le_zero.mp hskip
    have hnot : pattern.isPrefixOf (c :: after) = false := by
      rw [← List.nil_append (c :: after), isPrefixOf_append hc]
      cases pattern with
      | nil => exact absurd rfl hne
      | cons d pattern => rfl
    show replaceAfter pattern value 0 (c :: after) = c :: replaceAfter pattern value 0 after
    rw [replaceAfter, if_neg (by simp [hnot])]
  | cons d before ih =>
    cases skip with
    | succ skip => exact ih (Nat.le_of_succ_le_succ hskip)
    | zero =>
      have hsame := isPrefixOf_append hc (d :: before) after
      rw [List.cons_append] at hsame
      rw [List.cons_append, replaceAfter, replaceAfter, hsame]
      split
      next h =>
        have hlength : pattern.length - 1 ≤ before.length := by
          have := (List.isPrefixOf_iff_prefix.mp h).length_le
          rw [List.length_cons] at this
          omega
        rw [ih hlength, List.append_assoc]
      next => rw [ih (Nat.zero_le _), List.cons_append]

/-- A text without the pattern stays as it is. -/
theorem replaceAfter_of_not_occurring (value : List Char) (h : ¬pattern <:+: text) :
    replaceAfter pattern value 0 text = text := by
  induction text with
  | nil => rfl
  | cons c cs ih =>
    rw [List.infix_cons_iff, not_or] at h
    rw [replaceAfter, if_neg fun hp => h.1 (List.isPrefixOf_iff_prefix.mp hp), ih h.2]

theorem replaceAfter_of_isPartOf_eq_false (value : List Char) (h : isPartOf pattern text = false) :
    replaceAfter pattern value 0 text = text :=
  replaceAfter_of_not_occurring value fun hp => by simp [(isPartOf_iff _ _).mpr hp] at h

/-- Where no pattern can begin, nothing is replaced. -/
theorem replaceAfter_append_of_not_mem (hc : pattern.head? = some c) (h : c ∉ before)
    (value text : List Char) :
    replaceAfter pattern value 0 (before ++ text) =
      before ++ replaceAfter pattern value 0 text := by
  induction before with
  | nil => rfl
  | cons d before ih =>
    obtain ⟨hd, hbefore⟩ := List.ne_and_not_mem_of_not_mem_cons h
    obtain ⟨rest, rfl⟩ := List.head?_eq_some_iff.mp hc
    rw [List.cons_append, replaceAfter, if_neg (by simp [hd]), ih hbefore, List.cons_append]

theorem replaceAfter_skip (value : List Char) (skip : Nat) (text : List Char) :
    replaceAfter pattern value skip text = replaceAfter pattern value 0 (text.drop skip) := by
  induction skip generalizing text with
  | zero => rfl
  | succ skip ih =>
    cases text with
    | nil => rfl
    | cons c cs => exact ih cs

/-- The pattern at the front of a text is replaced. -/
theorem replaceAfter_pattern_append (hne : pattern ≠ []) (value rest : List Char) :
    replaceAfter pattern value 0 (pattern ++ rest) =
      value ++ replaceAfter pattern value 0 rest := by
  cases pattern with
  | nil => exact absurd rfl hne
  | cons c cs =>
    have hprefix : (c :: cs).isPrefixOf (c :: (cs ++ rest)) = true :=
      List.isPrefixOf_iff_prefix.mpr (by simp)
    rw [List.cons_append, replaceAfter, if_pos hprefix, replaceAfter_skip]
    simp

/-- Replacing brings in no character that the value does not hold, and takes away those of every
pattern that it finds. -/
theorem count_replaceAfter (hne : pattern ≠ []) (hc : c ∉ value) (text : List Char) :
    (replaceAfter pattern value 0 text).count c ≤ text.count c ∧
      (c ∈ pattern → pattern <:+: text →
        (replaceAfter pattern value 0 text).count c < text.count c) := by
  induction hn : text.length using Nat.strongRecOn generalizing text with
  | ind n ih =>
    by_cases hprefix : pattern <+: text
    · -- The pattern is taken away at the front, and what follows is shorter.
      obtain ⟨rest, rfl⟩ := hprefix
      have hlength : rest.length < n := by
        have := List.length_pos_iff.mpr hne
        rw [List.length_append] at hn
        omega
      have hrest := (ih _ hlength rest rfl).1
      have hvalue : value.count c = 0 := List.count_eq_zero.mpr hc
      rw [replaceAfter_pattern_append hne, List.count_append, List.count_append, hvalue, Nat.zero_add]
      refine ⟨by omega, fun hmem _ => ?_⟩
      have := List.count_pos_iff.mpr hmem
      omega
    · cases text with
      | nil => exact ⟨Nat.le_refl _, fun _ h => absurd h (by simpa using hne)⟩
      | cons d text =>
        obtain ⟨hle, hlt⟩ := ih text.length (by simp [← hn]) text rfl
        rw [replaceAfter, if_neg fun hp => hprefix (List.isPrefixOf_iff_prefix.mp hp),
          List.count_cons, List.count_cons]
        refine ⟨by omega, fun hmem h => ?_⟩
        have := hlt hmem ((List.infix_cons_iff.mp h).resolve_left hprefix)
        omega

/-- A character that is in neither the pattern nor the value stays. -/
theorem mem_replaceAfter_iff (hne : pattern ≠ []) (hp : c ∉ pattern) (hv : c ∉ value)
    (text : List Char) : c ∈ replaceAfter pattern value 0 text ↔ c ∈ text := by
  constructor
  · intro h
    have hle := (count_replaceAfter hne hv text).1
    exact List.count_pos_iff.mp (Nat.lt_of_lt_of_le (List.count_pos_iff.mpr h) hle)
  · intro h
    obtain ⟨before, after, rfl⟩ := List.append_of_mem h
    rw [replaceAfter_append hne hp value (Nat.zero_le _)]
    exact List.mem_append_right _ List.mem_cons_self

end Replace

/-! ### Pairs of stars -/

/-- A text without its pairs of stars, which are taken from left to right. -/
def unpaired (text : List Char) : List Char := replaceAfter ['*', '*'] [] 0 text

theorem toList_replaceAll_pair (text : String) :
    (replaceAll "**" "" text).toList = unpaired text.toList :=
  toList_replaceAll "**" "" text

@[simp] theorem unpaired_nil : unpaired [] = [] := rfl

@[simp] theorem unpaired_pair (text : List Char) :
    unpaired ('*' :: '*' :: text) = unpaired text := rfl

theorem unpaired_cons {c : Char} (hc : c ≠ '*') (text : List Char) :
    unpaired (c :: text) = c :: unpaired text := by
  simp [unpaired, replaceAfter, Ne.symm hc]

theorem unpaired_star {text : List Char} (h : text.head? ≠ some '*') :
    unpaired ('*' :: text) = '*' :: unpaired text := by
  cases text with
  | nil => rfl
  | cons c text =>
    have hc : '*' ≠ c := by simpa [eq_comm] using h
    simp [unpaired, replaceAfter, hc]

theorem unpaired_append_of_not_mem {before : List Char} (h : '*' ∉ before) (after : List Char) :
    unpaired (before ++ after) = before ++ unpaired after := by
  induction before with
  | nil => rfl
  | cons c before ih =>
    obtain ⟨hc, hbefore⟩ := List.ne_and_not_mem_of_not_mem_cons h
    rw [List.cons_append, unpaired_cons (Ne.symm hc), ih hbefore, List.cons_append]

/-- No pair of stars goes over another character. -/
theorem unpaired_append {c : Char} (hc : c ≠ '*') (before after : List Char) :
    unpaired (before ++ c :: after) = unpaired before ++ c :: unpaired after :=
  replaceAfter_append (by simp) (by simpa using hc) [] (Nat.zero_le _) after

end ArityCheck.Text
