import ArityCheck.Proofs.Glob.Reading

/-! What patterns match.

A recursive wildcard stands for nothing, or ends after a separator, or takes all that is left
(`accepts_recursive_iff`). Every other token but a lone wildcard takes one character
(`accepts_cons`). So the pattern `**/name/**` matches a text exactly if that begins with the name
and a separator or has the name between two separators (`accepts_below_iff`). -/
namespace ArityCheck.Glob

variable {t : Token} {ts : List Token} {l : List Char}

/-! ### Wildcards -/

/-- What is left after a separator, or nothing at all. -/
theorem mem_afterSeparators {r : List Char} :
    r ∈ afterSeparators l ↔ r = [] ∨ ∃ before, l = before ++ '/' :: r := by
  induction l with
  | nil => simp [afterSeparators]
  | cons c l ih =>
    rw [afterSeparators]
    by_cases hc : c = '/'
    · subst hc
      rw [if_pos rfl, List.mem_cons, ih]
      constructor
      · rintro (rfl | rfl | ⟨before, rfl⟩)
        · exact .inr ⟨[], rfl⟩
        · exact .inl rfl
        · exact .inr ⟨'/' :: before, rfl⟩
      · rintro (rfl | ⟨before, hbefore⟩)
        · exact .inr (.inl rfl)
        · cases before with
          | nil => exact .inl (by simpa using hbefore.symm)
          | cons d before => exact .inr (.inr ⟨before, by simpa using (List.cons.inj hbefore).2⟩)
    · rw [if_neg hc, ih]
      refine or_congr_right ⟨?_, ?_⟩
      · rintro ⟨before, rfl⟩
        exact ⟨c :: before, rfl⟩
      · rintro ⟨before, hbefore⟩
        cases before with
        | nil => exact absurd (List.cons.inj hbefore).1 hc
        | cons d before => exact ⟨before, (List.cons.inj hbefore).2⟩

theorem mem_afterSeparators_of_append {r : List Char} (before : List Char) :
    r ∈ afterSeparators (before ++ '/' :: r) :=
  mem_afterSeparators.mpr (.inr ⟨before, rfl⟩)

/-- Where nothing after a text is a separator, what is left after one begins in the text. -/
theorem mem_afterSeparators_append {tail r : List Char} (htail : '/' ∉ tail)
    (hr : r ∈ afterSeparators (l ++ tail)) :
    r = [] ∨ ∃ before rest, l = before ++ '/' :: rest ∧ r = rest ++ tail := by
  refine (mem_afterSeparators.mp hr).imp_right ?_
  rintro ⟨before, hbefore⟩
  rcases List.append_eq_append_iff.mp hbefore with ⟨middle, -, htext⟩ | ⟨middle, rfl, htext⟩
  · exact absurd (htext ▸ List.mem_append_right middle List.mem_cons_self) htail
  · cases middle with
    | nil =>
      exact absurd (by simp only [List.nil_append] at htext; exact htext ▸ List.mem_cons_self) htail
    | cons c rest =>
      obtain ⟨rfl, rfl⟩ := List.cons.inj htext
      exact ⟨before, rest, rfl, rfl⟩

theorem accepts_recursive_iff :
    accepts (.recursive :: ts) l = true ↔
      accepts ts l = true ∨ ∃ r ∈ afterSeparators l, accepts ts r = true := by
  rw [accepts, Bool.or_eq_true, List.any_eq_true]

/-- A recursive wildcard that matches what is left after a separator also matches from before. -/
theorem accepts_recursive_of_mem {r : List Char} (hr : r ∈ afterSeparators l)
    (h : accepts (.recursive :: ts) r = true) : accepts (.recursive :: ts) l = true := by
  rw [accepts_recursive_iff] at h ⊢
  rcases h with h | ⟨s, hs, h⟩
  · exact .inr ⟨r, hr, h⟩
  · refine .inr ⟨s, ?_, h⟩
    rcases mem_afterSeparators.mp hs with rfl | ⟨inner, rfl⟩
    · exact mem_afterSeparators.mpr (.inl rfl)
    · rcases mem_afterSeparators.mp hr with hnil | ⟨before, rfl⟩
      · simp at hnil
      · exact mem_afterSeparators.mpr (.inr ⟨before ++ '/' :: inner, by simp⟩)

theorem self_mem_tails (l : List Char) : l ∈ tails l := by
  cases l <;> simp [tails]

@[simp] theorem accepts_last (l : List Char) : accepts [.recursive] l = true :=
  accepts_recursive_iff.mpr (.inr ⟨[], mem_afterSeparators.mpr (.inl rfl), rfl⟩)

/-! ### Tokens for one character -/

/-- The token stands for exactly one character. -/
def Token.isSingle : Token → Bool
  | .sequence | .recursive => false
  | _ => true

theorem recursive_or_isSingle (h : t ≠ .sequence) : t = .recursive ∨ t.isSingle = true := by
  cases t with
  | sequence => exact absurd rfl h
  | recursive => exact .inl rfl
  | _ => exact .inr rfl

theorem head?_ne_of_isSingle (h : t.isSingle = true) : (t :: ts).head? ≠ some .recursive := by
  intro hhead
  rw [Option.some.inj hhead] at h
  cases h

/-- A token for one character stands for this one. -/
def Token.takes : Token → Char → Bool
  | .char c, d => c == d
  | .oneOf negated ranges, d => inRanges ranges d != negated
  | _, _ => true

theorem accepts_cons (h : t.isSingle = true) (d : Char) (l : List Char) :
    accepts (t :: ts) (d :: l) = (t.takes d && accepts ts l) := by
  cases t with
  | sequence => cases h
  | recursive => cases h
  | any => rfl
  | char c => rfl
  | oneOf negated ranges => rfl

theorem accepts_nil (h : t.isSingle = true) : accepts (t :: ts) [] = false := by
  cases t with
  | sequence => cases h
  | recursive => cases h
  | _ => rfl

theorem accepts_chars_iff {cs : List Char} :
    accepts (cs.map .char ++ ts) l = true ↔ ∃ r, l = cs ++ r ∧ accepts ts r = true := by
  induction cs generalizing l with
  | nil => simp
  | cons c cs ih =>
    rw [List.map_cons, List.cons_append]
    cases l with
    | nil =>
      rw [accepts_nil rfl]
      simp
    | cons d l =>
      rw [accepts_cons rfl, Token.takes, Bool.and_eq_true, beq_iff_eq, ih]
      constructor
      · rintro ⟨rfl, r, rfl, hr⟩
        exact ⟨r, rfl, hr⟩
      · rintro ⟨r, hl, hr⟩
        obtain ⟨rfl, rfl⟩ := List.cons.inj hl
        exact ⟨rfl, r, rfl, hr⟩

/-- At the end of a text, only wildcards are left to match. -/
theorem eq_recursive_of_accepts_nil (hsequence : .sequence ∉ ts) (h : accepts ts [] = true) :
    ∀ t ∈ ts, t = .recursive := by
  induction ts with
  | nil => simp
  | cons t ts ih =>
    obtain ⟨ht, hrest⟩ := List.ne_and_not_mem_of_not_mem_cons hsequence
    rcases recursive_or_isSingle (Ne.symm ht) with rfl | hsingle
    · have haccepts : accepts ts [] = true := by simpa [accepts, afterSeparators] using h
      exact List.forall_mem_cons.mpr ⟨rfl, ih hrest haccepts⟩
    · rw [accepts_nil hsingle] at h
      cases h

theorem accepts_of_forall_recursive (hne : ts ≠ []) (h : ∀ t ∈ ts, t = .recursive)
    (l : List Char) : accepts ts l = true := by
  induction ts with
  | nil => exact absurd rfl hne
  | cons t ts ih =>
    obtain ⟨rfl, hts⟩ := List.forall_mem_cons.mp h
    by_cases hnil : ts = []
    · rw [hnil]
      exact accepts_last l
    · exact accepts_recursive_iff.mpr (.inl (ih hnil hts))

/-! ### What lies below a directory -/

/-- The pattern for everything below a directory of this name. -/
def below (name : String) : String := "**/" ++ name ++ "/**"

/-- **What lies below a directory of some name**: the text begins with that name and a separator, or
has it between two separators. -/
theorem accepts_below_iff {name : List Char} :
    accepts (.recursive :: (name.map .char ++ [.char '/', .recursive])) l = true ↔
      name ++ ['/'] <+: l ∨ '/' :: name ++ ['/'] <:+: l := by
  have hfrom : ∀ r, accepts (name.map .char ++ [.char '/', .recursive]) r = true ↔
      name ++ ['/'] <+: r := by
    intro r
    have hchars : name.map Token.char ++ [.char '/', .recursive] =
        (name ++ ['/']).map .char ++ [.recursive] := by simp
    rw [hchars, accepts_chars_iff, List.prefix_iff_exists_append_eq]
    simp [eq_comm]
  simp only [accepts_recursive_iff, hfrom]
  refine or_congr_right ⟨?_, ?_⟩
  · rintro ⟨r, hr, hprefix⟩
    rcases mem_afterSeparators.mp hr with rfl | ⟨before, rfl⟩
    · simp at hprefix
    · obtain ⟨after, rfl⟩ := hprefix
      exact ⟨before, after, by simp⟩
  · rintro ⟨before, after, rfl⟩
    refine ⟨name ++ ['/'] ++ after, ?_, List.prefix_append _ _⟩
    have hr := mem_afterSeparators_of_append (r := name ++ ['/'] ++ after) before
    simpa using hr

end ArityCheck.Glob
