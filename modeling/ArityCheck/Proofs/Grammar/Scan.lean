import ArityCheck.Grammar.Functions
import ArityCheck.Grammar.Markup

/-! What the scanner passes over.

Every function that finds the end of a lexeme answers with an index that is not before the one it
was asked at (`Advances`), so that the texts of lexemes follow each other. Whatever is taken for a
word, the words of markup included, or for a number holds no line feed either: each function says so
of the text it passes over, and the pieces are put together with `OneLine.trans`. A string may have
a line feed after a backslash, so there is no such fact about strings. -/
namespace ArityCheck.Grammar

variable {cs : Chars} {i j k : Nat}

/-- No line feed stands between two indices, of which the second is not before the first. -/
structure OneLine (cs : Chars) (i j : Nat) : Prop where
  le : i ≤ j
  ne_lineFeed : ∀ k, i ≤ k → k < j → cs[k]? ≠ some '\n'

namespace OneLine

theorem refl (cs : Chars) (i : Nat) : OneLine cs i i :=
  ⟨Nat.le_refl i, fun _ hi hj => absurd hj (Nat.not_lt.mpr hi)⟩

theorem trans (h : OneLine cs i j) (h' : OneLine cs j k) : OneLine cs i k := by
  refine ⟨Nat.le_trans h.le h'.le, fun x hi hk => ?_⟩
  by_cases hj : x < j
  · exact h.ne_lineFeed x hi hj
  · exact h'.ne_lineFeed x (Nat.not_lt.mp hj) hk

theorem cons {c : Char} (h : cs[i]? = some c) (hc : c ≠ '\n') (h' : OneLine cs (i + 1) j) :
    OneLine cs i j := by
  refine ⟨Nat.le_of_succ_le h'.le, fun x hi hj => ?_⟩
  by_cases hx : x = i
  · rw [hx, h, Ne, Option.some_inj]
    exact hc
  · exact h'.ne_lineFeed x (by omega) hj

theorem single {c : Char} (h : cs[i]? = some c) (hc : c ≠ '\n') : OneLine cs i (i + 1) :=
  cons h hc (refl cs _)

/-- A part that may be missing. -/
theorem getD {found : Option Nat} (h : ∀ k, found = some k → OneLine cs i k) :
    OneLine cs i (found.getD i) := by
  cases found with
  | none => exact refl cs i
  | some k => exact h k rfl

/-- The text between the indices has no line feed. -/
theorem not_mem_slice (h : OneLine cs i j) : '\n' ∉ (slice cs i j).toList := by
  rw [slice, String.toList_ofList, Array.mem_toList_iff, Array.mem_iff_getElem?]
  rintro ⟨k, hk⟩
  rw [Array.getElem?_extract] at hk
  split at hk
  · refine h.ne_lineFeed (i + k) (Nat.le_add_right i k) ?_ hk
    omega
  · cases hk

end OneLine

/-! ### Slices -/

@[simp] theorem slice_self (cs : Chars) (i : Nat) : slice cs i i = "" := by
  simp [slice]

/-- Texts that follow each other. -/
theorem slice_append_slice (hij : i ≤ j) (hjk : j ≤ k) :
    slice cs i j ++ slice cs j k = slice cs i k := by
  rw [slice, slice, slice, ← String.ofList_append, ← Array.toList_append,
    Array.extract_append_extract, Nat.min_eq_left hij, Nat.max_eq_right hjk]

/-! ### Classes of characters -/

theorem oneLine_skipWhile {p : Char → Bool} (hp : p '\n' = false) (cs : Chars) (i : Nat) :
    OneLine cs i (skipWhile cs p i) := by
  fun_induction skipWhile cs p i with
  | case1 i hi hc ih =>
    refine .cons (Array.getElem?_eq_getElem hi) ?_ ih
    rintro heq
    simp [heq, hp] at hc
  | case2 i hi hc => exact .refl cs i
  | case3 i hi => exact .refl cs i

theorem eq_of_literal_go {s : List Char} (h : literal?.go cs i s = some j) : j = i + s.length := by
  induction s generalizing i with
  | nil => exact (Option.some.inj h).symm
  | cons c s ih =>
    rw [literal?.go] at h
    split at h
    · rw [ih h, List.length_cons]
      omega
    · cases h

theorem oneLine_literal_go {s : List Char} (hs : '\n' ∉ s) (h : literal?.go cs i s = some j) :
    OneLine cs i j := by
  induction s generalizing i with
  | nil =>
    obtain rfl := Option.some.inj h
    exact .refl cs i
  | cons c s ih =>
    obtain ⟨hc, hs⟩ := List.ne_and_not_mem_of_not_mem_cons hs
    rw [literal?.go] at h
    split at h
    · rename_i hfound
      exact .cons (beq_iff_eq.mp hfound) (Ne.symm hc) (ih hs h)
    · cases h

theorem oneLine_of_isAt {s : String} (hs : '\n' ∉ s.toList) (h : isAt cs i s = true) :
    OneLine cs i (i + s.toList.length) := by
  obtain ⟨j, hj⟩ := Option.isSome_iff_exists.mp h
  have hline := oneLine_literal_go hs hj
  rwa [eq_of_literal_go hj] at hline

theorem oneLine_extract {p : Char → Bool} (hp : p '\n' = false) (hle : i ≤ j)
    (h : (cs.extract i j).all p = true) : OneLine cs i j := by
  refine ⟨hle, fun k hi hj hk => ?_⟩
  have hmem : '\n' ∈ cs.extract i j := by
    rw [Array.mem_iff_getElem?]
    refine ⟨k - i, ?_⟩
    have hsize : k < cs.size := (Array.getElem?_eq_some_iff.mp hk).1
    rw [Array.getElem?_extract, if_pos (by omega), Nat.add_sub_cancel' hi]
    exact hk
  rw [Array.all_eq_true_iff_forall_mem] at h
  exact absurd (h '\n' hmem) (by simp [hp])

/-! ### Words -/

theorem isHex_lineFeed : isHex '\n' = false := by decide

theorem isWordPart_lineFeed : isWordPart '\n' = false := by decide

theorem oneLine_unicodeEscapeEnd? (h : unicodeEscapeEnd? cs i = some j) : OneLine cs i j := by
  rw [unicodeEscapeEnd?] at h
  split at h
  · cases h
  · rename_i hat
    have hmark : OneLine cs i (i + 2) :=
      oneLine_of_isAt (s := "\\u") (by decide) (by simpa using hat)
    refine hmark.trans ?_
    split at h
    · rename_i hopen
      simp only at h
      split at h
      · rename_i hclose
        obtain rfl := Option.some.inj h
        rw [Bool.and_eq_true] at hclose
        refine .cons (beq_iff_eq.mp hopen) (by decide) ?_
        exact (oneLine_skipWhile isHex_lineFeed cs (i + 3)).trans
          (.single (beq_iff_eq.mp hclose.2) (by decide))
      · cases h
    · simp only at h
      split at h
      · rename_i hdigits
        obtain rfl := Option.some.inj h
        rw [Bool.and_eq_true] at hdigits
        exact oneLine_extract isHex_lineFeed (by omega) hdigits.2
      · cases h

theorem oneLine_wordRest_go (cs : Chars) (n i : Nat) : OneLine cs i (wordRest.go cs n i) := by
  fun_induction wordRest.go cs n i with
  | case1 i => exact .refl cs i
  | case2 n i j k hk ih =>
    exact (oneLine_skipWhile isWordPart_lineFeed cs i).trans
      ((oneLine_unicodeEscapeEnd? hk).trans ih)
  | case3 n i j hk => exact oneLine_skipWhile isWordPart_lineFeed cs i

theorem oneLine_wordRest (cs : Chars) (i : Nat) : OneLine cs i (wordRest cs i) :=
  oneLine_wordRest_go cs _ i

theorem oneLine_wordEnd? (h : wordEnd? cs i = some j) : OneLine cs i j := by
  rw [wordEnd?] at h
  split at h
  · cases h
  · rename_i c hc
    split at h
    · rename_i hstart
      obtain rfl := Option.some.inj h
      refine .cons hc ?_ (oneLine_wordRest cs (i + 1))
      rintro rfl
      revert hstart
      decide
    · obtain ⟨k, hk, rfl⟩ := Option.map_eq_some_iff.mp h
      exact (oneLine_unicodeEscapeEnd? hk).trans (oneLine_wordRest cs k)

theorem oneLine_markupWordEnd? (h : markupWordEnd? cs i = some j) : OneLine cs i j := by
  obtain ⟨k, hk, rfl⟩ := Option.map_eq_some_iff.mp h
  exact (oneLine_wordEnd? hk).trans (oneLine_skipWhile (by decide) cs k)

/-! ### Numbers -/

section Digits

variable {p : Char → Bool} (hp : p '\n' = false)

include hp

theorem ne_lineFeed_of_digit {c : Char} (hc : p c = true) : c ≠ '\n' := by
  rintro rfl
  simp [hp] at hc

theorem oneLine_digits_go (cs : Chars) (n i : Nat) : OneLine cs i (digitsEnd?.go cs p n i) := by
  fun_induction digitsEnd?.go cs p n i with
  | case1 i => exact .refl cs i
  | case2 n i d hd hmark hdigit ih =>
    exact .cons hmark (by decide) (.cons hd (ne_lineFeed_of_digit hp hdigit) ih)
  | case3 n i d hd hmark hdigit => exact .refl cs i
  | case4 n i c hc hdigit hmark ih => exact .cons hc (ne_lineFeed_of_digit hp hdigit) ih
  | case5 n i c hc hdigit hmark => exact .refl cs i
  | case6 n i hc => exact .refl cs i

theorem oneLine_digitsEnd? (h : digitsEnd? cs p i = some j) : OneLine cs i j := by
  rw [digitsEnd?] at h
  split at h
  · rename_i c hc
    split at h
    · rename_i hdigit
      obtain rfl := Option.some.inj h
      exact .cons hc (ne_lineFeed_of_digit hp hdigit) (oneLine_digits_go hp cs _ _)
    · cases h
  · cases h

end Digits

theorem isDigit_lineFeed : Char.isDigit '\n' = false := by decide

theorem oneLine_exponentEnd? (h : exponentEnd? cs i = some j) : OneLine cs i j := by
  rw [exponentEnd?] at h
  have hdigits {k : Nat} (hk : digitsEnd? cs Char.isDigit k = some j) :=
    oneLine_digitsEnd? isDigit_lineFeed hk
  split at h
  case h_3 => cases h
  all_goals
    rename_i hletter
    refine .cons hletter (by decide) ?_
    split at h
    case h_3 => exact hdigits h
    all_goals
      rename_i hsign
      exact .cons hsign (by decide) (hdigits h)

theorem oneLine_exponent (cs : Chars) (i : Nat) : OneLine cs i ((exponentEnd? cs i).getD i) :=
  .getD fun _ => oneLine_exponentEnd?

theorem oneLine_decimalEnd? (h : decimalEnd? cs i = some j) : OneLine cs i j := by
  rw [decimalEnd?] at h
  simp only at h
  split at h
  · rename_i k hk
    refine (oneLine_digitsEnd? isDigit_lineFeed hk).trans ?_
    split at h
    · rename_i hmark
      obtain rfl := Option.some.inj h
      exact .single hmark (by decide)
    · rename_i hpoint
      obtain rfl := Option.some.inj h
      refine .cons hpoint (by decide) (.trans (.getD fun _ => ?_) (oneLine_exponent cs _))
      exact oneLine_digitsEnd? isDigit_lineFeed
    · obtain rfl := Option.some.inj h
      exact oneLine_exponent cs k
  · split at h
    · rename_i hpoint
      obtain ⟨k, hk, rfl⟩ := Option.map_eq_some_iff.mp h
      exact .cons (beq_iff_eq.mp hpoint) (by decide)
        ((oneLine_digitsEnd? isDigit_lineFeed hk).trans (oneLine_exponent cs k))
    · cases h

theorem oneLine_numberEnd? (h : numberEnd? cs i = some j) : OneLine cs i j := by
  rw [numberEnd?, Option.or_eq_some_iff] at h
  rcases h with h | ⟨-, h⟩
  · -- A zero and a letter, then digits and perhaps a mark for a large number.
    split at h
    · cases h
    · rename_i hzero
      have hzero : cs[i]? = some '0' := by simpa using hzero
      have hbased {p : Char → Bool} (hp : p '\n' = false) (h : ((digitsEnd? cs p (i + 2)).map
          fun j => if cs[j]? == some 'n' then j + 1 else j) = some j) : OneLine cs (i + 2) j := by
        obtain ⟨k, hk, rfl⟩ := Option.map_eq_some_iff.mp h
        refine (oneLine_digitsEnd? hp hk).trans ?_
        split
        · rename_i hmark
          exact .single (beq_iff_eq.mp hmark) (by decide)
        · exact .refl cs k
      refine .cons hzero (by decide) ?_
      split at h
      case h_7 => cases h
      all_goals
        rename_i hletter
        exact .cons hletter (by decide) (hbased (by decide) h)
  · exact oneLine_decimalEnd? h

/-! ### Ends of lexemes -/

/-- The function answers with no index before the one that it is asked at. -/
class Advances (stop? : Chars → Nat → Option Nat) : Prop where
  le : ∀ {cs i j}, stop? cs i = some j → i ≤ j

theorem le_skipWhile (cs : Chars) (p : Char → Bool) (i : Nat) : i ≤ skipWhile cs p i := by
  fun_induction skipWhile cs p i with
  | case1 i hi hc ih => omega
  | case2 i hi hc => exact Nat.le_refl i
  | case3 i hi => exact Nat.le_refl i

theorem le_skipBlanks (cs : Chars) (i : Nat) : i ≤ skipBlanks cs i := le_skipWhile cs isBlank i

instance advances_literal? (s : String) : Advances fun cs i => literal? cs i s where
  le h := by
    rw [eq_of_literal_go h]
    exact Nat.le_add_right _ _

instance advances_filter {stop? : Chars → Nat → Option Nat} [h : Advances stop?]
    (p : Nat → Nat → Bool) : Advances fun cs i => (stop? cs i).filter (p i) where
  le hfound := h.le (Option.filter_eq_some_iff.mp hfound).1

/-! Comments. -/

theorem le_blockCommentEnd? (h : blockCommentEnd? cs i = some j) : i ≤ j := by
  fun_induction blockCommentEnd? cs i with
  | case1 i hi hc =>
    obtain rfl := Option.some.inj h
    omega
  | case2 i hi hc ih => exact Nat.le_of_succ_le (ih h)
  | case3 i hi => cases h

theorem le_commentEnd? (h : commentEnd? cs i = some j) : i ≤ j := by
  rw [commentEnd?] at h
  split at h
  · obtain rfl := Option.some.inj h
    have := le_skipWhile cs (fun c => !isLineEnd c && c != '\r') (i + 2)
    omega
  · split at h
    · have := le_blockCommentEnd? h
      omega
    · cases h

instance advances_htmlCommentEnd? : Advances htmlCommentEnd? where
  le h := by
    rw [htmlCommentEnd?] at h
    split at h
    · obtain rfl := Option.some.inj h
      exact le_skipWhile _ _ _
    · cases h

/-! Strings, templates and regular expressions. -/

theorem le_unicodeEscapeEnd? (h : unicodeEscapeEnd? cs i = some j) : i ≤ j :=
  (oneLine_unicodeEscapeEnd? h).le

theorem le_escapeEnd? (h : escapeEnd? cs i = some j) : i ≤ j := by
  rw [escapeEnd?] at h
  split at h
  · cases h
  · exact le_unicodeEscapeEnd? h
  · simp only at h
    split at h
    · obtain rfl := Option.some.inj h
      omega
    · cases h
  · split at h
    all_goals
      obtain rfl := Option.some.inj h
      omega
  · obtain rfl := Option.some.inj h
    omega

theorem le_string_go {q : Char} {n : Nat} (h : stringEnd?.go cs q n i = some j) : i ≤ j := by
  induction n generalizing i with
  | zero => cases h
  | succ n ih =>
    rw [stringEnd?.go] at h
    split at h
    · cases h
    · split at h
      · obtain rfl := Option.some.inj h
        omega
      · split at h
        · cases h
        · split at h
          · obtain ⟨k, hescape, hrest⟩ := Option.bind_eq_some_iff.mp h
            exact Nat.le_trans (le_escapeEnd? hescape) (ih hrest)
          · exact Nat.le_of_succ_le (ih h)

instance advances_stringEnd? : Advances stringEnd? where
  le h := by
    rw [stringEnd?] at h
    split at h
    · split at h
      · exact Nat.le_of_succ_le (le_string_go h)
      · cases h
    · cases h

instance advances_markupStringEnd? : Advances markupStringEnd? where
  le {cs i j} h := by
    rw [markupStringEnd?] at h
    split at h
    · rename_i q hq
      split at h
      · simp only at h
        split at h
        · obtain rfl := Option.some.inj h
          have := le_skipWhile cs (· != q) (i + 1)
          omega
        · cases h
      · cases h
    · cases h

theorem le_templateChars_go {n : Nat} (h : templateCharsEnd?.go cs n i = some j) : i ≤ j := by
  fun_induction templateCharsEnd?.go cs n i with
  | case1 i => cases h
  | case2 n i hc => cases h
  | case3 n i hc => exact Nat.le_of_eq (Option.some.inj h)
  | case4 n i hc hi ih => exact Nat.le_trans (Nat.le_add_right i 2) (ih h)
  | case5 n i hc hi => cases h
  | case6 n i hc hbrace => exact Nat.le_of_eq (Option.some.inj h)
  | case7 n i hc hbrace ih => exact Nat.le_of_succ_le (ih h)
  | case8 n i c hc _ _ _ ih => exact Nat.le_of_succ_le (ih h)

instance advances_templateCharsEnd? : Advances templateCharsEnd? := ⟨le_templateChars_go⟩

theorem le_regex_go {inClass : Bool} {n : Nat} (h : regexEnd?.go cs i inClass n j = some k) :
    j ≤ k := by
  fun_induction regexEnd?.go cs i inClass n j with
  | case1 => cases h
  | case2 => cases h
  | case3 => cases h
  | case4 inClass n j hc hnext ih => exact Nat.le_trans (Nat.le_add_right j 2) (ih h)
  | case5 => cases h
  | case6 inClass n j hc ih => exact Nat.le_of_succ_le (ih h)
  | case7 inClass n j hc ih => exact Nat.le_of_succ_le (ih h)
  | case8 n j hc ih => exact Nat.le_of_succ_le (ih h)
  | case9 => cases h
  | case10 inClass n j hc hclass hfirst =>
    obtain rfl := Option.some.inj h
    exact Nat.le_of_succ_le (le_skipWhile _ _ _)
  | case11 =>
    rename_i ih
    exact Nat.le_of_succ_le (ih h)

instance advances_regexEnd? : Advances regexEnd? where
  le h := by
    rw [regexEnd?] at h
    split at h
    · exact Nat.le_of_succ_le (le_regex_go h)
    · cases h

end ArityCheck.Grammar
