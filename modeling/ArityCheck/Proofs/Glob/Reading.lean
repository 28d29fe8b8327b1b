import ArityCheck.Glob.Basic
import ArityCheck.Proofs.Except
import ArityCheck.Proofs.Text.Replace

/-! How the text of a pattern spells its tokens.

The reader goes through a pattern character by character and keeps what it is inside of. `Spells`
says what it comes to, token by token: which characters stand for a token, and that a recursive
wildcard begins the pattern or comes after a separator. Every pattern that can be read is spelled
(`spells_of_parse`), so what holds of a pattern and its text is shown by induction on the spelling.

What is left of a pattern without its recursive wildcards (`rest`) is looked for in paths as it is.
A lone wildcard leaves its star there, and without classes nothing else does
(`Spells.star_mem_unpaired`, `Spells.sequence_mem`). -/
namespace ArityCheck.Glob

/-! ### Spellings -/

/-- The tokens that a text stands for. Only where it is `free` may it go on with a recursive
wildcard: at the start, and after a separator. -/
inductive Spells : (free : Bool) → List Token → List Char → Prop
  | nil {free : Bool} : Spells free [] []
  | last : Spells true [.recursive] ['*', '*']
  | recursive {ts : List Token} {text : List Char} :
      Spells true ts text → Spells true (.recursive :: ts) ('*' :: '*' :: '/' :: text)
  | sequence {free : Bool} {ts : List Token} {text : List Char} : text.head? ≠ some '*' →
      Spells false ts text → Spells free (.sequence :: ts) ('*' :: text)
  | any {free : Bool} {ts : List Token} {text : List Char} :
      Spells false ts text → Spells free (.any :: ts) ('?' :: text)
  | oneOf {free negated : Bool} {ranges : List (Char × Char)} {body : List Char}
      {ts : List Token} {text : List Char} : Spells false ts text →
      Spells free (.oneOf negated ranges :: ts) ('[' :: body ++ ']' :: text)
  | char {free : Bool} {c : Char} {ts : List Token} {text : List Char} : c ≠ '*' →
      Spells (c == '/') ts text → Spells free (.char c :: ts) (c :: text)

/-- A recursive wildcard may come next. -/
def isFree (last : Option Char) : Bool := !last.any (· != '/')

/-- What a class is read to: its characters, the end of it, and the tokens after that. -/
def ClassSpells (ts : List Token) (text : List Char) : Prop :=
  ∃ body rest negated ranges ts', text = body ++ ']' :: rest ∧
    ts = .oneOf negated ranges :: ts' ∧ Spells false ts' rest

theorem ClassSpells.cons {ts : List Token} {text : List Char} (h : ClassSpells ts text) (c : Char) :
    ClassSpells ts (c :: text) := by
  obtain ⟨body, rest, negated, ranges, ts', rfl, hts, hrest⟩ := h
  exact ⟨c :: body, rest, negated, ranges, ts', rfl, hts, hrest⟩

/-- Inside of a class, its end is read first. -/
theorem spells_of_read {inside : Option OpenClass} {position : Nat} {last : Option Char}
    {text : List Char} {ts : List Token} (h : read inside position last text = .ok ts) :
    inside.elim (Spells (isFree last) ts text) fun _ => ClassSpells ts text := by
  fun_induction read inside position last text generalizing ts with
  | case1 position last k => cases h
  | case2 position last =>
    cases h
    exact .nil
  | case3 position last c cs k hclose ih =>
    obtain ⟨ts', hts', ⟨⟩⟩ := bind_eq_ok_iff.mp h
    simp only [Bool.and_eq_true, decide_eq_true_eq] at hclose
    obtain ⟨rfl, -⟩ := hclose
    exact ⟨[], cs, _, _, ts', rfl, rfl, ih hts'⟩
  | case4 position last c cs k _ _ ih => exact (ih h).cons c
  | case5 position last c cs k _ _ ih => exact (ih h).cons c
  | case6 position last tail => cases h
  | case7 position last cs _ hlast => cases h
  | case8 position last hlast _ =>
    cases h
    have hfree : isFree last = true := by simpa [isFree] using hlast
    exact hfree ▸ .last
  | case9 position last hlast cs _ ih =>
    obtain ⟨ts', hts', ⟨⟩⟩ := bind_eq_ok_iff.mp h
    have hfree : isFree last = true := by simpa [isFree] using hlast
    exact hfree ▸ .recursive (ih hts')
  | case10 position last cs _ _ _ _ => cases h
  | case11 position last cs _ hstar ih =>
    obtain ⟨ts', hts', ⟨⟩⟩ := bind_eq_ok_iff.mp h
    refine .sequence (fun hhead => ?_) (ih hts')
    obtain ⟨tail, htail⟩ := List.head?_eq_some_iff.mp hhead
    exact hstar tail htail
  | case12 position last cs ih =>
    obtain ⟨ts', hts', ⟨⟩⟩ := bind_eq_ok_iff.mp h
    exact .any (ih hts')
  | case13 position last cs ih =>
    obtain ⟨body, rest, negated, ranges, ts', rfl, rfl, hrest⟩ := ih h
    exact .oneOf hrest
  | case14 position last c cs _ _ hstar _ _ ih =>
    obtain ⟨ts', hts', ⟨⟩⟩ := bind_eq_ok_iff.mp h
    refine .char hstar ?_
    have hfree : isFree (some c) = (c == '/') := by simp [isFree, bne]
    exact hfree ▸ ih hts'

theorem spells_of_parse {text : String} {g : Glob} (h : parse text = .ok g) :
    g.text = text ∧ Spells true g.tokens text.toList := by
  obtain ⟨ts, hts, ⟨⟩⟩ := bind_eq_ok_iff.mp h
  exact ⟨rfl, spells_of_read hts⟩

/-! ### A pattern and what is left without its recursive wildcards -/

section Unpaired

open Text (unpaired unpaired_pair unpaired_cons unpaired_star unpaired_append)

/-- What is left of a pattern without its recursive wildcards, taken literally. -/
def rest (g : Glob) : List Char := unpaired g.text.toList

variable {free : Bool} {ts : List Token} {text : List Char}

/-- Only where the text is free does it go on with a recursive wildcard. -/
theorem Spells.free_of_head (h : Spells free ts text) (hhead : ts.head? = some .recursive) :
    free = true := by
  cases h with
  | last => rfl
  | recursive h => rfl
  | _ => simp at hhead

/-- A class is left with its brackets, so what stands in it does not pair with what comes after. -/
theorem unpaired_class (body rest : List Char) :
    unpaired ('[' :: body ++ ']' :: rest) = '[' :: unpaired body ++ ']' :: unpaired rest := by
  rw [unpaired_append (by decide), unpaired_cons (by decide)]

/-- The star of a lone wildcard is left. -/
theorem Spells.star_mem_unpaired (h : Spells free ts text) (hmem : .sequence ∈ ts) :
    '*' ∈ unpaired text := by
  induction h with
  | nil => simp at hmem
  | last => simp at hmem
  | recursive h ih =>
    have ih := ih (by simpa using hmem)
    rw [unpaired_pair, unpaired_cons (by decide)]
    exact List.mem_cons_of_mem _ ih
  | sequence hstar h ih =>
    rw [unpaired_star hstar]
    exact List.mem_cons_self
  | any h ih =>
    have ih := ih (by simpa using hmem)
    rw [unpaired_cons (by decide)]
    exact List.mem_cons_of_mem _ ih
  | oneOf h ih =>
    have ih := ih (by simpa using hmem)
    rw [unpaired_class]
    simp [ih]
  | char hc h ih =>
    have ih := ih (by simpa using hmem)
    rw [unpaired_cons hc]
    exact List.mem_cons_of_mem _ ih

/-- No token of the pattern is a class. -/
def Classless (ts : List Token) : Prop := ∀ negated ranges, .oneOf negated ranges ∉ ts

theorem Classless.rest {t : Token} (h : Classless (t :: ts)) : Classless ts :=
  fun negated ranges hmem => h negated ranges (List.mem_cons_of_mem t hmem)

/-- Without classes, every star that is left is a lone wildcard. -/
theorem Spells.sequence_mem (h : Spells free ts text) (hclass : Classless ts)
    (hstar : '*' ∈ unpaired text) : .sequence ∈ ts := by
  induction h with
  | nil => simp at hstar
  | last => simp at hstar
  | recursive h ih =>
    rw [unpaired_pair, unpaired_cons (by decide)] at hstar
    have ih := ih hclass.rest (by simpa using hstar)
    exact List.mem_cons_of_mem _ ih
  | sequence _ h ih => exact List.mem_cons_self
  | any h ih =>
    rw [unpaired_cons (by decide)] at hstar
    have ih := ih hclass.rest (by simpa using hstar)
    exact List.mem_cons_of_mem _ ih
  | oneOf h ih => exact absurd List.mem_cons_self (hclass _ _)
  | char hc h ih =>
    rw [unpaired_cons hc] at hstar
    have ih := ih hclass.rest (by simpa [Ne.symm hc] using hstar)
    exact List.mem_cons_of_mem _ ih

theorem Spells.eq_nil (h : Spells free [] text) : text = [] := by
  cases h
  rfl

/-- Nothing is left only of nothing and of a recursive wildcard by itself. -/
theorem Spells.of_unpaired_eq_nil (h : Spells free ts text) (hnil : unpaired text = []) :
    ts = [] ∨ ts = [.recursive] := by
  cases h with
  | nil => exact .inl rfl
  | last => exact .inr rfl
  | recursive h => simp [unpaired_cons] at hnil
  | sequence hstar h => simp [unpaired_star hstar] at hnil
  | any h => simp [unpaired_cons] at hnil
  | oneOf h =>
    rw [unpaired_class] at hnil
    simp at hnil
  | char hc h => simp [unpaired_cons hc] at hnil

end Unpaired

end ArityCheck.Glob
