import ArityCheck.Json.Printer
import ArityCheck.Json.Token

/-! The lexemes of a written value.

`lexemes` says which lexemes a value is made of, and `tokens?_write` that these are the ones that
are read in its text, in any layout that puts nothing but blanks between them. The lexer is followed
from between two lexemes to between two lexemes. What it needs to know is that a word or a number is
over where the next lexeme begins (`Ends`), and that every character of a string is read back from
what it is escaped as (`run_escape`). -/
namespace ArityCheck.Json

/-! ### Lexemes of a value -/

/-- A value that is made of integers, texts and words. -/
inductive Plain : Json → Prop where
  | null : Plain .null
  | bool (b : Bool) : Plain (.bool b)
  | int (i : Int) : Plain (.int i)
  | string (s : String) : Plain (.string s)
  | array {items : List Json} (h : ∀ x ∈ items, Plain x) : Plain (.array items)
  | object {members : List (String × Json)} (h : ∀ m ∈ members, Plain m.2) :
      Plain (.object members)

mutual

def lexemes : Json → List Token
  | .null | .brokenString => [.word "null"]
  | .bool true => [.word "true"]
  | .bool false => [.word "false"]
  | .int i => [.number (toString i)]
  | .real literal => [.number literal]
  | .string s => [.string (some s)]
  | .array [] => [.openArray, .closeArray]
  | .array (x :: xs) => .openArray :: (lexemes x ++ itemLexemes xs)
  | .object [] => [.openObject, .closeObject]
  | .object ((k, v) :: ms) =>
    .openObject :: .string (some k) :: .colon :: (lexemes v ++ memberLexemes ms)

/-- The lexemes of the rest of an array, with its end. -/
def itemLexemes : List Json → List Token
  | [] => [.closeArray]
  | x :: xs => .comma :: (lexemes x ++ itemLexemes xs)

/-- The lexemes of the rest of an object, with its end. -/
def memberLexemes : List (String × Json) → List Token
  | [] => [.closeObject]
  | (k, v) :: ms => .comma :: .string (some k) :: .colon :: (lexemes v ++ memberLexemes ms)

end

namespace Lexer

/-! ### Where a lexeme ends -/

/-- No word and no number goes on with the text. -/
def Ends (text : List Char) : Prop :=
  ∀ c ∈ text.head?, c.isAlpha = false ∧ isNumberChar c = false

theorem ends_nil : Ends [] := by
  intro c hc
  cases hc

theorem ends_cons {c : Char} (h : c.isAlpha = false ∧ isNumberChar c = false) (cs : List Char) :
    Ends (c :: cs) := by
  intro c' hc'
  obtain rfl := Option.some.inj hc'
  exact h

/-- A word is over where another lexeme begins. -/
theorem run_word_of_ends (cs : List Char) (done : List Token) {rest : List Char} (h : Ends rest) :
    run (.word cs) done rest = run .blank (.word (String.ofList cs.reverse) :: done) rest := by
  cases rest with
  | nil => rfl
  | cons c rest =>
    have hc : c.isAlpha = false := (h c rfl).1
    simp only [run, step, hc, Bool.false_eq_true, if_false]
    cases start c with
    | none => rfl
    | some next => simp

/-- A number is over where another lexeme begins. -/
theorem run_number_of_ends (cs : List Char) (done : List Token) {rest : List Char}
    (h : Ends rest) :
    run (.number cs) done rest = run .blank (.number (String.ofList cs.reverse) :: done) rest := by
  cases rest with
  | nil => rfl
  | cons c rest =>
    have hc : isNumberChar c = false := (h c rfl).2
    simp only [run, step, hc, Bool.false_eq_true, if_false]
    cases start c with
    | none => rfl
    | some next => simp

/-! ### Blanks -/

theorem ends_of_isBlank {c : Char} (h : isBlank c = true) :
    c.isAlpha = false ∧ isNumberChar c = false := by
  simp only [isBlank, Bool.or_eq_true, beq_iff_eq] at h
  rcases h with ((h | h) | h) | h <;> subst h <;> decide

theorem ends_blanks {cs : List Char} (h : ∀ c ∈ cs, isBlank c = true) {rest : List Char}
    (hrest : Ends rest) : Ends (cs ++ rest) := by
  cases cs with
  | nil => exact hrest
  | cons c cs => exact ends_cons (ends_of_isBlank (h c List.mem_cons_self)) _

theorem run_blanks {cs : List Char} (h : ∀ c ∈ cs, isBlank c = true) (done : List Token)
    (rest : List Char) : run .blank done (cs ++ rest) = run .blank done rest := by
  induction cs with
  | nil => rfl
  | cons c cs ih =>
    have hc : isBlank c = true := h c List.mem_cons_self
    simp only [List.cons_append, run, step, start, hc, if_true]
    exact ih fun d hd => h d (List.mem_cons_of_mem c hd)

/-- A mark is a lexeme by itself. -/
theorem run_mark (mark : String) {c : Char} {t : Token} (hmark : mark.toList = [c])
    (hc : start c = some ([t], .blank)) (done : List Token) (rest : List Char) :
    run .blank done (mark.toList ++ rest) = run .blank (t :: done) rest := by
  rw [hmark, List.singleton_append, run]
  simp only [step, hc]
  rfl

/-! ### Strings -/

theorem hexDigit?_hexDigit : ∀ n < 16, hexDigit? (hexDigit n) = some n := by decide

/-- The value of a control character is below that of a blank, so its code has two zeros. -/
theorem run_hex {c : Char} (h : c.toNat < 0x20) (cs : List Char) (done : List Token)
    (rest : List Char) :
    run (.string (some cs)) done
        ('\\' :: 'u' :: '0' :: '0' :: hexDigit (c.toNat / 16) :: hexDigit (c.toNat % 16) :: rest) =
      run (.string (some (c :: cs))) done rest := by
  have hhigh := hexDigit?_hexDigit (c.toNat / 16) (by omega)
  have hlow := hexDigit?_hexDigit (c.toNat % 16) (by omega)
  have hzero : hexDigit? '0' = some 0 := by decide
  have hvalue : c.toNat / 16 * 16 + c.toNat % 16 = c.toNat := by omega
  have hclose : closeHex (some cs) none c.toNat = .string (some (c :: cs)) := by
    have h1 : ¬(55296 ≤ c.toNat) := by omega
    have h2 : ¬(56320 ≤ c.toNat) := by omega
    simp [closeHex, h1, h2, push, Char.ofNat_toNat]
  simp [run, step, stepString, stepEscape, hzero, hhigh, hlow, hvalue, hclose]

/-- **A character is read back from what it is escaped as.** -/
theorem run_escape (c : Char) (cs : List Char) (done : List Token) (rest : List Char) :
    run (.string (some cs)) done (Json.escape c ++ rest) =
      run (.string (some (c :: cs))) done rest := by
  unfold Json.escape
  split
  case h_8 hquote hbackslash _ _ _ _ _ =>
    split
    next hcontrol => exact run_hex hcontrol cs done rest
    next hcontrol =>
      have hquote : (c == '\x22') = false := by simpa using hquote
      have hbackslash : (c == '\\') = false := by simpa using hbackslash
      simp [run, step, stepString, hquote, hbackslash, hcontrol, push]
  all_goals rfl

theorem run_escapes (text cs : List Char) (done : List Token) (rest : List Char) :
    run (.string (some cs)) done (text.flatMap Json.escape ++ rest) =
      run (.string (some (text.reverse ++ cs))) done rest := by
  induction text generalizing cs with
  | nil => rfl
  | cons c text ih =>
    rw [List.flatMap_cons, List.append_assoc, run_escape, ih, List.reverse_cons, List.append_assoc]
    rfl

/-- **A text is read back from its quotes.** -/
theorem run_quote (s : String) (done : List Token) (rest : List Char) :
    run .blank done ((quote s).toList ++ rest) = run .blank (.string (some s) :: done) rest := by
  have hclosed : run (.string (some (s.toList.reverse ++ []))) done ('\x22' :: rest) =
      run .blank (.string (some s) :: done) rest := by
    simp [run, step, stepString]
  rw [quote, String.toList_ofList, ← hclosed, ← run_escapes]
  simp [run, step, start, isBlank]

/-! ### Numbers -/

theorem start_of_isDigit {c : Char} (h : c.isDigit = true) : start c = some ([], .number [c]) := by
  have hne : ∀ d : Char, d.isDigit = false → c ≠ d := by
    intro d hd heq
    rw [heq, hd] at h
    cases h
  have hblank : isBlank c = false := by
    simp [isBlank, hne ' ' rfl, hne '\n' rfl, hne '\r' rfl, hne '\t' rfl]
  simp [start, hblank, h, hne '[' rfl, hne ']' rfl, hne '\x7b' rfl, hne '\x7d' rfl, hne ',' rfl,
    hne ':' rfl, hne '\x22' rfl]

theorem run_numberChars {cs : List Char} (h : ∀ c ∈ cs, isNumberChar c = true) (before : List Char)
    (done : List Token) (rest : List Char) :
    run (.number before) done (cs ++ rest) = run (.number (cs.reverse ++ before)) done rest := by
  induction cs generalizing before with
  | nil => rfl
  | cons c cs ih =>
    have hc : isNumberChar c = true := h c List.mem_cons_self
    rw [List.cons_append, run]
    simp only [step, hc, if_true, List.reverse_nil, List.nil_append]
    rw [ih fun d hd => h d (List.mem_cons_of_mem c hd), List.reverse_cons, List.append_assoc]
    rfl

/-- A number that is written with number characters is one lexeme. -/
theorem run_number {c : Char} {cs : List Char} (hc : start c = some ([], .number [c]))
    (hcs : ∀ d ∈ cs, isNumberChar d = true) (done : List Token) {rest : List Char}
    (hrest : Ends rest) :
    run .blank done (c :: cs ++ rest) =
      run .blank (.number (String.ofList (c :: cs)) :: done) rest := by
  rw [List.cons_append, run]
  simp only [step, hc, List.reverse_nil, List.nil_append]
  rw [run_numberChars hcs, run_number_of_ends _ _ hrest, List.reverse_append, List.reverse_reverse]
  rfl

end Lexer

/-- Digits are written for a natural number. -/
theorem toList_toString (n : Nat) : (toString n).toList = Nat.toDigits 10 n := by
  rw [Nat.toString_eq_ofList_toDigits, String.toList_ofList]

theorem toList_toString_negSucc (n : Nat) :
    (toString (Int.negSucc n)).toList = '-' :: (toString (n + 1)).toList := by
  show ("-" ++ toString (n + 1)).toList = _
  rw [String.toList_append]
  rfl

theorem isDigit_of_mem_toString {n : Nat} {c : Char} (h : c ∈ (toString n).toList) :
    c.isDigit = true := by
  rw [toList_toString] at h
  exact Nat.isDigit_of_mem_toDigits (by decide) (by decide) h

namespace Lexer

theorem isNumberChar_of_isDigit {c : Char} (h : c.isDigit = true) : isNumberChar c = true := by
  simp [isNumberChar, h]

theorem run_nat (n : Nat) (done : List Token) {rest : List Char} (hrest : Ends rest) :
    run .blank done ((toString n).toList ++ rest) =
      run .blank (.number (toString n) :: done) rest := by
  have hdigits : ∀ c ∈ (toString n).toList, c.isDigit = true :=
    fun c hc => isDigit_of_mem_toString hc
  have hne : (toString n).toList ≠ [] := by
    rw [toList_toString]
    exact Nat.toDigits_ne_nil
  cases htext : (toString n).toList with
  | nil => exact absurd htext hne
  | cons c cs =>
    rw [htext, List.forall_mem_cons] at hdigits
    rw [run_number (start_of_isDigit hdigits.1)
      (fun d hd => isNumberChar_of_isDigit (hdigits.2 d hd)) done hrest, ← htext,
      String.ofList_toList]

theorem run_int (i : Int) (done : List Token) {rest : List Char} (hrest : Ends rest) :
    run .blank done ((toString i).toList ++ rest) =
      run .blank (.number (toString i) :: done) rest := by
  cases i with
  | ofNat n => exact run_nat n done hrest
  | negSucc n =>
    have htext := toList_toString_negSucc n
    have hdigits : ∀ c ∈ (toString (n + 1)).toList, isNumberChar c = true :=
      fun c hc => isNumberChar_of_isDigit (isDigit_of_mem_toString hc)
    rw [htext, run_number rfl hdigits done hrest, ← htext, String.ofList_toList]

end Lexer

/-! ### Written values -/

/-- A layout that puts only blanks between lexemes. -/
structure Layout.IsBlank (l : Layout) : Prop where
  line : ∀ depth, ∀ c ∈ (l.line depth).toList, Lexer.isBlank c = true
  colon : ∃ blanks : List Char, l.colon.toList = ':' :: blanks ∧
    ∀ c ∈ blanks, Lexer.isBlank c = true

theorem Layout.isBlank_compact : Layout.compact.IsBlank where
  line _ := List.forall_mem_nil _
  colon := ⟨[], rfl, List.forall_mem_nil _⟩

theorem Layout.isBlank_indented : Layout.indented.IsBlank where
  line := by
    intro depth c hc
    simp only [indented, String.toList_ofList, List.mem_cons, List.mem_replicate] at hc
    rcases hc with rfl | ⟨-, rfl⟩ <;> rfl
  colon := ⟨[' '], rfl, List.forall_mem_singleton.mpr rfl⟩

namespace Lexer

variable {l : Layout}

theorem run_line (hl : l.IsBlank) (depth : Nat) (done : List Token) (rest : List Char) :
    run .blank done ((l.line depth).toList ++ rest) = run .blank done rest :=
  run_blanks (hl.line depth) done rest

theorem run_colon (hl : l.IsBlank) (done : List Token) (rest : List Char) :
    run .blank done (l.colon.toList ++ rest) = run .blank (.colon :: done) rest := by
  obtain ⟨blanks, hcolon, hblanks⟩ := hl.colon
  rw [hcolon]
  exact run_blanks hblanks _ rest

/-- The text of a value is read as its lexemes, at any depth and before anything that ends it. -/
def ReadsAs (l : Layout) (j : Json) : Prop :=
  ∀ depth done rest, Ends rest → run .blank done ((write l depth j).toList ++ rest) =
    run .blank ((lexemes j).reverse ++ done) rest

theorem ends_writeItems (hl : l.IsBlank) (depth : Nat) (xs : List Json) (rest : List Char) :
    Ends ((writeItems l depth xs).toList ++ rest) := by
  cases xs with
  | nil =>
    rw [writeItems, String.toList_append, List.append_assoc]
    exact ends_blanks (hl.line depth) (ends_cons (by decide) _)
  | cons x xs =>
    simp only [writeItems, String.toList_append, List.append_assoc]
    exact ends_cons (by decide) _

theorem ends_writeMembers (hl : l.IsBlank) (depth : Nat) (ms : List (String × Json))
    (rest : List Char) : Ends ((writeMembers l depth ms).toList ++ rest) := by
  cases ms with
  | nil =>
    rw [writeMembers, String.toList_append, List.append_assoc]
    exact ends_blanks (hl.line depth) (ends_cons (by decide) _)
  | cons m ms =>
    simp only [writeMembers, String.toList_append, List.append_assoc]
    exact ends_cons (by decide) _

theorem run_writeItems (hl : l.IsBlank) {xs : List Json} (h : ∀ x ∈ xs, ReadsAs l x) (depth : Nat)
    (done : List Token) (rest : List Char) :
    run .blank done ((writeItems l depth xs).toList ++ rest) =
      run .blank ((itemLexemes xs).reverse ++ done) rest := by
  induction xs generalizing done with
  | nil =>
    rw [writeItems, String.toList_append, List.append_assoc, run_line hl, run_mark "]" rfl rfl,
      itemLexemes]
    rfl
  | cons x xs ih =>
    rw [List.forall_mem_cons] at h
    simp only [writeItems, String.toList_append, List.append_assoc]
    rw [run_mark "," rfl rfl, run_line hl, h.1 _ _ _ (ends_writeItems hl depth xs rest), ih h.2,
      itemLexemes]
    simp

theorem run_writeMembers (hl : l.IsBlank) {ms : List (String × Json)}
    (h : ∀ m ∈ ms, ReadsAs l m.2) (depth : Nat) (done : List Token) (rest : List Char) :
    run .blank done ((writeMembers l depth ms).toList ++ rest) =
      run .blank ((memberLexemes ms).reverse ++ done) rest := by
  induction ms generalizing done with
  | nil =>
    rw [writeMembers, String.toList_append, List.append_assoc, run_line hl,
      run_mark "\x7d" rfl rfl, memberLexemes]
    rfl
  | cons m ms ih =>
    rw [List.forall_mem_cons] at h
    simp only [writeMembers, String.toList_append, List.append_assoc]
    rw [run_mark "," rfl rfl, run_line hl, run_quote, run_colon hl,
      h.1 _ _ _ (ends_writeMembers hl depth ms rest), ih h.2, memberLexemes]
    simp

/-- **A written value is read as its lexemes.** -/
theorem readsAs (hl : l.IsBlank) {j : Json} (h : j.Plain) : ReadsAs l j := by
  induction h with
  | null =>
    intro depth done rest hrest
    rw [write, lexemes]
    exact run_word_of_ends ['l', 'l', 'u', 'n'] done hrest
  | bool b =>
    intro depth done rest hrest
    cases b with
    | true =>
      rw [write, lexemes]
      exact run_word_of_ends ['e', 'u', 'r', 't'] done hrest
    | false =>
      rw [write, lexemes]
      exact run_word_of_ends ['e', 's', 'l', 'a', 'f'] done hrest
  | int i =>
    intro depth done rest hrest
    rw [write, lexemes]
    exact run_int i done hrest
  | string s =>
    intro depth done rest hrest
    rw [write, lexemes]
    exact run_quote s done rest
  | @array items h ih =>
    intro depth done rest hrest
    cases items with
    | nil =>
      rw [write, lexemes]
      rfl
    | cons x xs =>
      rw [List.forall_mem_cons] at ih
      simp only [write, String.toList_append, List.append_assoc]
      rw [run_mark "[" rfl rfl, run_line hl, ih.1 _ _ _ (ends_writeItems hl depth xs rest),
        run_writeItems hl ih.2, lexemes]
      simp
  | @object members h ih =>
    intro depth done rest hrest
    cases members with
    | nil =>
      rw [write, lexemes]
      rfl
    | cons m ms =>
      rw [List.forall_mem_cons] at ih
      simp only [write, String.toList_append, List.append_assoc]
      rw [run_mark "\x7b" rfl rfl, run_line hl, run_quote, run_colon hl,
        ih.1 _ _ _ (ends_writeMembers hl depth ms rest), run_writeMembers hl ih.2, lexemes]
      simp

end Lexer

/-- The lexemes of a written value, with blanks after it. -/
theorem tokens?_write {l : Layout} (hl : l.IsBlank) {j : Json} (h : j.Plain) (depth : Nat)
    {blanks : String} (hblanks : ∀ c ∈ blanks.toList, Lexer.isBlank c = true) :
    tokens? (write l depth j ++ blanks) = some (lexemes j) := by
  have hends : Lexer.Ends blanks.toList := by
    simpa using Lexer.ends_blanks hblanks Lexer.ends_nil
  rw [tokens?, String.toList_append, Lexer.readsAs hl h depth [] _ hends]
  rw [← List.append_nil blanks.toList, Lexer.run_blanks hblanks]
  simp [Lexer.run, Lexer.finish]

end ArityCheck.Json
