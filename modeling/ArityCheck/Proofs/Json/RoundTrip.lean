import ArityCheck.Json.Reader
import ArityCheck.Proofs.Json.Lexemes
import Mathlib.Data.List.TakeDrop
import Mathlib.Data.List.TakeWhile

/-! Values are read back from their text.

The reader keeps the containers that are open in a list. `completes` says that the lexemes of a
value take it from where a value may come to where one is complete, whatever is open there and
whatever comes next; the lexemes of the rest of a container close it. With the lexemes of a text
known, that is the round trip, `parse?_write`. -/
namespace ArityCheck.Json

/-! ### Integers -/

theorem head_toDigits_ne_zero {n : Nat} (h : 0 < n) (d : Char) (ds : List Char)
    (hdigits : Nat.toDigits 10 n = d :: ds) : d ≠ '0' := by
  induction n using Nat.strongRecOn generalizing d ds with
  | ind n ih =>
    rw [Nat.toDigits_eq_if (by decide)] at hdigits
    split at hdigits
    next hlt =>
      obtain ⟨rfl, -⟩ := List.cons.inj hdigits
      have hall : ∀ m < 10, 0 < m → Nat.digitChar m ≠ '0' := by decide
      exact hall n hlt h
    next hge =>
      cases hrest : Nat.toDigits 10 (n / 10) with
      | nil => exact absurd hrest Nat.toDigits_ne_nil
      | cons e es =>
        rw [hrest] at hdigits
        obtain ⟨rfl, -⟩ := List.cons.inj hdigits
        exact ih (n / 10) (by omega) (by omega) e es hrest

theorem isWhole_toDigits (n : Nat) : isWhole (Nat.toDigits 10 n) = true := by
  by_cases hn : n = 0
  · subst hn
    rfl
  · cases hdigits : Nat.toDigits 10 n with
    | nil => exact absurd hdigits Nat.toDigits_ne_nil
    | cons d ds =>
      have hd : d ≠ '0' := head_toDigits_ne_zero (Nat.pos_of_ne_zero hn) d ds hdigits
      unfold isWhole
      split
      · next heq => cases heq
      · rfl
      · next heq =>
        obtain ⟨rfl, -⟩ := List.cons.inj heq
        simpa using hd

theorem digitsValue_toDigits (n : Nat) : digitsValue (Nat.toDigits 10 n) = n := by
  have h : Nat.ofDigitChars 10 (Nat.toDigits 10 n) 0 = n := Nat.ofDigitChars_ten_toDigits
  rw [Nat.ofDigitChars_eq_foldl] at h
  simpa only [digitsValue, Nat.mul_comm] using h

theorem splitDigits_toDigits (n : Nat) :
    splitDigits (Nat.toDigits 10 n) = (Nat.toDigits 10 n, []) := by
  have hall : ∀ c ∈ Nat.toDigits 10 n, c.isDigit = true :=
    fun c hc => Nat.isDigit_of_mem_toDigits (by decide) (by decide) hc
  rw [splitDigits, List.span_eq_takeWhile_dropWhile, List.takeWhile_eq_self_iff.mpr hall,
    List.dropWhile_eq_nil_iff.mpr hall]

/-- **An integer is read back from its digits.** -/
theorem number?_toString (i : Int) : number? (toString i) = some (.int i) := by
  cases i with
  | ofNat n =>
    have htext : (toString (Int.ofNat n)).toList = Nat.toDigits 10 n := toList_toString n
    have hminus : ∀ cs, Nat.toDigits 10 n ≠ '-' :: cs := by
      intro cs hcs
      have hdigit : '-'.isDigit = true := Nat.isDigit_of_mem_toDigits (b := 10) (n := n)
        (by decide) (by decide) (hcs ▸ List.mem_cons_self)
      exact absurd hdigit (by decide)
    unfold number?
    rw [htext]
    split
    next negative cs hsign =>
      split at hsign
      next cs' hcs => exact absurd hcs (hminus cs')
      next =>
        obtain ⟨rfl, rfl⟩ := Prod.mk.inj hsign
        simp [splitDigits_toDigits, isWhole_toDigits, isFraction, digitsValue_toDigits]
  | negSucc n =>
    have htext : (toString (Int.negSucc n)).toList = '-' :: Nat.toDigits 10 (n + 1) := by
      rw [toList_toString_negSucc, toList_toString]
    have hzero : Nat.toDigits 10 (n + 1) ≠ ['0'] :=
      fun h => head_toDigits_ne_zero (Nat.succ_pos n) _ _ h rfl
    unfold number?
    rw [htext]
    simp [splitDigits_toDigits, isWhole_toDigits, isFraction, digitsValue_toDigits, hzero]
    omega

/-! ### Values -/

/-- The lexemes of a value complete it, whatever is open and whatever comes next. -/
def Completes (j : Json) : Prop :=
  ∀ frames rest, run frames .value (lexemes j ++ rest) = run frames (.complete j) rest

/-- An array that was just opened does not end where a value begins. -/
theorem run_first {x : Json} (h : x.Plain) (frames : List Frame) (rest : List Token) :
    run frames .first (lexemes x ++ rest) = run frames .value (lexemes x ++ rest) := by
  have hstep : ∀ t, t ≠ .closeArray → step frames .first t = step frames .value t := by
    intro t ht
    cases t with
    | closeArray => exact absurd rfl ht
    | _ => rfl
  have hhead : ∃ t ts, lexemes x = t :: ts ∧ t ≠ .closeArray := by
    cases h with
    | bool b => cases b <;> simp [lexemes]
    | @array items _ => cases items <;> simp [lexemes]
    | @object members _ => cases members <;> simp [lexemes]
    | _ => simp [lexemes]
  obtain ⟨t, ts, hx, ht⟩ := hhead
  rw [hx, List.cons_append, run, run, hstep t ht]

theorem run_itemLexemes {xs : List Json} (h : ∀ x ∈ xs, Completes x) (x : Json)
    (items : List Json) (frames : List Frame) (rest : List Token) :
    run (.array items :: frames) (.complete x) (itemLexemes xs ++ rest) =
      run frames (.complete (.array ((x :: items).reverse ++ xs))) rest := by
  induction xs generalizing x items with
  | nil =>
    rw [itemLexemes, List.append_nil]
    rfl
  | cons y ys ih =>
    rw [List.forall_mem_cons] at h
    rw [itemLexemes, List.cons_append, List.append_assoc]
    show run (.array (x :: items) :: frames) .value _ = _
    rw [h.1, ih h.2]
    simp

theorem run_memberLexemes {ms : List (String × Json)} (h : ∀ m ∈ ms, Completes m.2) (k : String)
    (v : Json) (members : List (String × Json)) (frames : List Frame) (rest : List Token) :
    run (.object members k :: frames) (.complete v) (memberLexemes ms ++ rest) =
      run frames (.complete (.object (((k, v) :: members).reverse ++ ms))) rest := by
  induction ms generalizing k v members with
  | nil =>
    rw [memberLexemes, List.append_nil]
    rfl
  | cons m ms ih =>
    rw [List.forall_mem_cons] at h
    rw [memberLexemes, List.cons_append, List.cons_append, List.cons_append, List.append_assoc]
    show run (.object ((k, v) :: members) m.1 :: frames) .value _ = _
    rw [h.1, ih h.2]
    simp

/-- **The lexemes of a value complete it.** -/
theorem completes {j : Json} (h : j.Plain) : Completes j := by
  induction h with
  | null =>
    intro frames rest
    rw [lexemes]
    rfl
  | bool b =>
    intro frames rest
    cases b <;> rw [lexemes] <;> rfl
  | int i =>
    intro frames rest
    rw [lexemes, List.singleton_append, run]
    simp only [step, readValue, scalar?, number?_toString, Option.map_some]
  | string s =>
    intro frames rest
    rw [lexemes]
    rfl
  | @array items h ih =>
    intro frames rest
    cases items with
    | nil =>
      rw [lexemes]
      rfl
    | cons x xs =>
      rw [List.forall_mem_cons] at h ih
      rw [lexemes, List.cons_append, List.append_assoc]
      show run (.array [] :: frames) .first _ = _
      rw [run_first h.1, ih.1, run_itemLexemes ih.2]
      rfl
  | @object members h ih =>
    intro frames rest
    cases members with
    | nil =>
      rw [lexemes]
      rfl
    | cons m ms =>
      rw [List.forall_mem_cons] at ih
      rw [lexemes, List.cons_append, List.cons_append, List.cons_append, List.append_assoc]
      show run (.object [] m.1 :: frames) .value _ = _
      rw [ih.1, run_memberLexemes ih.2]
      rfl

/-- **A value is read back from its text**, in any layout and with blanks after it. -/
theorem parse?_write {l : Layout} (hl : l.IsBlank) {j : Json} (h : j.Plain) (depth : Nat)
    {blanks : String} (hblanks : ∀ c ∈ blanks.toList, Lexer.isBlank c = true) :
    parse? (write l depth j ++ blanks) = some j := by
  rw [parse?, tokens?_write hl h depth hblanks, Option.bind_some, ← List.append_nil (lexemes j),
    completes h]
  rfl

end ArityCheck.Json
