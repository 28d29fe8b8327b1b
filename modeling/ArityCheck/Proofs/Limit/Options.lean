import ArityCheck.Limit.Options

/-! Limits and the options they were read from.

`get?_ofOptions` says that a limit is the number which the options give for its key, so what holds
of limits can be told from the options alone. `exceededBy_resolve` does so for the limit that
applies to a key: a count is above it if the number is one that can be enforced and is smaller. -/
namespace ArityCheck

theorem Entries.get?_insert {α : Type} (key k : String) (value : α) (entries : List (String × α)) :
    get? k (insert key value entries) = if key = k then some value else get? k entries := by
  induction entries with
  | nil => rfl
  | cons head rest ih =>
    obtain ⟨k', v'⟩ := head
    rw [insert]
    split
    next => rfl
    next =>
      split
      next heq =>
        subst heq
        by_cases h : key = k <;> simp [get?, h]
      next hne =>
        rw [get?, get?, ih]
        by_cases h : k' = k
        · rw [if_pos h, if_pos h, if_neg (h ▸ hne)]
        · rw [if_neg h, if_neg h]

@[simp] theorem SortedMap.get?_empty {α : Type} (k : String) :
    (empty : SortedMap α).get? k = none := rfl

theorem SortedMap.get?_insert {α : Type} (m : SortedMap α) (key k : String) (value : α) :
    (m.insert key value).get? k = if key = k then some value else m.get? k :=
  Entries.get?_insert key k value m.entries

theorem SortedMap.get?_of_isEmpty {α : Type} {m : SortedMap α} (h : m.isEmpty = true) (k : String) :
    m.get? k = none := by
  rw [get?, List.isEmpty_iff.mp h]
  rfl

namespace Limits

/-! ### What the options give -/

theorem ofOption_eq_ok {rule key : String} {allowed : Option (List String)} {v : Toml.Value}
    {n : Int} (h : ofOption rule allowed key v = .ok n) : v = .integer n := by
  unfold ofOption at h
  split at h
  · split at h
    next n' hn =>
      obtain rfl := Except.ok.inj h
      unfold ofValue? at hn
      split at hn
      · split at hn
        · rw [Option.some.inj hn]
        · cases hn
      · cases hn
    next => cases h
  · cases h

theorem ofOptions_cons_eq_ok {rule key : String} {allowed : Option (List String)} {v : Toml.Value}
    {options : List (String × Toml.Value)} {limits : Limits}
    (h : ofOptions rule allowed ((key, v) :: options) = .ok limits) :
    ∃ n rest, ofOption rule allowed key v = .ok n ∧ ofOptions rule allowed options = .ok rest ∧
      limits = rest.insert key n := by
  rw [ofOptions] at h
  cases hn : ofOption rule allowed key v with
  | error e => rw [hn] at h; cases h
  | ok n =>
    cases hrest : ofOptions rule allowed options with
    | error e => rw [hn, hrest] at h; cases h
    | ok rest =>
      rw [hn, hrest] at h
      exact ⟨n, rest, rfl, rfl, (Except.ok.inj h).symm⟩

/-- Every option is a number, and its key has that number as limit. -/
theorem get?_ofOptions {rule : String} {allowed : Option (List String)}
    {options : List (String × Toml.Value)} {limits : Limits}
    (h : ofOptions rule allowed options = .ok limits) (key : String) :
    Entries.get? key options = (limits.get? key).map .integer := by
  induction options generalizing limits with
  | nil =>
    obtain rfl := Except.ok.inj h
    rfl
  | cons head options ih =>
    obtain ⟨k, v⟩ := head
    obtain ⟨n, rest, hn, hrest, rfl⟩ := ofOptions_cons_eq_ok h
    rw [Entries.get?, SortedMap.get?_insert, ofOption_eq_ok hn]
    by_cases hk : k = key
    · rw [if_pos hk, if_pos hk]
      rfl
    · rw [if_neg hk, if_neg hk, ih hrest]

/-! ### What a count exceeds -/

/-- A count exceeds the limit of a number if the number can be enforced and is smaller. -/
theorem exceededBy_ofInt (n : Int) (count : Nat) :
    (Limit.ofInt n).exceededBy count =
      if 0 ≤ n ∧ n ≤ 4294967295 ∧ n < count then some n.toNat else none := by
  cases n with
  | negSucc m =>
    have : ¬0 ≤ Int.negSucc m := by omega
    simp [Limit.ofInt, Limit.exceededBy, this]
  | ofNat v =>
    rw [Limit.ofInt, Limit.ceiling, Int.ofNat_eq_natCast]
    by_cases hv : v ≤ 4294967295
    · rw [if_pos hv, Limit.exceededBy]
      by_cases hc : v < count
      · rw [if_pos hc, if_pos (by omega)]
        rfl
      · rw [if_neg hc, if_neg (by omega)]
    · rw [if_neg hv, if_neg (by omega)]
      rfl

theorem exceededBy_resolve (limits : Limits) (key : String) (count : Nat) :
    (limits.resolve key).exceededBy count =
      (limits.select? key).bind fun n =>
        if 0 ≤ n ∧ n ≤ 4294967295 ∧ n < count then some n.toNat else none := by
  rw [resolve]
  cases limits.select? key with
  | none => rfl
  | some n => exact exceededBy_ofInt n count

end Limits

end ArityCheck
