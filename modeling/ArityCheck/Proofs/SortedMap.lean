import ArityCheck.Proofs.Limit.Options
import ArityCheck.Proofs.Source.Position
import Mathlib.Data.List.Nodup

/-! What a sorted map lists.

The entries of a map are told by what its keys map to: `mem_entries_iff` says which there are, and
since they are sorted there is only one list of them (`ext_get?`). They are sorted by the characters
of their keys. `bytes_lt_bytes` says that this is also the order of the bytes: of two different
characters, the codes differ before either of them ends, and the smaller code is that of the smaller
character. -/
namespace ArityCheck

namespace Text

/-! ### The order of bytes -/

theorem ofNat_cons_lt_iff {m n : Nat} (hm : m < 256) (hn : n < 256) {u v : List UInt8} :
    UInt8.ofNat m :: u < UInt8.ofNat n :: v ↔ m < n ∨ m = n ∧ u < v := by
  rw [List.cons_lt_cons_iff, UInt8.lt_iff_toNat_lt, ← UInt8.toNat_inj, UInt8.toNat_ofNat',
    UInt8.toNat_ofNat', Nat.mod_eq_of_lt hm, Nat.mod_eq_of_lt hn]

/-- The code of a smaller character is smaller, whatever comes after the two. -/
theorem utf8EncodeChar_append_lt {c d : Char} (h : c < d) (u v : List UInt8) :
    String.utf8EncodeChar c ++ u < String.utf8EncodeChar d ++ v := by
  have hlt : c.val.toNat < d.val.toNat := h
  have hbound : d.val.toNat < 1114112 := by
    rcases d.valid with hd | hd
    · exact Nat.lt_trans hd (by decide)
    · exact hd.2
  -- Every byte but the first holds six bits, so the codes are compared digit by digit.
  have hsecond : ∀ n : Nat, n / 4096 = n / 64 / 64 :=
    fun n => (Nat.div_div_eq_div_mul n 64 64).symm
  have hthird : ∀ n : Nat, n / 262144 = n / 64 / 64 / 64 := fun n => by
    rw [Nat.div_div_eq_div_mul, Nat.div_div_eq_div_mul]
  unfold String.utf8EncodeChar
  dsimp only
  rw [hsecond, hthird, hsecond, hthird]
  split_ifs <;>
    simp (disch := omega) only [List.cons_append, List.nil_append, ofNat_cons_lt_iff] <;> omega

theorem flatMap_utf8EncodeChar_lt {cs ds : List Char} (h : cs < ds) :
    cs.flatMap String.utf8EncodeChar < ds.flatMap String.utf8EncodeChar := by
  induction h with
  | @nil d ds =>
    rw [List.flatMap_nil, List.flatMap_cons]
    cases hcode : String.utf8EncodeChar d with
    | nil => exact absurd hcode String.utf8EncodeChar_ne_nil
    | cons b bs => exact List.nil_lt_cons ..
  | rel hlt => exact utf8EncodeChar_append_lt hlt _ _
  | cons _ ih => exact List.append_left_lt ih

/-- **Texts are ordered as their bytes are.** -/
theorem bytes_lt_bytes {s t : String} (h : s < t) : bytes s < bytes t := by
  rw [bytes_eq_flatMap, bytes_eq_flatMap]
  exact flatMap_utf8EncodeChar_lt h

theorem bytes_lt_bytes_iff {s t : String} : bytes s < bytes t ↔ s < t := by
  refine ⟨fun h => ?_, bytes_lt_bytes⟩
  by_contra hnot
  by_cases heq : s = t
  · exact List.lt_irrefl _ (heq ▸ h)
  · exact List.lt_asymm h (bytes_lt_bytes (Entries.lt_of_not_lt hnot heq))

end Text

/-! ### Entries -/

instance {α : Type} (entries : List (String × α)) : Decidable (Entries.Sorted entries) :=
  inferInstanceAs (Decidable (List.Pairwise _ entries))

theorem Entries.Sorted.mem_iff {α : Type} {entries : List (String × α)} (h : Sorted entries)
    (k : String) (v : α) : (k, v) ∈ entries ↔ get? k entries = some v := by
  induction entries with
  | nil => simp [get?]
  | cons head rest ih =>
    obtain ⟨k', v'⟩ := head
    obtain ⟨hhead, hrest⟩ := List.pairwise_cons.mp h
    rw [get?, List.mem_cons, Prod.mk.injEq]
    by_cases hk : k' = k
    · have hnot : (k, v) ∉ rest := fun hmem => String.lt_irrefl k (hk ▸ hhead _ hmem)
      simp [hk, hnot, eq_comm]
    · rw [if_neg hk, ← ih hrest]
      simp [Ne.symm hk]

namespace SortedMap

variable {α : Type}

theorem mem_entries_iff (m : SortedMap α) (k : String) (v : α) :
    (k, v) ∈ m.entries ↔ m.get? k = some v := m.sorted.mem_iff k v

/-- The keys ascend strictly in the order of their bytes. -/
theorem entries_pairwise_bytes (m : SortedMap α) :
    m.entries.Pairwise fun a b => Text.bytes a.1 < Text.bytes b.1 :=
  m.sorted.imp Text.bytes_lt_bytes

theorem nodup_keys (m : SortedMap α) : (m.entries.map (·.1)).Nodup := by
  rw [List.nodup_iff_pairwise_ne, List.pairwise_map]
  refine m.sorted.imp fun {a b} hlt heq => ?_
  exact String.lt_irrefl b.1 (heq ▸ hlt)

/-- **A map is determined by what its keys map to.** -/
theorem ext_get? {m m' : SortedMap α} (h : ∀ k, m.get? k = m'.get? k) : m = m' := by
  have hmem : ∀ e, e ∈ m.entries ↔ e ∈ m'.entries := fun ⟨k, v⟩ => by
    rw [mem_entries_iff, mem_entries_iff, h]
  have hperm : m.entries.Perm m'.entries :=
    (List.perm_ext_iff_of_nodup (.of_map _ m.nodup_keys) (.of_map _ m'.nodup_keys)).mpr hmem
  have hentries : m.entries = m'.entries :=
    hperm.eq_of_pairwise (fun a b _ _ hab hba => absurd (String.lt_trans hab hba)
      (String.lt_irrefl a.1)) m.sorted m'.sorted
  obtain ⟨entries, _⟩ := m
  obtain ⟨entries', _⟩ := m'
  obtain rfl : entries = entries' := hentries
  rfl

end SortedMap

end ArityCheck
