/-! Finite maps from texts, kept in the order of their keys.

Texts are ordered by their characters, which for UTF-8 is the order of their bytes. Insertion is
a single pass that replaces the value of a key that is already there, so what a key maps to can
be told without knowing that the entries are sorted. -/

namespace ArityCheck

namespace Entries

variable {α : Type}

def insert (key : String) (value : α) : List (String × α) → List (String × α)
  | [] => [(key, value)]
  | (k, v) :: rest =>
    if key < k then (key, value) :: (k, v) :: rest
    else if key = k then (key, value) :: rest
    else (k, v) :: insert key value rest

def get? (key : String) : List (String × α) → Option α
  | [] => none
  | (k, v) :: rest => if k = key then some v else get? key rest

/-- The keys strictly ascend. -/
def Sorted (entries : List (String × α)) : Prop := entries.Pairwise fun a b => a.1 < b.1

theorem lt_of_not_lt {a b : String} (h : ¬a < b) (hne : a ≠ b) : b < a :=
  Std.not_le.mp fun hle => hne (String.le_antisymm hle (Std.not_lt.mp h))

theorem mem_insert {key : String} {value : α} {e : String × α} {entries : List (String × α)} :
    e ∈ insert key value entries → e = (key, value) ∨ e ∈ entries := by
  induction entries with
  | nil => simp [insert]
  | cons head rest ih =>
    obtain ⟨k, v⟩ := head
    rw [insert]
    split
    · simp
    · split
      · intro h
        rcases List.mem_cons.mp h with h | h
        · exact .inl h
        · exact .inr (List.mem_cons_of_mem _ h)
      · intro h
        rcases List.mem_cons.mp h with h | h
        · exact .inr (h ▸ List.mem_cons_self)
        · exact (ih h).imp_right (List.mem_cons_of_mem _)

theorem Sorted.insert {entries : List (String × α)} (h : Sorted entries) (key : String)
    (value : α) : Sorted (insert key value entries) := by
  induction entries with
  | nil => exact List.pairwise_singleton _ _
  | cons head rest ih =>
    obtain ⟨k, v⟩ := head
    obtain ⟨hhead, hrest⟩ := List.pairwise_cons.mp h
    rw [Entries.insert]
    split
    next hlt =>
      refine List.pairwise_cons.mpr ⟨fun e he => ?_, h⟩
      rcases List.mem_cons.mp he with rfl | he
      · exact hlt
      · exact String.lt_trans hlt (hhead e he)
    next hlt =>
      split
      next heq =>
        subst heq
        exact List.pairwise_cons.mpr ⟨hhead, hrest⟩
      next hne =>
        refine List.pairwise_cons.mpr ⟨fun e he => ?_, ih hrest⟩
        rcases mem_insert he with rfl | he
        · exact lt_of_not_lt hlt hne
        · exact hhead e he

end Entries

structure SortedMap (α : Type) where
  entries : List (String × α)
  sorted : Entries.Sorted entries

namespace SortedMap

variable {α : Type}

def empty : SortedMap α := ⟨[], List.Pairwise.nil⟩

instance : Inhabited (SortedMap α) := ⟨empty⟩

/-- The map with `key` mapped to `value`, whatever it was mapped to before. -/
def insert (m : SortedMap α) (key : String) (value : α) : SortedMap α :=
  ⟨Entries.insert key value m.entries, m.sorted.insert key value⟩

def get? (m : SortedMap α) (key : String) : Option α := Entries.get? key m.entries

def contains (m : SortedMap α) (key : String) : Bool := (m.get? key).isSome

def isEmpty (m : SortedMap α) : Bool := m.entries.isEmpty

end SortedMap

end ArityCheck
