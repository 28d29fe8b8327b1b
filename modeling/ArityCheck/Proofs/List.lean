import Mathlib.Data.List.DropRight

/-! Lists of which a part is left out: elements that fail a test, or those at the ends that pass
one. -/
namespace ArityCheck

/-- Dropping what was put in between gives back what was there. -/
theorem filter_insert {α : Type} {keep : α → Bool} {before between after : List α}
    (hrest : ∀ x ∈ before ++ after, keep x = true) (hbetween : ∀ x ∈ between, keep x = false) :
    (before ++ between ++ after).filter keep = before ++ after := by
  have hnone : between.filter keep = [] :=
    List.filter_eq_nil_iff.mpr fun x hx => by simp [hbetween x hx]
  rw [List.filter_append, List.filter_append, hnone, List.append_nil, ← List.filter_append,
    List.filter_eq_self.mpr hrest]

/-- Items that are kept or not together with what they come from. -/
theorem filter_flatMap_of_forall {α β : Type} {f : β → List α} {keep : α → Bool}
    {chosen : β → Bool} {l : List β} (h : ∀ b ∈ l, ∀ x ∈ f b, keep x = chosen b) :
    (l.flatMap f).filter keep = (l.filter chosen).flatMap f := by
  induction l with
  | nil => rfl
  | cons b l ih =>
    rw [List.forall_mem_cons] at h
    rw [List.flatMap_cons, List.filter_append, ih h.2, List.filter_cons, List.filter_congr h.1]
    cases chosen b <;> simp

/-! ### Dropping at the ends -/

theorem dropWhile_of_head? {α : Type} {p : α → Bool} {l : List α}
    (h : ∀ a ∈ l.head?, p a = false) : l.dropWhile p = l := by
  cases l with
  | nil => rfl
  | cons a l => exact List.dropWhile_cons_of_neg (by simp [h a rfl])

theorem head?_dropWhile {α : Type} {p : α → Bool} {l : List α} :
    ∀ a ∈ (l.dropWhile p).head?, p a = false := by
  intro a ha
  have := List.head?_dropWhile_not p l
  rwa [ha] at this

/-- What is left after dropping at both ends: neither end of it would be dropped, and all that was
dropped would. -/
theorem rdropWhile_dropWhile_eq_iff {α : Type} {p : α → Bool} {l m : List α} :
    (l.dropWhile p).rdropWhile p = m ↔ ∃ before after, l = before ++ m ++ after ∧
      (∀ a ∈ before ++ after, p a = true) ∧ (∀ a ∈ m.head?, p a = false) ∧
      ∀ a ∈ m.getLast?, p a = false := by
  constructor
  · rintro rfl
    refine ⟨l.takeWhile p, (l.dropWhile p).rtakeWhile p, ?_, fun a ha => ?_, fun a ha => ?_,
      fun a ha => ?_⟩
    · rw [List.append_assoc, List.rdropWhile_append_rtakeWhile, List.takeWhile_append_dropWhile]
    · rcases List.mem_append.mp ha with ha | ha
      · exact List.mem_takeWhile_imp ha
      · exact List.mem_rtakeWhile_imp ha
    · obtain ⟨rest, hrest⟩ := List.rdropWhile_prefix p (l.dropWhile p)
      refine head?_dropWhile (l := l) a ?_
      rw [← hrest, List.head?_append, ha]
      rfl
    · rw [List.rdropWhile, List.getLast?_reverse] at ha
      exact head?_dropWhile a ha
  · rintro ⟨before, after, rfl, hdropped, hfirst, hlast⟩
    have hbefore : ∀ a ∈ before, p a = true := fun a ha => hdropped a (List.mem_append_left _ ha)
    have hafter : ∀ a ∈ after, p a = true := fun a ha => hdropped a (List.mem_append_right _ ha)
    rw [List.append_assoc, List.dropWhile_append_of_pos hbefore]
    cases m with
    | nil => rw [List.nil_append, List.dropWhile_eq_nil_iff.mpr hafter, List.rdropWhile_nil]
    | cons a m =>
      -- The first element stops the one pass, and the last element the other.
      have hreverse : ∀ a ∈ after.reverse, p a = true := by simpa using hafter
      have hkept : (a :: m ++ after).dropWhile p = a :: m ++ after := dropWhile_of_head? hfirst
      rw [hkept, List.rdropWhile, List.reverse_append, List.dropWhile_append_of_pos hreverse,
        dropWhile_of_head? (by rwa [List.head?_reverse]), List.reverse_reverse]

end ArityCheck
