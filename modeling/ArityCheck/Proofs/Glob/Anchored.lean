import ArityCheck.Proofs.Glob.Between

/-! Patterns that match every absolute path in which their rest occurs.

The rest of a pattern is its text without the recursive wildcards, with all else taken literally. A
pattern is anchored if that rest says nothing (there is none, or a lone wildcard is left in it), or
if the pattern matches one particular path, in which the rest stands between two names that are
longer than the pattern. `isMatch_of_isAnchored`: then it matches every absolute path in which the
rest occurs. Without classes, a pattern is anchored exactly if it is empty, has a lone wildcard, or
begins and ends with recursive wildcards, where a separator may stand before the first of them
(`isAnchored_iff`). -/
namespace ArityCheck.Glob

open Text (unpaired unpaired_pair unpaired_cons unpaired_star)

/-- A name that is longer than the pattern. -/
def longName (g : Glob) : List Char := List.replicate (g.tokens.length + 1) 'x'

/-- The path of a source file in which the rest of the pattern stands between two long names. -/
def probe (g : Glob) : List Char :=
  '/' :: (g.longName ++ g.rest ++ (g.longName ++ ['.', 'j', 's']))

def isAnchored (g : Glob) : Bool :=
  g.rest.isEmpty || g.rest.contains '*' || accepts g.tokens g.probe

variable {text : String} {g : Glob}

theorem slash_not_mem_longName (g : Glob) : '/' ∉ g.longName := by
  simp [longName]

theorem slash_not_mem_back (g : Glob) : '/' ∉ g.longName ++ ['.', 'j', 's'] := by
  simp [longName]

theorem spells_rest (h : parse text = .ok g) : Spells true g.tokens g.text.toList := by
  obtain ⟨htext, hspells⟩ := spells_of_parse h
  rwa [htext]

/-- A pattern without lone wildcards that matches its own path is rigid. -/
theorem rigid_of_accepts_probe (h : parse text = .ok g) (hsequence : .sequence ∉ g.tokens)
    (hprobe : accepts g.tokens g.probe = true) : Rigid g.tokens := by
  have hlength : g.tokens.length < (g.longName ++ ['.', 'j', 's']).length := by
    simp only [longName, List.length_append, List.length_replicate, List.length_cons]
    omega
  rw [probe, ← List.cons_append] at hprobe
  exact (spells_rest h).rigid hsequence g.slash_not_mem_back hlength hprobe

/-- **An anchored pattern matches every absolute path in which its rest occurs.** -/
theorem isMatch_of_isAnchored (h : parse text = .ok g) (hanchored : g.isAnchored = true)
    (hne : g.rest ≠ []) (hstar : '*' ∉ g.rest) {path : String}
    (habsolute : path.toList.head? = some '/') (hrest : g.rest <:+: path.toList) :
    g.isMatch path = true := by
  have hprobe : accepts g.tokens g.probe = true := by
    simpa [isAnchored, hne, hstar] using hanchored
  have hsequence : .sequence ∉ g.tokens := mt (spells_rest h).star_mem_unpaired hstar
  have hlength : g.tokens.length ≤ g.longName.length := by simp [longName]
  refine (rigid_of_accepts_probe h hsequence hprobe).accepts_of_accepts_between
    g.slash_not_mem_longName g.slash_not_mem_back hlength ?_ hprobe habsolute hrest
  rw [List.length_append]
  omega

/-! ### Patterns without classes -/

theorem getLast?_of_cons {t : Token} {ts : List Token} (ht : t ≠ .recursive)
    (h : (t :: ts).getLast? = some .recursive) : ts.getLast? = some .recursive := by
  cases ts with
  | nil => simp [ht] at h
  | cons u ts => simpa using h

/-- A pattern without classes that ends with a recursive wildcard matches its own rest, whatever
follows. -/
theorem Spells.accepts_unpaired {free : Bool} {ts : List Token} {l : List Char}
    (h : Spells free ts l) (hclass : Classless ts) (hlast : ts.getLast? = some .recursive)
    (after : List Char) : accepts ts (unpaired l ++ after) = true := by
  induction h with
  | nil => simp at hlast
  | last => exact accepts_last _
  | @recursive ts l h ih =>
    by_cases hne : ts = []
    · rw [hne]
      exact accepts_last _
    · obtain ⟨u, us, rfl⟩ := List.exists_cons_of_ne_nil hne
      have hrest := ih hclass.rest (by simpa using hlast)
      refine accepts_recursive_iff.mpr (.inr ⟨_, ?_, hrest⟩)
      rw [unpaired_pair, unpaired_cons (by decide)]
      exact mem_afterSeparators_of_append []
  | sequence hstar h ih =>
    have hrest := ih hclass.rest (getLast?_of_cons (by simp) hlast)
    rw [unpaired_star hstar, List.cons_append, accepts, List.any_eq_true]
    exact ⟨_, List.mem_cons_of_mem _ (self_mem_tails _), hrest⟩
  | any h ih =>
    have hrest := ih hclass.rest (getLast?_of_cons (by simp) hlast)
    rw [unpaired_cons (by decide), List.cons_append, accepts_cons rfl, hrest]
    rfl
  | oneOf h ih => exact absurd List.mem_cons_self (hclass _ _)
  | char hc h ih =>
    have hrest := ih hclass.rest (getLast?_of_cons (by simp) hlast)
    rw [unpaired_cons hc, List.cons_append, accepts_cons rfl, Token.takes, hrest]
    simp

/-- A pattern begins with a recursive wildcard, perhaps after a separator. -/
def BeginsRecursive (ts : List Token) : Prop :=
  ts.head? = some .recursive ∨ ∃ us, ts = .char '/' :: .recursive :: us

/-- A pattern that matches its own path has nothing to match in the name at the front. -/
theorem Rigid.beginsRecursive {ts : List Token} (h : Rigid ts) {front l : List Char}
    (hfront : '/' ∉ front) (hlength : ts.length ≤ front.length)
    (haccepts : accepts ts ('/' :: (front ++ l)) = true) : BeginsRecursive ts := by
  cases ts with
  | nil => exact absurd h.getLast? (by simp)
  | cons t ts =>
    rcases h.recursive_or_isSingle with rfl | ht
    · exact .inl rfl
    · rw [accepts_cons ht, Bool.and_eq_true] at haccepts
      rw [List.length_cons] at hlength
      have hnext : ts.head? = some .recursive := by
        by_contra hnext
        have hnone := (h.rest (h.rest_ne_nil ht)).not_accepts_within hnext hfront (by omega) l
        rw [haccepts.2] at hnone
        cases hnone
      obtain ⟨us, rfl⟩ := List.head?_eq_some_iff.mp hnext
      rw [h.eq_slash_of_head? ht hnext]
      exact .inr ⟨us, rfl⟩

/-- A pattern without classes that begins and ends with recursive wildcards matches its own path. -/
theorem Spells.accepts_between {ts : List Token} {l : List Char} (h : Spells true ts l)
    (hclass : Classless ts) (hbegins : BeginsRecursive ts) (hlast : ts.getLast? = some .recursive)
    (front back : List Char) : accepts ts ('/' :: (front ++ unpaired l ++ back)) = true := by
  rcases hbegins with hhead | ⟨us, rfl⟩
  · obtain ⟨us, rfl⟩ := List.head?_eq_some_iff.mp hhead
    cases h with
    | last => exact accepts_last _
    | @recursive _ l h =>
      by_cases hne : us = []
      · rw [hne]
        exact accepts_last _
      · obtain ⟨v, vs, rfl⟩ := List.exists_cons_of_ne_nil hne
        have hrest := h.accepts_unpaired hclass.rest (by simpa using hlast) back
        refine accepts_recursive_iff.mpr (.inr ⟨_, ?_, hrest⟩)
        rw [unpaired_pair, unpaired_cons (by decide)]
        simpa using mem_afterSeparators_of_append (r := unpaired l ++ back) ('/' :: front)
  · cases h with
    | @char _ _ _ l hc h =>
      have hrest := h.accepts_unpaired hclass.rest (by simpa using hlast) back
      rw [accepts_cons rfl, Bool.and_eq_true]
      refine ⟨rfl, accepts_recursive_of_mem ?_ hrest⟩
      rw [unpaired_cons hc]
      simpa using mem_afterSeparators_of_append (r := unpaired l ++ back) front

/-- **Without classes, a pattern is anchored exactly if** it is empty, or a lone wildcard stands in
it, or it begins and ends with recursive wildcards. -/
theorem isAnchored_iff (h : parse text = .ok g) (hclass : Classless g.tokens) :
    g.isAnchored = true ↔ g.tokens = [] ∨ .sequence ∈ g.tokens ∨
      BeginsRecursive g.tokens ∧ g.tokens.getLast? = some .recursive := by
  have hspells := spells_rest h
  rw [isAnchored, Bool.or_eq_true, Bool.or_eq_true, List.isEmpty_iff, List.contains_iff_mem]
  constructor
  · rintro ((hnil | hstar) | hprobe)
    · rcases hspells.of_unpaired_eq_nil hnil with htokens | htokens
      · exact .inl htokens
      · rw [htokens]
        exact .inr (.inr ⟨.inl rfl, rfl⟩)
    · exact .inr (.inl (hspells.sequence_mem hclass hstar))
    · by_cases hsequence : .sequence ∈ g.tokens
      · exact .inr (.inl hsequence)
      · have hrigid := rigid_of_accepts_probe h hsequence hprobe
        rw [probe, List.append_assoc] at hprobe
        exact .inr (.inr ⟨hrigid.beginsRecursive g.slash_not_mem_longName (by simp [longName]) hprobe,
          hrigid.getLast?⟩)
  · rintro (htokens | hsequence | ⟨hbegins, hlast⟩)
    · rw [htokens] at hspells
      refine .inl (.inl ?_)
      rw [rest, hspells.eq_nil]
      rfl
    · exact .inl (.inr (hspells.star_mem_unpaired hsequence))
    · exact .inr (hspells.accepts_between hclass hbegins hlast _ _)

end ArityCheck.Glob
