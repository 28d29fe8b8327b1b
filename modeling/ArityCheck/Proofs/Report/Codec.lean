import ArityCheck.Cli.Run
import ArityCheck.Proofs.Json.RoundTrip

/-! Reports are read back from what is written of them.

Writing and reading a type are tied together by `Lossless`: a value whose counts fit their fields
is read back from what is written of it, and no other value is ever read. Texts and counts are
lossless, and so is each record, since its fields are, whether a field without a value is null or
left out. `Lossless.roundTrips` goes on from values to texts. -/
namespace ArityCheck

/-! ### Lossless forms -/

namespace Json

variable {α : Type} {write : α → Json} {read? : Json → Option α} {InRange : α → Prop}

/-- What is written of a value in range is read back, and only values in range are read. -/
structure Lossless (write : α → Json) (read? : Json → Option α) (InRange : α → Prop) : Prop where
  plain (a : α) : (write a).Plain
  read?_write {a : α} (h : InRange a) : read? (write a) = some a
  inRange_of_read? {j : Json} {a : α} (h : read? j = some a) : InRange a

/-- The value that a text stands for. -/
def decode? (read? : Json → Option α) (text : String) : Option α := (parse? text).bind read?

/-- A value in range is read back from its text, on one line or on several. So is every value that
was read from some text, in whatever way that was written. -/
structure RoundTrips (write : α → Json) (read? : Json → Option α) (InRange : α → Prop) : Prop where
  compact {a : α} (h : InRange a) : decode? read? (write a).compact = some a
  pretty {a : α} (h : InRange a) : decode? read? (write a).pretty = some a
  reread {text : String} {a : α} (h : decode? read? text = some a) :
    decode? read? (write a).compact = some a ∧ decode? read? (write a).pretty = some a

namespace Lossless

theorem decode?_write (c : Lossless write read? InRange) {l : Layout} (hl : l.IsBlank) {a : α}
    (h : InRange a) {blanks : String} (hblanks : ∀ c ∈ blanks.toList, Lexer.isBlank c = true) :
    decode? read? (Json.write l 0 (write a) ++ blanks) = some a := by
  rw [decode?, parse?_write hl (c.plain a) 0 hblanks, Option.bind_some, c.read?_write h]

theorem decode?_layout (c : Lossless write read? InRange) {l : Layout} (hl : l.IsBlank) {a : α}
    (h : InRange a) : decode? read? (Json.write l 0 (write a)) = some a := by
  have hread : decode? read? (Json.write l 0 (write a) ++ "") = some a :=
    c.decode?_write hl h (List.forall_mem_nil _)
  rwa [String.append_empty] at hread

/-- **What is lossless as a value is so as a text.** -/
theorem roundTrips (c : Lossless write read? InRange) : RoundTrips write read? InRange where
  compact h := c.decode?_layout Layout.isBlank_compact h
  pretty h := c.decode?_layout Layout.isBlank_indented h
  reread {text a} h := by
    obtain ⟨j, _, hj⟩ := Option.bind_eq_some_iff.mp h
    have ha : InRange a := c.inRange_of_read? hj
    exact ⟨c.decode?_layout Layout.isBlank_compact ha, c.decode?_layout Layout.isBlank_indented ha⟩

/-! ### Values that may be missing, and lists -/

/-- A member that is left out for `none` is read as `none`. -/
theorem optional?_map (c : Lossless write read? InRange) (hnull : read? .null = none)
    {o : Option α} (h : ∀ a ∈ o, InRange a) : optional? read? (o.map write) = some o := by
  cases o with
  | none => rfl
  | some a =>
    have hread : read? (write a) = some a := c.read?_write (h a rfl)
    rw [Option.map_some]
    unfold optional?
    split
    next heq => cases heq
    next heq =>
      -- What is read back was not written as null.
      rw [Option.some.inj heq, hnull] at hread
      cases hread
    next j _ heq =>
      rw [← Option.some.inj heq, hread]
      rfl

/-- A member that is null for `none` is read as `none`. -/
theorem optional?_getD_null (c : Lossless write read? InRange) (hnull : read? .null = none)
    {o : Option α} (h : ∀ a ∈ o, InRange a) :
    optional? read? (some ((o.map write).getD .null)) = some o := by
  cases o with
  | none => rfl
  | some a => exact c.optional?_map hnull h

theorem inRange_of_optional? (c : Lossless write read? InRange) {j : Option Json} {o : Option α}
    (h : optional? read? j = some o) : ∀ a ∈ o, InRange a := by
  unfold optional? at h
  split at h
  · obtain rfl := Option.some.inj h
    intro a ha
    cases ha
  · obtain rfl := Option.some.inj h
    intro a ha
    cases ha
  · obtain ⟨a, ha, rfl⟩ := Option.map_eq_some_iff.mp h
    intro a' ha'
    obtain rfl := Option.some.inj ha'
    exact c.inRange_of_read? ha

theorem mapM_map (c : Lossless write read? InRange) {as : List α} (h : ∀ a ∈ as, InRange a) :
    (as.map write).mapM read? = some as := by
  induction as with
  | nil => rfl
  | cons a as ih =>
    rw [List.forall_mem_cons] at h
    simp [c.read?_write h.1, ih h.2]

theorem inRange_of_mapM (c : Lossless write read? InRange) {js : List Json} {as : List α}
    (h : js.mapM read? = some as) : ∀ a ∈ as, InRange a := by
  induction js generalizing as with
  | nil =>
    obtain rfl : [] = as := by simpa using h
    exact List.forall_mem_nil _
  | cons j js ih =>
    simp only [List.mapM_cons, Option.bind_eq_bind, Option.bind_eq_some_iff, Option.pure_def,
      Option.some.injEq] at h
    obtain ⟨a, ha, as, has, rfl⟩ := h
    exact List.forall_mem_cons.mpr ⟨c.inRange_of_read? ha, ih has⟩

end Lossless

/-! ### Texts and counts -/

theorem lossless_text : Lossless .string text? fun _ => True where
  plain := .string
  read?_write _ := rfl
  inRange_of_read? _ := trivial

theorem lossless_natUpTo (max : Nat) :
    Lossless (fun n : Nat => .int n) (natUpTo? max) (· ≤ max) where
  plain n := .int n
  read?_write h := if_pos h
  inRange_of_read? {j n} h := by
    unfold natUpTo? at h
    split at h
    next m =>
      split at h
      next hm => exact Option.some.inj h ▸ hm
      next => cases h
    next => cases h

/-! ### Members -/

@[simp] theorem countKey_nil (key : String) : countKey key [] = 0 := rfl

@[simp] theorem countKey_cons (key k : String) (j : Json) (ms : List (String × Json)) :
    countKey key ((k, j) :: ms) = countKey key ms + if k = key then 1 else 0 := by
  simp [countKey, List.countP_cons]

@[simp] theorem countKey_append (key : String) (ms ns : List (String × Json)) :
    countKey key (ms ++ ns) = countKey key ms + countKey key ns := List.countP_append

@[simp] theorem lookup?_nil (key : String) : lookup? key [] = none := rfl

@[simp] theorem lookup?_cons (key k : String) (j : Json) (ms : List (String × Json)) :
    lookup? key ((k, j) :: ms) = if k = key then some j else lookup? key ms := by
  by_cases h : k = key <;> simp [lookup?, h]

@[simp] theorem lookup?_append (key : String) (ms ns : List (String × Json)) :
    lookup? key (ms ++ ns) = (lookup? key ms).or (lookup? key ns) := by
  simp [lookup?, List.find?_append, Option.map_or]

end Json

open Json

/-! ### Severities, places, suggestions and counts -/

theorem Severity.lossless : Lossless Severity.toJson Severity.ofJson? fun _ => True where
  plain s := .string s.name
  read?_write {s} _ := by cases s <;> rfl
  inRange_of_read? _ := trivial

/-- The place can be written. -/
structure Location.InRange (l : Location) : Prop where
  line : l.line ≤ maxCount
  column : l.column ≤ maxCount
  offset : l.offset ≤ maxCount
  length : l.length ≤ maxCount

theorem Location.lossless : Lossless Location.toJson Location.ofJson? Location.InRange where
  plain l := .object (by simp [Plain.string, Plain.int])
  read?_write {l} h := by
    have hcount {n : Nat} (hn : n ≤ maxCount) : natUpTo? maxCount (.int n) = some n :=
      (lossless_natUpTo maxCount).read?_write hn
    simp [ofJson?, toJson, fields?, text?, hcount, h.line, h.column, h.offset, h.length]
  inRange_of_read? {j l} h := by
    unfold ofJson? at h
    split at h
    next file line column offset length _ =>
      simp only [Option.bind_eq_bind, Option.bind_eq_some_iff, Option.pure_def,
        Option.some.injEq] at h
      obtain ⟨_, _, _, hline, _, hcolumn, _, hoffset, _, hlength, rfl⟩ := h
      exact ⟨(lossless_natUpTo _).inRange_of_read? hline,
        (lossless_natUpTo _).inRange_of_read? hcolumn,
        (lossless_natUpTo _).inRange_of_read? hoffset,
        (lossless_natUpTo _).inRange_of_read? hlength⟩
    next => cases h

theorem Suggestion.lossless : Lossless Suggestion.toJson Suggestion.ofJson? fun _ => True where
  plain s := .object (by simp [Plain.string])
  read?_write _ := by simp [ofJson?, toJson, fields?, text?]
  inRange_of_read? _ := trivial

/-- The count and its limit can be written. -/
structure Excess.InRange (e : Excess) : Prop where
  count : e.count ≤ maxCount
  max : e.max ≤ 4294967295

theorem Excess.lossless : Lossless Excess.toJson Excess.ofJson? Excess.InRange where
  plain e := .object (by simp [Plain.string, Plain.int])
  read?_write {e} h := by
    have hcount : natUpTo? maxCount (.int e.count) = some e.count :=
      (lossless_natUpTo _).read?_write h.count
    have hmax : natUpTo? 4294967295 (.int e.max) = some e.max :=
      (lossless_natUpTo _).read?_write h.max
    simp [ofJson?, toJson, fields?, text?, hcount, hmax]
  inRange_of_read? {j e} h := by
    unfold ofJson? at h
    split at h
    next name count max _ =>
      simp only [Option.bind_eq_bind, Option.bind_eq_some_iff, Option.pure_def,
        Option.some.injEq] at h
      obtain ⟨_, _, _, hcount, _, hmax, rfl⟩ := h
      exact ⟨(lossless_natUpTo _).inRange_of_read? hcount,
        (lossless_natUpTo _).inRange_of_read? hmax⟩
    next => cases h

/-! ### Violations -/

namespace Violation

/-- The counts of the violation can be written. -/
structure InRange (v : Violation) : Prop where
  location : v.location.InRange
  data : ∀ e ∈ v.data, e.InRange

@[simp] theorem countKey_member?_of_ne {α : Type} {key k : String} (h : k ≠ key)
    (write : α → Json) (o : Option α) : countKey key (member? k write o) = 0 := by
  cases o <;> simp [member?, h]

@[simp] theorem countKey_member?_le {α : Type} (key : String) (write : α → Json) (o : Option α) :
    countKey key (member? key write o) ≤ 1 := by
  cases o <;> simp [member?]

@[simp] theorem lookup?_member? {α : Type} (key k : String) (write : α → Json) (o : Option α) :
    lookup? key (member? k write o) = if k = key then o.map write else none := by
  cases o <;> simp [member?]

theorem plain_of_mem_member? {α : Type} {k : String} {write : α → Json}
    (h : ∀ a, (write a).Plain) {o : Option α} {m : String × Json} (hm : m ∈ member? k write o) :
    m.2.Plain := by
  cases o with
  | none => exact absurd hm List.not_mem_nil
  | some a =>
    obtain rfl := List.mem_singleton.mp hm
    exact h a

theorem lossless : Lossless toJson ofJson? InRange where
  plain v := by
    apply Plain.object
    intro m hm
    simp only [List.mem_append, List.mem_cons, List.not_mem_nil, or_false] at hm
    obtain (((hfixed | hid) | hdata) | rfl) | hdocs := hm
    · obtain rfl | rfl | rfl | rfl | rfl := hfixed
      · exact .string v.code
      · exact .string v.rule
      · exact Severity.lossless.plain v.severity
      · exact Location.lossless.plain v.location
      · exact .string v.message
    · exact plain_of_mem_member? .string hid
    · exact plain_of_mem_member? Excess.lossless.plain hdata
    · cases v.suggestion with
      | none => exact .null
      | some s => exact Suggestion.lossless.plain s
    · exact plain_of_mem_member? .string hdocs
  read?_write {v} h := by
    have hseverity := Severity.lossless.read?_write (a := v.severity) trivial
    have hlocation := Location.lossless.read?_write h.location
    have hid := lossless_text.optional?_map rfl (o := v.messageId) (fun _ _ => trivial)
    have hdata := Excess.lossless.optional?_map rfl h.data
    have hsuggestion := Suggestion.lossless.optional?_getD_null rfl (o := v.suggestion)
      (fun _ _ => trivial)
    have hdocs := lossless_text.optional?_map rfl (o := v.docsUrl) (fun _ _ => trivial)
    simp [ofJson?, toJson, fields?, text?, hseverity, hlocation, hid, hdata, hsuggestion, hdocs]
  inRange_of_read? {j v} h := by
    unfold ofJson? at h
    split at h
    next code rule severity location message messageId data suggestion docsUrl _ =>
      simp only [Option.bind_eq_bind, Option.bind_eq_some_iff, Option.pure_def,
        Option.some.injEq] at h
      obtain ⟨_, _, _, _, _, _, _, hlocation, _, _, _, _, _, hdata, _, _, _, _, rfl⟩ := h
      exact ⟨Location.lossless.inRange_of_read? hlocation,
        Excess.lossless.inRange_of_optional? hdata⟩
    next => cases h

end Violation

/-! ### Reports -/

namespace Report

/-- The counts of the report can be written. -/
structure InRange (r : Report) : Prop where
  violations : ∀ v ∈ r.violations, v.InRange
  filesChecked : r.filesChecked ≤ maxCount

theorem lossless : Lossless toJson ofJson? InRange where
  plain r := by
    apply Plain.object
    intro m hm
    simp only [List.mem_cons, List.not_mem_nil, or_false] at hm
    obtain rfl | rfl := hm
    · apply Plain.array
      intro j hj
      obtain ⟨v, _, rfl⟩ := List.mem_map.mp hj
      exact Violation.lossless.plain v
    · exact .int r.filesChecked
  read?_write {r} h := by
    have hviolations := Violation.lossless.mapM_map h.violations
    have hfiles : natUpTo? maxCount (.int r.filesChecked) = some r.filesChecked :=
      (lossless_natUpTo _).read?_write h.filesChecked
    simp [ofJson?, toJson, fields?, hviolations, hfiles]
  inRange_of_read? {j r} h := by
    unfold ofJson? at h
    split at h
    next violations filesChecked _ =>
      simp only [Option.bind_eq_bind, Option.bind_eq_some_iff, Option.pure_def,
        Option.some.injEq] at h
      obtain ⟨_, hviolations, _, hfiles, rfl⟩ := h
      exact ⟨Violation.lossless.inRange_of_mapM hviolations,
        (lossless_natUpTo _).inRange_of_read? hfiles⟩
    next => cases h

/-- The report can be read from what a check prints of it. -/
theorem decode?_output {r : Report} (h : r.InRange) (fs : FileSystem) (root : Path) :
    decode? ofJson? (Cli.Outcome.ofReport r fs root .json).output = some r := by
  show decode? ofJson? (r.toJson.pretty ++ "\n") = some r
  have hblanks : ∀ c ∈ "\n".toList, Lexer.isBlank c = true := List.forall_mem_singleton.mpr rfl
  exact lossless.decode?_write Layout.isBlank_indented h hblanks

/-- **Reports and their parts are read back from their texts**, a report also from what a check
prints. Whatever text a value was read from, it is read again from what is written of it. -/
theorem parts_read_back :
    RoundTrips Severity.toJson Severity.ofJson? (fun _ => True) ∧
      RoundTrips Location.toJson Location.ofJson? Location.InRange ∧
      RoundTrips Suggestion.toJson Suggestion.ofJson? (fun _ => True) ∧
      RoundTrips Excess.toJson Excess.ofJson? Excess.InRange ∧
      RoundTrips Violation.toJson Violation.ofJson? Violation.InRange ∧
      RoundTrips toJson ofJson? InRange ∧
      ∀ r : Report, r.InRange → ∀ (fs : FileSystem) (root : Path),
        decode? ofJson? (Cli.Outcome.ofReport r fs root .json).output = some r :=
  ⟨Severity.lossless.roundTrips, Location.lossless.roundTrips, Suggestion.lossless.roundTrips,
    Excess.lossless.roundTrips, Violation.lossless.roundTrips, lossless.roundTrips,
    fun _ h fs root => decode?_output h fs root⟩

/-- Texts that have to be escaped, the largest counts, and one violation with all its parts beside
one with none. The severity is first read from a form in which it is not written. -/
theorem parts_read_back_of_extremes :
    let place : Location := ⟨⟨"a\\\x00\"\n😀.js"⟩, maxCount, 0, maxCount, 1⟩
    let bare : Violation := ⟨"", "\x1f", .info, place, "\x7f\t\r", none, none, none, none⟩
    let full : Violation := ⟨"E", "é", .error, place, "/", some "\x08",
      some ⟨"null", maxCount, 4294967295⟩, some ⟨"\u2028"⟩, some ""⟩
    let report : Report := ⟨[bare, full], maxCount⟩
    let fs : FileSystem := ⟨.folder [], ⟨"/"⟩⟩
    report.InRange ∧
      decode? ofJson? (Cli.Outcome.ofReport report fs ⟨"/"⟩ .json).output = some report ∧
      decode? Severity.ofJson? " \x7b\"warning\": null\x7d" = some .warning ∧
      decode? Severity.ofJson? Severity.warning.toJson.compact = some .warning := by
  intro place bare full report fs
  have hplace : place.InRange := ⟨by decide, by decide, by decide, by decide⟩
  have hbare : bare.InRange := ⟨hplace, by
    intro e he
    cases he⟩
  have hfull : full.InRange := ⟨hplace, by
    intro e he
    obtain rfl := Option.some.inj he
    exact ⟨by decide, by decide⟩⟩
  have hreport : report.InRange :=
    ⟨List.forall_mem_cons.mpr ⟨hbare, List.forall_mem_singleton.mpr hfull⟩, by decide⟩
  have hread : decode? Severity.ofJson? " \x7b\"warning\": null\x7d" = some .warning := by
    decide +kernel
  obtain ⟨hseverity, _, _, _, _, _, hprinted⟩ := parts_read_back
  exact ⟨hreport, hprinted report hreport fs ⟨"/"⟩, hread, (hseverity.reread hread).1⟩

end Report

end ArityCheck
