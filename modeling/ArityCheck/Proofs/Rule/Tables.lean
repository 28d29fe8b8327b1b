import ArityCheck.Proofs.Analysis.Source
import ArityCheck.Proofs.SortedMap
import ArityCheck.Proofs.Toml.Order

/-! Which tables are accepted.

An option fits if its key may be used and its value is a limit (`Limits.Fits`), and what is wrong
with one that does not fit is told by `Limits.Refused`. Options are looked at one after the other, so
a table is refused for its first option that does not fit (`ofOptions_eq_error_iff`). Tables are
sorted, whence that option is the one with the smallest key, and the limits that are read from a
table list its options as they stand there (`entries_ofOptions`). `allOfConfig_reads_tables` puts
the tables of both rules together. -/
namespace ArityCheck

namespace Limits

open Toml (Value)

variable {rule key : String} {allowed : Option (List String)} {v : Value}

/-! ### One option -/

/-- What an option has to be: one of the keys in the list, if there is one, and an integer that is
not below minus one. -/
def Fits (allowed : Option (List String)) (option : String × Value) : Prop :=
  (∀ keys, allowed = some keys → option.1 ∈ keys) ∧ ∃ n, option.2 = .integer n ∧ -1 ≤ n

/-- Why an option does not fit. The value counts only if the key may be used. -/
inductive Refused (rule : String) (allowed : Option (List String)) :
    String × Value → ConfigError → Prop
  | unknown {keys : List String} {key : String} (v : Value) (list : allowed = some keys)
      (absent : key ∉ keys) : Refused rule allowed (key, v) (.unknownOption rule key)
  | invalid {key : String} {v : Value} (known : ∀ keys, allowed = some keys → key ∈ keys)
      (wrong : ∀ n, v = .integer n → n < -1) :
      Refused rule allowed (key, v) (.invalidLimit rule key v.text)

theorem isAllowed_iff :
    isAllowed allowed key = true ↔ ∀ keys, allowed = some keys → key ∈ keys := by
  cases allowed with
  | none => simp [isAllowed]
  | some keys => simp [isAllowed]

theorem ofValue?_eq_some_iff {n : Int} : ofValue? v = some n ↔ v = .integer n ∧ -1 ≤ n := by
  unfold ofValue?
  split
  · next m =>
    rw [least]
    by_cases hm : -1 ≤ m
    · simp only [if_pos hm, Option.some.injEq, Value.integer.injEq]
      constructor
      · rintro rfl
        exact ⟨rfl, hm⟩
      · exact And.left
    · simp only [if_neg hm, Value.integer.injEq]
      constructor
      · intro h
        cases h
      · rintro ⟨rfl, hn⟩
        exact absurd hn hm
  · next hother =>
    constructor
    · intro h
      cases h
    · rintro ⟨rfl, -⟩
      exact absurd rfl (hother n)

theorem fits_iff (rule : String) {option : String × Value} :
    Fits allowed option ↔ ∃ n, ofOption rule allowed option.1 option.2 = .ok n := by
  rw [Fits, ← isAllowed_iff, ofOption]
  simp only [← ofValue?_eq_some_iff]
  cases isAllowed allowed option.1 <;> cases ofValue? option.2 <;> simp

theorem refused_iff {e : ConfigError} :
    Refused rule allowed (key, v) e ↔ ofOption rule allowed key v = .error e := by
  rw [ofOption]
  constructor
  · rintro (⟨_, list, absent⟩ | ⟨known, wrong⟩)
    · rw [if_neg fun h => absent (isAllowed_iff.mp h _ list)]
    · have hnone : ofValue? v = none := by
        rw [Option.eq_none_iff_forall_ne_some]
        intro n hn
        obtain ⟨hv, hle⟩ := ofValue?_eq_some_iff.mp hn
        exact absurd (wrong n hv) (Int.not_lt.mpr hle)
      rw [if_pos (isAllowed_iff.mpr known), hnone]
  · intro h
    split at h
    · next hallowed =>
      split at h
      · cases h
      · next hnone =>
        cases h
        refine .invalid (isAllowed_iff.mp hallowed) fun n hn => Int.not_le.mp fun hle => ?_
        rw [ofValue?_eq_some_iff.mpr ⟨hn, hle⟩] at hnone
        cases hnone
    · next hallowed =>
      cases h
      cases allowed with
      | none => exact absurd rfl hallowed
      | some keys => exact .unknown v rfl fun hmem => hallowed (by simpa [isAllowed] using hmem)

/-! ### A whole table -/

/-- **A table is accepted if all of its options fit.** -/
theorem ofOptions_isOk_iff (rule : String) (allowed : Option (List String))
    (options : List (String × Value)) :
    (∃ limits, ofOptions rule allowed options = .ok limits) ↔
      ∀ option ∈ options, Fits allowed option := by
  induction options with
  | nil => exact ⟨fun _ => List.forall_mem_nil _, fun _ => ⟨.empty, rfl⟩⟩
  | cons option options ih =>
    rw [List.forall_mem_cons, ← ih, fits_iff rule, ofOptions]
    cases ofOption rule allowed option.1 option.2 with
    | error e => simp [bind, Except.bind]
    | ok n => cases ofOptions rule allowed options <;> simp [bind, Except.bind, pure, Except.pure]

theorem ofOptions_cons_eq_error_iff (option : String × Value) (options : List (String × Value))
    (e : ConfigError) :
    ofOptions rule allowed (option :: options) = .error e ↔
      Refused rule allowed option e ∨
        Fits allowed option ∧ ofOptions rule allowed options = .error e := by
  rw [refused_iff, fits_iff rule, ofOptions]
  cases ofOption rule allowed option.1 option.2 with
  | error e' => simp [bind, Except.bind]
  | ok n => cases ofOptions rule allowed options <;> simp [bind, Except.bind, pure, Except.pure]

/-- **A table is refused for the option with the smallest key among those that do not fit.** -/
theorem ofOptions_eq_error_iff {options : List (String × Value)} (h : Entries.Sorted options)
    (e : ConfigError) :
    ofOptions rule allowed options = .error e ↔
      ∃ option ∈ options, Refused rule allowed option e ∧
        ∀ other ∈ options, ¬Fits allowed other → other = option ∨ option.1 < other.1 := by
  induction options with
  | nil =>
    constructor
    · intro h
      cases h
    · rintro ⟨option, hoption, -⟩
      cases hoption
  | cons first options ih =>
    obtain ⟨hfirst, hrest⟩ := List.pairwise_cons.mp h
    rw [ofOptions_cons_eq_error_iff, ih hrest]
    constructor
    · rintro (hrefused | ⟨hfits, option, hoption, hrefused, hleast⟩)
      · refine ⟨first, List.mem_cons_self, hrefused, fun other hother _ => ?_⟩
        exact (List.mem_cons.mp hother).imp_right (hfirst other)
      · refine ⟨option, List.mem_cons_of_mem first hoption, hrefused, fun other hother hnot => ?_⟩
        rcases List.mem_cons.mp hother with rfl | hother
        · exact absurd hfits hnot
        · exact hleast other hother hnot
    · rintro ⟨option, hoption, hrefused, hleast⟩
      rcases List.mem_cons.mp hoption with rfl | hoption
      · exact .inl hrefused
      · -- The option stands further on, so the first one would be a smaller key.
        have hlt : first.1 < option.1 := hfirst option hoption
        have hfits : Fits allowed first := by
          by_contra hnot
          rcases hleast first List.mem_cons_self hnot with rfl | hgt
          · exact String.lt_irrefl first.1 hlt
          · exact String.lt_irrefl first.1 (String.lt_trans hlt hgt)
        refine .inr ⟨hfits, option, hoption, hrefused, fun other hother hnot => ?_⟩
        exact hleast other (List.mem_cons_of_mem first hother) hnot

theorem insert_of_forall_lt {key : String} {n : Int} {entries : List (String × Int)}
    (h : ∀ e ∈ entries, key < e.1) : Entries.insert key n entries = (key, n) :: entries := by
  cases entries with
  | nil => rfl
  | cons e entries => exact if_pos (h e List.mem_cons_self)

/-- **The limits list the options of the table as they stand there.** -/
theorem entries_ofOptions {options : List (String × Value)} (h : Entries.Sorted options)
    {limits : Limits} (hlimits : ofOptions rule allowed options = .ok limits) :
    options = limits.entries.map fun e => (e.1, .integer e.2) := by
  induction options generalizing limits with
  | nil =>
    obtain rfl := Except.ok.inj hlimits
    rfl
  | cons option options ih =>
    obtain ⟨key, v⟩ := option
    obtain ⟨hfirst, hrest⟩ := List.pairwise_cons.mp h
    obtain ⟨n, rest, hn, hoptions, rfl⟩ := ofOptions_cons_eq_ok hlimits
    have hsame := ih hrest hoptions
    have hlt : ∀ e ∈ rest.entries, key < e.1 := by
      intro e he
      refine hfirst (e.1, .integer e.2) ?_
      rw [hsame]
      exact List.mem_map_of_mem he
    show _ = (Entries.insert key n rest.entries).map _
    rw [insert_of_forall_lt hlt, List.map_cons, ← hsame, ofOption_eq_ok hn]

end Limits

namespace Rule

/-! ### The tables of a configuration -/

theorem ofConfig_eq (kind : RuleKind) (config : Config) :
    ofConfig kind config =
      (Limits.ofOptions kind.name kind.allowedKeys (config.options kind.name)).map
        fun limits => { kind, limits } := by
  show (Limits.ofOptions kind.name kind.allowedKeys (config.options kind.name) >>= fun limits =>
    pure ({ kind, limits } : Rule)) = _
  cases Limits.ofOptions kind.name kind.allowedKeys (config.options kind.name) <;> rfl

theorem allOfConfig_isOk_iff (config : Config) :
    (∃ rules, allOfConfig config = .ok rules) ↔
      (∃ limits, Limits.ofOptions "func-args" none (config.options "func-args") = .ok limits) ∧
        ∃ limits, Limits.ofOptions "func-params" RuleKind.parameters.allowedKeys
          (config.options "func-params") = .ok limits := by
  rw [allOfConfig, ofConfig_eq, ofConfig_eq, RuleKind.name, RuleKind.name, RuleKind.allowedKeys]
  cases Limits.ofOptions "func-args" none (config.options "func-args") with
  | error e => simp [bind, Except.bind, Except.map]
  | ok limits =>
    cases Limits.ofOptions "func-params" RuleKind.parameters.allowedKeys
      (config.options "func-params") <;> simp [bind, Except.bind, pure, Except.pure, Except.map]

/-- The table of the rule on arguments is read first. -/
theorem allOfConfig_eq_error_iff (config : Config) (e : ConfigError) :
    allOfConfig config = .error e ↔
      Limits.ofOptions "func-args" none (config.options "func-args") = .error e ∨
        (∃ limits, Limits.ofOptions "func-args" none (config.options "func-args") = .ok limits) ∧
          Limits.ofOptions "func-params" RuleKind.parameters.allowedKeys
            (config.options "func-params") = .error e := by
  rw [allOfConfig, ofConfig_eq, ofConfig_eq, RuleKind.name, RuleKind.name, RuleKind.allowedKeys]
  cases Limits.ofOptions "func-args" none (config.options "func-args") with
  | error e => simp [bind, Except.bind, Except.map]
  | ok limits =>
    cases Limits.ofOptions "func-params" RuleKind.parameters.allowedKeys
      (config.options "func-params") <;> simp [bind, Except.bind, pure, Except.pure, Except.map]

theorem forall_options_iff (config : Config) (rule : String) (P : String × Toml.Value → Prop) :
    (∀ option ∈ config.options rule, P option) ↔
      ∀ table, config.rule? rule = some table → ∀ option ∈ table.options, P option := by
  rw [Config.options]
  cases config.rule? rule <;> simp

/-- Whatever text they come from, the options of a rule are the entries of a sorted map. -/
theorem exists_map_of_parse? {text : String} {config : Config}
    (h : Config.parse? text = some config) (rule : String) : ∃ table : SortedMap Toml.Value, config.options rule = table.entries := by
  rw [Config.options]
  cases hrule : config.rule? rule with
  | none => exact ⟨.empty, rfl⟩
  | some table => exact ⟨⟨_, Config.sorted_options h _ (Entries.mem_of_get? hrule)⟩, rfl⟩

/-- **A table is accepted exactly if all of its options fit.** Then its options are the limits, key
by key. Otherwise it is refused for the option with the smallest key in the order of bytes among
those that do not fit: for its key, if that is not in the list, and else for its value. A
configuration is accepted exactly if the tables of both rules are, whether or not they turn their
rule off, and the table of the rule on arguments is refused first. What is read from a text has its
tables sorted, as this asks for. -/
theorem allOfConfig_reads_tables :
    (∀ (rule : String) (allowed : Option (List String)) (table : SortedMap Toml.Value),
      ((∃ limits, Limits.ofOptions rule allowed table.entries = .ok limits) ↔
        ∀ option ∈ table.entries, Limits.Fits allowed option) ∧
      (∀ limits : Limits, Limits.ofOptions rule allowed table.entries = .ok limits →
        table.entries = limits.entries.map fun e => (e.1, .integer e.2)) ∧
      ∀ e, Limits.ofOptions rule allowed table.entries = .error e ↔
        ∃ option ∈ table.entries, Limits.Refused rule allowed option e ∧
          ∀ other ∈ table.entries, ¬Limits.Fits allowed other →
            other = option ∨ Text.bytes option.1 < Text.bytes other.1) ∧
    (∀ config : Config,
      ((∃ rules, allOfConfig config = .ok rules) ↔
        (∀ table, config.rule? "func-args" = some table →
          ∀ option ∈ table.options, Limits.Fits none option) ∧
        ∀ table, config.rule? "func-params" = some table →
          ∀ option ∈ table.options, Limits.Fits (some ["global", "funcDefinition",
            "funcExpression", "arrowFuncExpression", "funcTypeAnnotation"]) option) ∧
      ∀ e, allOfConfig config = .error e ↔
        Limits.ofOptions "func-args" none (config.options "func-args") = .error e ∨
          (∀ option ∈ config.options "func-args", Limits.Fits none option) ∧
            Limits.ofOptions "func-params" (some ["global", "funcDefinition", "funcExpression",
              "arrowFuncExpression", "funcTypeAnnotation"]) (config.options "func-params") =
              .error e) ∧
    (∀ text table, RuleTable.parse? text = some table →
      ∃ options : SortedMap Toml.Value, table.options = options.entries) ∧
    ∀ text config, Config.parse? text = some config →
      ∀ rule, ∃ options : SortedMap Toml.Value, config.options rule = options.entries := by
  refine ⟨fun rule allowed table => ⟨Limits.ofOptions_isOk_iff rule allowed table.entries,
    fun limits => Limits.entries_ofOptions table.sorted, fun e => ?_⟩, fun config => ⟨?_, fun e => ?_⟩,
    fun text table h => ⟨⟨_, RuleTable.sorted_options h⟩, rfl⟩,
    fun text config => exists_map_of_parse?⟩
  · rw [Limits.ofOptions_eq_error_iff table.sorted]
    simp only [Text.bytes_lt_bytes_iff]
  · rw [allOfConfig_isOk_iff, Limits.ofOptions_isOk_iff, Limits.ofOptions_isOk_iff,
      forall_options_iff, forall_options_iff]
    rfl
  · rw [allOfConfig_eq_error_iff, Limits.ofOptions_isOk_iff]
    rfl

/-- Of two options that do not fit, in a table that turns its rule off, the one with the smaller
key is reported, and nothing about the table of the other rule. What is read from a text is sorted,
also if the text is not. -/
theorem allOfConfig_reads_tables_of_disabled :
    let table : SortedMap Toml.Value :=
      ⟨[("B", .integer (-2)), ("a", .string "x"), ("global", .integer 3)], by decide +kernel⟩
    let config : Config := { rules := [
      ("func-args", { enabled := some false, options := table.entries }),
      ("func-params", { options := [("other", .integer 1)] })] }
    let fitting : SortedMap Toml.Value :=
      ⟨[("arrowFuncExpression", .integer (-1)), ("global", .integer 2)], by decide +kernel⟩
    allOfConfig config = .error (.invalidLimit "func-args" "B" "-2") ∧
      (∃ limits : Limits,
        Limits.ofOptions "func-params" (some ["global", "arrowFuncExpression"]) fitting.entries =
          .ok limits ∧ fitting.entries = limits.entries.map fun e => (e.1, .integer e.2)) ∧
      (∃ table, RuleTable.parse? "f = true\nb = false\n" = some table ∧
        ∃ options : SortedMap Toml.Value, table.options = options.entries) ∧
      ∃ config, Config.parse? "[rules.func-args]\nf = true\nb = false\n" = some config ∧
        ∃ options : SortedMap Toml.Value, config.options "func-args" = options.entries := by
  intro table config fitting
  obtain ⟨htables, hconfig, hread, hreadAll⟩ := allOfConfig_reads_tables
  refine ⟨?_, ?_, ?_, ?_⟩
  · refine ((hconfig config).2 _).mpr (.inl (((htables "func-args" none table).2.2 _).mpr ?_))
    refine ⟨("B", .integer (-2)), List.mem_cons_self, ?_, fun other hother _ => ?_⟩
    · exact .invalid (fun keys h => by cases h) fun n hn => by cases hn; decide
    · have hsorted := List.pairwise_cons.mp table.entries_pairwise_bytes
      exact (List.mem_cons.mp hother).imp_right (hsorted.1 other)
  · obtain ⟨hok, hentries, -⟩ :=
      htables "func-params" (some ["global", "arrowFuncExpression"]) fitting
    have hfits : ∀ option ∈ fitting.entries,
        Limits.Fits (some ["global", "arrowFuncExpression"]) option := by
      simp [fitting, Limits.Fits]
    obtain ⟨limits, hlimits⟩ := hok.mpr hfits
    exact ⟨limits, hlimits, hentries limits hlimits⟩
  · have hsome : (RuleTable.parse? "f = true\nb = false\n").isSome = true := by decide +kernel
    obtain ⟨table, htable⟩ := Option.isSome_iff_exists.mp hsome
    exact ⟨table, htable, hread _ table htable⟩
  · have hsome : (Config.parse? "[rules.func-args]\nf = true\nb = false\n").isSome = true := by
      decide +kernel
    obtain ⟨config, hparse⟩ := Option.isSome_iff_exists.mp hsome
    exact ⟨config, hparse, hreadAll _ config hparse "func-args"⟩

end Rule

end ArityCheck
