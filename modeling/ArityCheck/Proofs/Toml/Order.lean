import ArityCheck.Config.Decode

/-! The order of the keys of tables that are read.

A document is put together from items, whose entries stand as they were written. They are sorted
where they become values (`sorted_entryValues`), which for inline tables is while the document is
still being read. So the order has to be carried through the reader: `Item.Sorted` says that the
values which an item holds are sorted already, one lemma for each step of the reader keeps it, and
`sorted_parse?` is what comes out at the end. The options of a rule are part of such a table
(`sorted_options`). -/
namespace ArityCheck

theorem Entries.mem_of_get? {α : Type} {key : String} {entries : List (String × α)} {v : α}
    (h : get? key entries = some v) : (key, v) ∈ entries := by
  induction entries with
  | nil => cases h
  | cons e entries ih =>
    obtain ⟨k, w⟩ := e
    rw [get?] at h
    split at h
    · next hk =>
      cases h
      exact hk ▸ List.mem_cons_self
    · exact List.mem_cons_of_mem _ (ih h)

namespace Toml

/-- In a value and everything in it, the entries of tables are in the order of their keys. -/
inductive Value.Sorted : Value → Prop
  | string (text : String) : Sorted (.string text)
  | integer (n : Int) : Sorted (.integer n)
  | float (x : Double) : Sorted (.float x)
  | boolean (b : Bool) : Sorted (.boolean b)
  | datetime (text : String) : Sorted (.datetime text)
  | array {items : List Value} (each : ∀ v ∈ items, Sorted v) : Sorted (.array items)
  | table {entries : List (String × Value)} (keys : Entries.Sorted entries)
      (each : ∀ e ∈ entries, Sorted e.2) : Sorted (.table entries)

/-- The values that an item holds are sorted. Its own entries need not be. -/
inductive Item.Sorted : Item → Prop
  | value {v : Value} (sorted : v.Sorted) : Sorted (.value v)
  | table (origin : Origin) {entries : List (String × Item)} (each : ∀ e ∈ entries, Sorted e.2) :
      Sorted (.table origin entries)
  | tables {elements : List (List (String × Item))}
      (each : ∀ entries ∈ elements, ∀ e ∈ entries, Sorted e.2) : Sorted (.tables elements)

/-! ### From items to values -/

theorem sorted_entryValues (entries : List (String × Item)) :
    Entries.Sorted (Item.entryValues entries) := by
  induction entries with
  | nil => exact List.Pairwise.nil
  | cons e entries ih => exact ih.insert e.1 e.2.toValue

theorem exists_of_mem_entryValues {entries : List (String × Item)} {e : String × Value}
    (h : e ∈ Item.entryValues entries) : ∃ i ∈ entries, e.2 = i.2.toValue := by
  induction entries with
  | nil => cases h
  | cons i entries ih =>
    rcases Entries.mem_insert h with rfl | h
    · exact ⟨i, List.mem_cons_self, rfl⟩
    · obtain ⟨j, hj, he⟩ := ih h
      exact ⟨j, List.mem_cons_of_mem i hj, he⟩

theorem exists_of_mem_elementValues {elements : List (List (String × Item))} {v : Value}
    (h : v ∈ Item.elementValues elements) :
    ∃ entries ∈ elements, v = .table (Item.entryValues entries) := by
  induction elements with
  | nil => cases h
  | cons entries elements ih =>
    rcases List.mem_cons.mp h with rfl | h
    · exact ⟨entries, List.mem_cons_self, rfl⟩
    · obtain ⟨other, hother, hv⟩ := ih h
      exact ⟨other, List.mem_cons_of_mem entries hother, hv⟩

theorem Value.Sorted.ofItems {entries : List (String × Item)}
    (h : ∀ i ∈ entries, i.2.toValue.Sorted) : Sorted (.table (Item.entryValues entries)) := by
  refine .table (sorted_entryValues entries) fun e he => ?_
  obtain ⟨i, hi, hvalue⟩ := exists_of_mem_entryValues he
  exact hvalue ▸ h i hi

/-- **An item that holds sorted values is a sorted value.** -/
theorem Item.Sorted.toValue {i : Item} (h : i.Sorted) : i.toValue.Sorted := by
  induction h with
  | value sorted => exact sorted
  | table origin each ih => exact .ofItems ih
  | tables each ih =>
    refine .array fun v hv => ?_
    obtain ⟨entries, hentries, rfl⟩ := exists_of_mem_elementValues (List.mem_reverse.mp hv)
    exact .ofItems (ih entries hentries)

/-! ### Building a document -/

namespace Document

/-- The values in a document, or in a part of one, are sorted. -/
def Sorted (entries : List (String × Item)) : Prop := ∀ e ∈ entries, e.2.Sorted

variable {entries result : List (String × Item)} {path : List String} {key : String}

theorem sorted_nil : Sorted [] := List.forall_mem_nil _

theorem Sorted.set (h : Sorted entries) {item : Item} (hitem : item.Sorted) (key : String) :
    Sorted (set key item entries) := by
  induction entries with
  | nil =>
    intro e he
    obtain rfl := List.mem_singleton.mp he
    exact hitem
  | cons first entries ih =>
    obtain ⟨k, i⟩ := first
    obtain ⟨hfirst, hrest⟩ := List.forall_mem_cons.mp h
    rw [Document.set]
    split
    · exact List.forall_mem_cons.mpr ⟨hitem, hrest⟩
    · exact List.forall_mem_cons.mpr ⟨hfirst, ih hrest⟩

theorem Sorted.get? (h : Sorted entries) {item : Item}
    (hget : Entries.get? key entries = some item) : item.Sorted := h _ (Entries.mem_of_get? hget)

/-- A change keeps the values sorted, if it does so where it is made. -/
theorem Sorted.change {made : Origin}
    {edit : Origin → List (String × Item) → Option (List (String × Item))}
    (hedit : ∀ origin entries result, Sorted entries → edit origin entries = some result →
      Sorted result)
    (h : Sorted entries) {origin : Origin}
    (hchange : change made edit path origin entries = some result) : Sorted result := by
  induction path generalizing origin entries result with
  | nil => exact hedit origin entries result h hchange
  | cons key path ih =>
    rw [Document.change] at hchange
    split at hchange
    · -- The table is made on the way.
      obtain ⟨inner, hinner, rfl⟩ := Option.map_eq_some_iff.mp hchange
      exact h.set (.table made (ih sorted_nil hinner)) key
    · cases hchange
    · cases hchange
    · next last earlier hget =>
      obtain ⟨inner, hinner, rfl⟩ := Option.map_eq_some_iff.mp hchange
      cases h.get? hget with
      | tables each =>
        obtain ⟨hlast, hearlier⟩ := List.forall_mem_cons.mp each
        exact h.set (.tables (List.forall_mem_cons.mpr ⟨ih hlast hinner, hearlier⟩)) key
    · next inOrigin inner hget =>
      split at hchange
      · cases hchange
      · obtain ⟨changed, hchanged, rfl⟩ := Option.map_eq_some_iff.mp hchange
        cases h.get? hget with
        | table _ each => exact h.set (.table inOrigin (ih each hchanged)) key

theorem Sorted.addValue (h : Sorted entries) {v : Value} (hv : v.Sorted)
    (hadd : addValue path key v entries = some result) : Sorted result := by
  refine h.change (fun origin entries result h hedit => ?_) hadd
  split at hedit
  · cases hedit
  · exact Option.some.inj hedit ▸ h.set (.value hv) key

theorem Sorted.addUnder (h : Sorted entries) {header : List String} {v : Value} (hv : v.Sorted)
    (hadd : addUnder header path key v entries = some result) : Sorted result :=
  h.change (fun _ _ _ h hedit => h.addValue hv hedit) hadd

theorem Sorted.openTable (h : Sorted entries) (hopen : openTable path key entries = some result) :
    Sorted result := by
  refine h.change (fun origin entries result h hedit => ?_) hopen
  split at hedit
  · exact Option.some.inj hedit ▸ h.set (.table .header sorted_nil) key
  · next inner hget =>
    cases h.get? hget with
    | table _ each => exact Option.some.inj hedit ▸ h.set (.table .header each) key
  · cases hedit

theorem Sorted.openElement (h : Sorted entries)
    (hopen : openElement path key entries = some result) : Sorted result := by
  refine h.change (fun origin entries result h hedit => ?_) hopen
  split at hedit
  · refine Option.some.inj hedit ▸ h.set (.tables ?_) key
    exact List.forall_mem_cons.mpr ⟨sorted_nil, List.forall_mem_nil _⟩
  · next elements hget =>
    cases h.get? hget with
    | tables each =>
      refine Option.some.inj hedit ▸ h.set (.tables ?_) key
      exact List.forall_mem_cons.mpr ⟨sorted_nil, each⟩
  · cases hedit

end Document

/-! ### Reading -/

/-- The values that a reading function gives are sorted. -/
def ReadsSorted (read : ReadValue) : Prop := ∀ cs v rest, read cs = some (v, rest) → v.Sorted

variable {read : ReadValue}

theorem readItems_sorted (hread : ReadsSorted read) (n : Nat) {cs rest : List Char}
    {items : List Value} (h : readItems read n cs = some (items, rest)) :
    ∀ v ∈ items, v.Sorted := by
  induction n generalizing cs rest items with
  | zero => cases h
  | succ n ih =>
    rw [readItems] at h
    obtain ⟨cs, -, h⟩ := Option.bind_eq_some_iff.mp h
    split at h
    · cases h
      exact List.forall_mem_nil _
    · obtain ⟨⟨v, rest'⟩, hv, h⟩ := Option.bind_eq_some_iff.mp h
      have hsorted : v.Sorted := hread _ v rest' hv
      obtain ⟨_, -, h⟩ := Option.bind_eq_some_iff.mp h
      split at h
      · obtain ⟨⟨vs, rest''⟩, hvs, h⟩ := Option.bind_eq_some_iff.mp h
        cases h
        exact List.forall_mem_cons.mpr ⟨hsorted, ih hvs⟩
      · cases h
        exact List.forall_mem_cons.mpr ⟨hsorted, List.forall_mem_nil _⟩
      · cases h

theorem readEntries_sorted (hread : ReadsSorted read) (n : Nat)
    {entries result : List (String × Item)} {cs rest : List Char}
    (hentries : Document.Sorted entries)
    (h : readEntries read entries n cs = some (result, rest)) : Document.Sorted result := by
  induction n generalizing entries cs with
  | zero => cases h
  | succ n ih =>
    rw [readEntries] at h
    obtain ⟨⟨⟨path, key⟩, rest'⟩, -, h⟩ := Option.bind_eq_some_iff.mp h
    dsimp only at h
    split at h
    · obtain ⟨⟨v, rest'⟩, hv, h⟩ := Option.bind_eq_some_iff.mp h
      obtain ⟨added, hadd, h⟩ := Option.bind_eq_some_iff.mp h
      have hadded : Document.Sorted added := hentries.addValue (hread _ v rest' hv) hadd
      split at h
      · exact ih hadded h
      · cases h
        exact hadded
      · cases h
    · cases h

theorem readInlineTable_sorted (hread : ReadsSorted read) : ReadsSorted (readInlineTable read) := by
  intro cs v rest h
  rw [readInlineTable] at h
  split at h
  · cases h
    exact .table List.Pairwise.nil (List.forall_mem_nil _)
  · obtain ⟨⟨entries, _⟩, hentries, hv⟩ := Option.map_eq_some_iff.mp h
    cases hv
    have hsorted := readEntries_sorted hread _ Document.sorted_nil hentries
    exact .ofItems fun i hi => (hsorted i hi).toValue

theorem scalar?_sorted {cs : List Char} {v : Value} (h : scalar? cs = some v) : v.Sorted := by
  unfold scalar? at h
  split at h
  · cases h
    exact .boolean true
  · split at h
    · cases h
      exact .boolean false
    · rcases Option.or_eq_some_iff.mp h with h | ⟨-, h⟩
      · obtain ⟨text, -, rfl⟩ := Option.map_eq_some_iff.mp h
        exact .datetime text
      · rcases Option.or_eq_some_iff.mp h with h | ⟨-, h⟩
        · obtain ⟨n, -, rfl⟩ := Option.map_eq_some_iff.mp h
          exact .integer n
        · obtain ⟨x, -, rfl⟩ := Option.map_eq_some_iff.mp h
          exact .float x

theorem readScalar_sorted : ReadsSorted readScalar := by
  intro cs v rest h
  unfold readScalar at h
  dsimp only at h
  split at h
  · split at h <;>
    · obtain ⟨w, hw, hv⟩ := Option.map_eq_some_iff.mp h
      cases hv
      exact scalar?_sorted hw
  · obtain ⟨w, hw, hv⟩ := Option.map_eq_some_iff.mp h
    cases hv
    exact scalar?_sorted hw

theorem readValue_sorted (depth : Nat) : ReadsSorted (readValue depth) := by
  induction depth using Nat.strongRecOn with
  | ind depth ih =>
    intro cs v rest h
    unfold readValue at h
    split at h
    · split at h
      · cases h
      · next inner =>
        obtain ⟨⟨items, _⟩, hitems, hv⟩ := Option.map_eq_some_iff.mp h
        cases hv
        exact .array (readItems_sorted (ih inner (Nat.lt_succ_self inner)) _ hitems)
    · split at h
      · cases h
      · next inner =>
        exact readInlineTable_sorted (ih inner (Nat.lt_succ_self inner)) _ v rest h
    · obtain ⟨⟨s, _⟩, -, hv⟩ := Option.map_eq_some_iff.mp h
      cases hv
      exact .string s
    · obtain ⟨⟨s, _⟩, -, hv⟩ := Option.map_eq_some_iff.mp h
      cases hv
      exact .string s
    · exact readScalar_sorted _ v rest h

theorem readHeader_sorted {s s' : State} {cs rest : List Char} (hs : Document.Sorted s.entries)
    (h : readHeader s cs = some (s', rest)) : Document.Sorted s'.entries := by
  unfold readHeader at h
  split at h
  · obtain ⟨⟨⟨path, key⟩, _⟩, -, h⟩ := Option.bind_eq_some_iff.mp h
    dsimp only at h
    split at h
    · obtain ⟨entries, hopen, h⟩ := Option.bind_eq_some_iff.mp h
      cases h
      exact hs.openElement hopen
    · cases h
  · obtain ⟨⟨⟨path, key⟩, _⟩, -, h⟩ := Option.bind_eq_some_iff.mp h
    dsimp only at h
    split at h
    · obtain ⟨entries, hopen, h⟩ := Option.bind_eq_some_iff.mp h
      cases h
      exact hs.openTable hopen
    · cases h

theorem readAssignment_sorted {s s' : State} {cs rest : List Char}
    (hs : Document.Sorted s.entries) (h : readAssignment s cs = some (s', rest)) :
    Document.Sorted s'.entries := by
  unfold readAssignment at h
  obtain ⟨⟨⟨path, key⟩, _⟩, -, h⟩ := Option.bind_eq_some_iff.mp h
  dsimp only at h
  split at h
  · obtain ⟨⟨v, rest'⟩, hv, h⟩ := Option.bind_eq_some_iff.mp h
    obtain ⟨entries, hadd, h⟩ := Option.bind_eq_some_iff.mp h
    cases h
    exact hs.addUnder (readValue_sorted _ _ v rest' hv) hadd
  · cases h

theorem readStatements_sorted (n : Nat) {s s' : State} {cs : List Char}
    (hs : Document.Sorted s.entries) (h : readStatements n s cs = some s') :
    Document.Sorted s'.entries := by
  induction n generalizing s cs with
  | zero => cases h
  | succ n ih =>
    rw [readStatements] at h
    obtain ⟨_, -, h⟩ := Option.bind_eq_some_iff.mp h
    split at h
    · cases h
      exact hs
    · obtain ⟨⟨t, _⟩, ht, h⟩ := Option.bind_eq_some_iff.mp h
      obtain ⟨_, -, h⟩ := Option.bind_eq_some_iff.mp h
      exact ih (readHeader_sorted hs ht) h
    · obtain ⟨⟨t, _⟩, ht, h⟩ := Option.bind_eq_some_iff.mp h
      obtain ⟨_, -, h⟩ := Option.bind_eq_some_iff.mp h
      exact ih (readAssignment_sorted hs ht) h

/-- **A document that is read is a sorted table**, and so is every table in it. -/
theorem sorted_parse? {text : String} {entries : List (String × Value)}
    (h : parse? text = some entries) : Value.Sorted (.table entries) := by
  obtain ⟨s, hs, rfl⟩ := Option.map_eq_some_iff.mp h
  have hsorted := readStatements_sorted _ Document.sorted_nil hs
  exact .ofItems fun i hi => (hsorted i hi).toValue

end Toml

/-! ### The tables of rules -/

open Config.Decode

theorem sorted_options_of_ruleTable? {entries : List (String × Toml.Value)} {table : RuleTable}
    (hentries : Entries.Sorted entries) (h : ruleTable? entries = some table) :
    Entries.Sorted table.options := by
  unfold ruleTable? at h
  obtain ⟨enabled, -, h⟩ := Option.bind_eq_some_iff.mp h
  obtain ⟨severity, -, h⟩ := Option.bind_eq_some_iff.mp h
  cases h
  exact hentries.sublist List.filter_sublist

/-- The options of a rule table that is read are in the order of their keys. -/
theorem RuleTable.sorted_options {text : String} {table : RuleTable}
    (h : RuleTable.parse? text = some table) : Entries.Sorted table.options := by
  obtain ⟨entries, hentries, h⟩ := Option.bind_eq_some_iff.mp h
  cases Toml.sorted_parse? hentries with
  | table keys each => exact sorted_options_of_ruleTable? keys h

theorem sorted_options_of_ruleItem {e : String × Toml.Value} {entry : String × RuleTable}
    (he : e.2.Sorted) (h : ruleEntry? e = some entry) : Entries.Sorted entry.2.options := by
  unfold ruleEntry? at h
  split at h
  · obtain ⟨table, htable, rfl⟩ := Option.map_eq_some_iff.mp h
    cases he with
    | table keys each => exact sorted_options_of_ruleTable? keys htable
  · cases h

theorem sorted_options_of_mapM {entries : List (String × Toml.Value)}
    {rules : List (String × RuleTable)} (hentries : ∀ e ∈ entries, e.2.Sorted)
    (h : entries.mapM ruleEntry? = some rules) : ∀ rule ∈ rules, Entries.Sorted rule.2.options := by
  induction entries generalizing rules with
  | nil =>
    obtain rfl : [] = rules := by simpa using h
    exact List.forall_mem_nil _
  | cons e entries ih =>
    obtain ⟨he, hrest⟩ := List.forall_mem_cons.mp hentries
    rw [List.mapM_cons] at h
    obtain ⟨rule, hrule, h⟩ := Option.bind_eq_some_iff.mp h
    obtain ⟨rest, hrules, h⟩ := Option.bind_eq_some_iff.mp h
    cases h
    exact List.forall_mem_cons.mpr ⟨sorted_options_of_ruleItem he hrule, ih hrest hrules⟩

/-- The same for the tables of a configuration. -/
theorem Config.sorted_options {text : String} {config : Config}
    (h : Config.parse? text = some config) :
    ∀ rule ∈ config.rules, Entries.Sorted rule.2.options := by
  obtain ⟨entries, hentries, h⟩ := Option.bind_eq_some_iff.mp h
  obtain ⟨analyzer, -, h⟩ := Option.bind_eq_some_iff.mp h
  obtain ⟨rules, hrules, h⟩ := Option.bind_eq_some_iff.mp h
  cases h
  cases hget : Entries.get? "rules" entries with
  | none =>
    rw [hget] at hrules
    cases hrules
    exact List.forall_mem_nil _
  | some v =>
    rw [hget] at hrules
    obtain ⟨tables, htables, rfl⟩ := Option.map_eq_some_iff.mp hrules
    cases Toml.sorted_parse? hentries with
    | table keys each =>
      have hv : v.Sorted := each _ (Entries.mem_of_get? hget)
      unfold rules? at htables
      split at htables
      · cases hv with
        | table keys each => exact sorted_options_of_mapM each htables
      · cases htables

end ArityCheck
