import ArityCheck.Outline.Basic
import ArityCheck.Proofs.List

/-! The names of keys that are written as strings.

A name is made from the text of the string by dropping whole runs of quotes at both ends, of either
kind (`unquoted_eq_iff`). The delimiters go with them, so what is left depends on the content alone
(`unquoted_literal`): it is the content itself as long as that neither begins nor ends with a quote
(`unquoted_eq_self_iff`). Whether the key is the string or is computed from it makes no difference
(`propertyName?_of_isLiteral`). -/
namespace ArityCheck

namespace Tree

open propertyName? (unquoted)

def isQuote (a : Char) : Bool := a == '\x22' || a == '\x27'

/-- Neither the first nor the last character is a quote. -/
structure HasBareEnds (s : String) : Prop where
  first : ∀ a ∈ s.toList.head?, isQuote a = false
  last : ∀ a ∈ s.toList.getLast?, isQuote a = false

instance (s : String) : Decidable (HasBareEnds s) :=
  decidable_of_iff
    (s.toList.head?.all (!isQuote ·) = true ∧ s.toList.getLast?.all (!isQuote ·) = true)
    (by
      simp only [Option.all_eq_true, Bool.not_eq_true']
      exact ⟨fun h => ⟨h.1, h.2⟩, fun h => ⟨h.1, h.2⟩⟩)

/-- A content between two delimiters. -/
def literal (q : Char) (content : String) : String :=
  String.ofList (q :: content.toList ++ [q])

/-- The key is the string with the delimiter and the content, or is computed from it and nothing
else. -/
inductive IsLiteral (q : Char) (content : String) : Tree → Prop
  | direct {key : Tree} (kind : key.kind = .string) (text : key.text = literal q content) :
      IsLiteral q content key
  | computed {key inner : Tree} (kind : key.kind = .computedPropertyName)
      (only : key.items = [inner]) (kind_inner : inner.kind = .string)
      (text : inner.text = literal q content) : IsLiteral q content key

/-- The key is an identifier, or a string with that content. -/
inductive Spells (x : String) : Tree → Prop
  | identifier {key : Tree} (kind : key.kind ∈ [.propertyIdentifier, .privatePropertyIdentifier,
      .shorthandPropertyIdentifier, .identifier, .typeIdentifier]) (text : key.text = x) :
      Spells x key
  | literal {key : Tree} (q : Char) (quote : isQuote q = true) (h : IsLiteral q x key) :
      Spells x key

/-! ### Quotes at the ends -/

/-- **Dropping the quotes of a string**: runs of them go at both ends, and no other character. -/
theorem unquoted_eq_iff {s name : String} : unquoted s = name ↔ ∃ before after,
    s.toList = before ++ name.toList ++ after ∧ (∀ a ∈ before ++ after, isQuote a = true) ∧
      HasBareEnds name := by
  have hlist : (unquoted s).toList = (s.toList.dropWhile isQuote).rdropWhile isQuote :=
    String.toList_ofList
  rw [← String.toList_inj, hlist, rdropWhile_dropWhile_eq_iff]
  refine exists_congr fun before => exists_congr fun after => and_congr_right fun _ =>
    and_congr_right fun _ => ⟨fun h => ⟨h.1, h.2⟩, fun h => ⟨h.first, h.last⟩⟩

/-- No character that is not a quote is lost. -/
theorem mem_unquoted_iff {s : String} {c : Char} (hc : isQuote c = false) :
    c ∈ (unquoted s).toList ↔ c ∈ s.toList := by
  obtain ⟨before, after, hs, hquotes, -⟩ := unquoted_eq_iff.mp (Eq.refl (unquoted s))
  have hkept : c ∉ before ++ after := fun h => Bool.false_ne_true (hc.symm.trans (hquotes c h))
  rw [List.mem_append, not_or] at hkept
  rw [hs, List.mem_append, List.mem_append, or_iff_left hkept.2, or_iff_right hkept.1]

theorem unquoted_eq_self_iff {s : String} : unquoted s = s ↔ HasBareEnds s := by
  rw [unquoted_eq_iff]
  constructor
  · rintro ⟨_, _, _, _, hends⟩
    exact hends
  · intro hends
    exact ⟨[], [], by simp, List.forall_mem_nil _, hends⟩

/-- The delimiters count as quotes of the content. -/
theorem unquoted_literal {q : Char} (hq : isQuote q = true) (content : String) :
    unquoted (literal q content) = unquoted content := by
  obtain ⟨before, after, hcontent, hquotes, hends⟩ := unquoted_eq_iff.mp (Eq.refl (unquoted content))
  refine unquoted_eq_iff.mpr ⟨q :: before, after ++ [q], ?_, fun a ha => ?_, hends⟩
  · rw [literal, String.toList_ofList, hcontent]
    simp
  · have hmem : a = q ∨ a ∈ before ++ after := by
      simp only [List.mem_append, List.mem_cons, List.not_mem_nil, or_false] at ha ⊢
      tauto
    rcases hmem with rfl | hmem
    · exact hq
    · exact hquotes a hmem

/-! ### Keys -/

variable {key : Tree} {q : Char} {content x : String}

/-- The literal that a key is computed from is looked for among the items. -/
theorem find?_literal_eq (key : Tree) :
    key.children.find? (fun c => c.kind == .string || c.kind == .number) =
      key.items.find? fun c => c.kind == .string || c.kind == .number := by
  rw [items, List.find?_filter]
  congr 1
  funext c
  by_cases hk : (c.kind == .string || c.kind == .number) = true
  · have hitem : (c.isNamed && !c.isComment) = true := by
      rw [Bool.or_eq_true, beq_iff_eq, beq_iff_eq] at hk
      rw [isNamed, isComment]
      rcases hk with hk | hk <;> rw [hk] <;> rfl
    simp [hk, hitem]
  · simp [hk]

theorem propertyName?_of_isLiteral (h : key.IsLiteral q content) :
    key.propertyName? = some (unquoted (literal q content)) := by
  cases h with
  | direct kind text => rw [propertyName?, kind, text]
  | computed kind only kind_inner text =>
    have hfind := key.find?_literal_eq
    rw [only, List.find?_cons_of_pos (by simp [kind_inner])] at hfind
    simp only [propertyName?, kind, hfind, kind_inner, text]
    rfl

theorem propertyName?_of_identifier (hkind : key.kind ∈ [.propertyIdentifier,
    .privatePropertyIdentifier, .shorthandPropertyIdentifier, .identifier, .typeIdentifier]) :
    key.propertyName? = some key.text := by
  simp only [List.mem_cons, List.not_mem_nil, or_false] at hkind
  rcases hkind with hk | hk | hk | hk | hk <;> rw [propertyName?, hk]

theorem propertyName?_of_spells (h : key.Spells x) (hends : HasBareEnds x) :
    key.propertyName? = some x := by
  cases h with
  | identifier kind text => rw [propertyName?_of_identifier kind, text]
  | literal q quote h =>
    rw [propertyName?_of_isLiteral h, unquoted_literal quote, unquoted_eq_self_iff.mpr hends]

/-- **The name of a string key is its content, unless that begins or ends with a quote.** The name is
always what is left of the content without the quotes at its ends, of either kind and however many,
whether the key is the string or is computed from it. So it is the content exactly if there are none,
and then an identifier and all ways to write it as a string give the same name. -/
theorem propertyName?_eq_content_iff (content : String) :
    (∀ q ∈ ['\x22', '\x27'], ∀ key, IsLiteral q content key →
      (∀ name, key.propertyName? = some name ↔ ∃ before after,
        content.toList = before ++ name.toList ++ after ∧
          (∀ a ∈ before ++ after, isQuote a = true) ∧ HasBareEnds name) ∧
      (key.propertyName? = some content ↔ content = "" ∨ HasBareEnds content)) ∧
    (content = "" ∨ HasBareEnds content → ∀ key, Spells content key →
      key.propertyName? = some content) := by
  have hends : content = "" ∨ HasBareEnds content ↔ HasBareEnds content := by
    refine or_iff_right_of_imp ?_
    rintro rfl
    exact ⟨by simp, by simp⟩
  rw [hends]
  refine ⟨fun q hq key hkey => ?_, fun h key hkey => propertyName?_of_spells hkey h⟩
  have hquote : isQuote q = true := by simpa [isQuote] using hq
  rw [propertyName?_of_isLiteral hkey, unquoted_literal hquote]
  constructor
  · intro name
    rw [Option.some.injEq, unquoted_eq_iff]
  · rw [Option.some.injEq, unquoted_eq_self_iff]

/-- A quote inside of the content stays. One that is escaped at its end is lost, also in a computed
key with a comment. -/
theorem propertyName?_eq_content_iff_of_escape :
    let token (s : String) : Tree := .leaf none .token ⟨"", s, false⟩
    let string (s : String) : Tree := .leaf none .string ⟨"", s, false⟩
    let computed (s : String) : Tree := .node (some .name) .computedPropertyName
      [token "[", .leaf none .comment ⟨"", "/*c*/", false⟩, string s, token "]"]
    let x : Tree := .leaf (some .key) .propertyIdentifier ⟨"", "x", false⟩
    (string "\"a'b\"").propertyName? = some "a'b" ∧
    (computed "'a\\''").propertyName? ≠ some "a\\'" ∧
    (computed "'a\\''").propertyName? = some "a\\" ∧
    ∀ key ∈ [x, string "'x'", string "\"x\"", computed "'x'", computed "\"x\""],
      key.propertyName? = some "x" := by
  intro token string computed x
  have hstring (q : Char) (content : String) : IsLiteral q content (string (literal q content)) :=
    .direct rfl rfl
  have hcomputed (q : Char) (content : String) :
      IsLiteral q content (computed (literal q content)) := .computed rfl rfl rfl rfl
  have hinside := (propertyName?_eq_content_iff "a'b").1 '\x22' (by simp) _ (hstring _ _)
  have hescaped := (propertyName?_eq_content_iff "a\\'").1 '\x27' (by simp) _ (hcomputed _ _)
  have hspelled := (propertyName?_eq_content_iff "x").2 (.inr (by decide))
  refine ⟨hinside.2.mpr (.inr (by decide)), fun h => ?_, (hescaped.1 _).mpr ?_, ?_⟩
  · exact absurd (hescaped.2.mp h) (by decide)
  · exact ⟨[], ['\x27'], by decide, List.forall_mem_singleton.mpr rfl, by decide⟩
  · intro key hkey
    apply hspelled
    simp only [List.mem_cons, List.not_mem_nil, or_false] at hkey
    rcases hkey with rfl | rfl | rfl | rfl | rfl
    · exact .identifier List.mem_cons_self rfl
    · exact .literal '\x27' rfl (hstring _ _)
    · exact .literal '\x22' rfl (hstring _ _)
    · exact .literal '\x27' rfl (hcomputed _ _)
    · exact .literal '\x22' rfl (hcomputed _ _)

end Tree

end ArityCheck
