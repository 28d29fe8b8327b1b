import ArityCheck.Proofs.Json.Lexemes
import ArityCheck.Proofs.Text.Replace
import ArityCheck.Rule.Basic

/-! Messages, and what the name in them does to the other fields.

The fields of a template are filled in one after the other, the name first, so the other two are
also looked for in the name. Between the name and the rest of a template stands a blank, which no
field holds: what becomes of the name and what becomes of the rest can be told apart
(`render_template`). The numbers bring in no braces, so a name that changes at all loses some of its
own, and the message is then not the one that was meant (`filledName_eq_iff`). -/
namespace ArityCheck

open Text

/-! ### Templates -/

namespace RuleKind

/-- What a template says between the name and the count, after the blank that it begins with. -/
def words : RuleKind → String
  | .arguments => "has been called with too many arguments ("
  | .parameters => "has too many params ("

/-- What follows the name in a message. -/
def rest (kind : RuleKind) (count max : List Char) : List Char :=
  ' ' :: (kind.words.toList ++
    (count ++ ("). Maximum allowed is (".toList ++ (max ++ ").".toList))))

/-- The message as it is meant, with the name and the numbers put between the words. -/
def sentence (kind : RuleKind) (name : String) (count max : Nat) : String :=
  name ++ " " ++ kind.words ++ toString count ++ "). Maximum allowed is (" ++ toString max ++ ")."

theorem toList_sentence (kind : RuleKind) (name : String) (count max : Nat) :
    (kind.sentence name count max).toList =
      name.toList ++ kind.rest (toString count).toList (toString max).toList := by
  simp [sentence, rest]

theorem brace_not_mem_words (kind : RuleKind) : '\x7b' ∉ kind.words.toList := by
  cases kind <;> decide

end RuleKind

namespace Excess

def nameField : List Char := "\x7b\x7bname\x7d\x7d".toList

def countField : List Char := "\x7b\x7bcount\x7d\x7d".toList

def maxField : List Char := "\x7b\x7bmax\x7d\x7d".toList

theorem toList_template (kind : RuleKind) :
    kind.template.toList = nameField ++ kind.rest countField maxField := by
  cases kind <;> decide

theorem not_mem_toString {c : Char} (hc : c.isDigit = false) (n : Nat) :
    c ∉ (toString n).toList := by
  intro h
  have hdigit := Json.isDigit_of_mem_toString h
  rw [hc] at hdigit
  exact Bool.false_ne_true hdigit

theorem brace_not_mem_toString (n : Nat) : '\x7b' ∉ (toString n).toList :=
  not_mem_toString (by decide) n

/-! ### One field after the other -/

theorem replace_name (kind : RuleKind) (name : List Char) :
    replaceAfter nameField name 0 kind.template.toList =
      name ++ kind.rest countField maxField := by
  rw [toList_template, replaceAfter_pattern_append (by decide), replaceAfter_of_isPartOf_eq_false]
  cases kind <;> decide

theorem replace_count (kind : RuleKind) (name count : List Char) :
    replaceAfter countField count 0 (name ++ kind.rest countField maxField) =
      replaceAfter countField count 0 name ++ kind.rest count maxField := by
  have hafter : replaceAfter countField count 0
      ("). Maximum allowed is (".toList ++ (maxField ++ ").".toList)) = _ :=
    replaceAfter_of_isPartOf_eq_false _ (by decide)
  rw [RuleKind.rest, replaceAfter_append (by decide) (by decide) _ (Nat.zero_le _),
    replaceAfter_append_of_not_mem rfl kind.brace_not_mem_words, replaceAfter_pattern_append (by decide),
    hafter, RuleKind.rest]

theorem replace_max (kind : RuleKind) (name max : List Char) (count : Nat) :
    replaceAfter maxField max 0 (name ++ kind.rest (toString count).toList maxField) =
      replaceAfter maxField max 0 name ++ kind.rest (toString count).toList max := by
  have hafter : replaceAfter maxField max 0 ").".toList = _ :=
    replaceAfter_of_isPartOf_eq_false _ (by decide)
  rw [RuleKind.rest, replaceAfter_append (by decide) (by decide) _ (Nat.zero_le _),
    replaceAfter_append_of_not_mem rfl kind.brace_not_mem_words,
    replaceAfter_append_of_not_mem rfl (brace_not_mem_toString count),
    replaceAfter_append_of_not_mem rfl (by decide), replaceAfter_pattern_append (by decide), hafter,
    RuleKind.rest]

/-- The name as it stands in a message, with the numbers in place of their fields. -/
def filledName (e : Excess) : String :=
  replaceAll "\x7b\x7bmax\x7d\x7d" (toString e.max)
    (replaceAll "\x7b\x7bcount\x7d\x7d" (toString e.count) e.name)

theorem toList_filledName (e : Excess) :
    e.filledName.toList = replaceAfter maxField (toString e.max).toList 0
      (replaceAfter countField (toString e.count).toList 0 e.name.toList) := by
  rw [filledName, toList_replaceAll, toList_replaceAll]
  rfl

/-- **A message is the sentence about the name with its fields filled in.** -/
theorem render_template (e : Excess) (kind : RuleKind) :
    e.render kind.template = kind.sentence e.filledName e.count e.max := by
  rw [← String.toList_inj]
  calc (e.render kind.template).toList
    _ = replaceAfter maxField (toString e.max).toList 0
          (replaceAfter countField (toString e.count).toList 0
            (replaceAfter nameField e.name.toList 0 kind.template.toList)) := by
      rw [render, toList_replaceAll, toList_replaceAll, toList_replaceAll]
      rfl
    _ = e.filledName.toList ++
          kind.rest (toString e.count).toList (toString e.max).toList := by
      rw [replace_name, replace_count, replace_max, toList_filledName]
    _ = (kind.sentence e.filledName e.count e.max).toList := (kind.toList_sentence ..).symm

/-! ### Names with fields in them -/

/-- **A name stands in a message as it is exactly if no field of a number occurs in it.** Numbers
have no braces, so every field that is filled in takes some away. -/
theorem filledName_eq_iff (e : Excess) :
    e.filledName = e.name ↔ ¬countField <:+: e.name.toList ∧ ¬maxField <:+: e.name.toList := by
  rw [← String.toList_inj, toList_filledName]
  constructor
  · intro h
    have hcount := count_replaceAfter (show countField ≠ [] by decide)
      (brace_not_mem_toString e.count) e.name.toList
    have hmax := count_replaceAfter (show maxField ≠ [] by decide)
      (brace_not_mem_toString e.max)
      (replaceAfter countField (toString e.count).toList 0 e.name.toList)
    rw [h] at hmax
    have hnoCount : ¬countField <:+: e.name.toList := fun hinfix =>
      absurd hmax.1 (Nat.not_le_of_lt (hcount.2 (by decide) hinfix))
    refine ⟨hnoCount, fun hinfix => ?_⟩
    rw [replaceAfter_of_not_occurring _ hnoCount] at hmax
    exact Nat.lt_irrefl _ (hmax.2 (by decide) hinfix)
  · rintro ⟨hnoCount, hnoMax⟩
    rw [replaceAfter_of_not_occurring _ hnoCount, replaceAfter_of_not_occurring _ hnoMax]

theorem render_eq_sentence_iff (e : Excess) (kind : RuleKind) :
    e.render kind.template = kind.sentence e.name e.count e.max ↔
      ¬countField <:+: e.name.toList ∧ ¬maxField <:+: e.name.toList := by
  rw [← filledName_eq_iff, render_template, ← String.toList_inj, RuleKind.toList_sentence,
    RuleKind.toList_sentence, List.append_left_inj, String.toList_inj]

/-- **Filling in fields one after the other is plain interpolation exactly if the name has none of
the later fields in it.** Otherwise the numbers are put into the name as well. -/
theorem render_by_interpolation (name : String) (count max : Nat) :
    (render ⟨name, count, max⟩ RuleKind.arguments.template =
        name ++ " has been called with too many arguments (" ++ toString count ++
          "). Maximum allowed is (" ++ toString max ++ ")." ↔
      ¬"\x7b\x7bcount\x7d\x7d".toList <:+: name.toList ∧
        ¬"\x7b\x7bmax\x7d\x7d".toList <:+: name.toList) ∧
    (render ⟨name, count, max⟩ RuleKind.parameters.template =
        name ++ " has too many params (" ++ toString count ++
          "). Maximum allowed is (" ++ toString max ++ ")." ↔
      ¬"\x7b\x7bcount\x7d\x7d".toList <:+: name.toList ∧
        ¬"\x7b\x7bmax\x7d\x7d".toList <:+: name.toList) ∧
    ∀ kind : RuleKind, render ⟨name, count, max⟩ kind.template =
      kind.sentence (replaceAll "\x7b\x7bmax\x7d\x7d" (toString max)
        (replaceAll "\x7b\x7bcount\x7d\x7d" (toString count) name)) count max := by
  have hsentence : ∀ kind : RuleKind, kind.sentence name count max =
      name ++ (" " ++ kind.words) ++ toString count ++ "). Maximum allowed is (" ++ toString max ++
        ")." := by
    intro kind
    simp only [RuleKind.sentence, String.append_assoc]
  refine ⟨?_, ?_, fun kind => render_template ⟨name, count, max⟩ kind⟩
  · have h := render_eq_sentence_iff ⟨name, count, max⟩ .arguments
    rwa [hsentence] at h
  · have h := render_eq_sentence_iff ⟨name, count, max⟩ .parameters
    rwa [hsentence] at h

end Excess

end ArityCheck
