import Mathlib.Data.List.Basic
import Mathlib.Data.List.TakeDrop
import Mathlib.Data.List.TakeWhile
import ArityCheck.Proofs.Grammar.Scan

/-! What the means of the grammar do to the text and the words of a tree.

A rule reads some part of the text, and the trees it gives hold that part, character for character,
after the text of whatever trees it goes on from. In a tree that is `Lined`, words and numbers stand
on one line, and a node that takes its name from the text of a child is named by a word. Both are so
of all trees which the grammar gives, since only `group` makes nodes and only lexemes make leaves. A
rule is judged by what holds of the text it reads and of the trees it gives, whatever the text is
and whatever the table holds, as long as the same is true of all that was put there (`Yields`). The
means of the grammar are instances of this judgement, so that the instance for a rule is found by
looking at how the rule is written. -/
namespace ArityCheck

/-! ### Trees -/

/-- What the text of a node of some kind counts for. -/
inductive Standing where
  /-- Marks, keywords and strings. -/
  | mark
  /-- Words and numbers. -/
  | word
  /-- Nodes that are named by the text of a child. -/
  | named
  | comment
  | plain

@[reducible] def Kind.standing : Kind → Standing
  | .token | .string => .mark
  | .identifier | .propertyIdentifier | .privatePropertyIdentifier | .shorthandPropertyIdentifier
  | .typeIdentifier | .number => .word
  | .functionDeclaration | .generatorFunctionDeclaration | .functionExpression | .generatorFunction
  | .functionSignature | .typeAliasDeclaration | .memberExpression => .named
  | .comment | .htmlComment => .comment
  | _ => .plain

/-- The roles in which a child can name a node. -/
@[reducible] def Role.isNaming : Role → Bool
  | .name | .property => true
  | _ => false

theorem Kind.isLexeme_of_standing {k : Kind} (h : k.standing = .word) : k.isLexeme = true := by
  cases k <;> simp [isLexeme, standing] at h ⊢

theorem Kind.standing_of_namedBy {k : Kind} {r : Role} (h : k.namedBy = some r) :
    k.standing = .named ∧ r.isNaming = true := by
  cases k <;> simp [namedBy, standing] at h ⊢ <;> subst h <;> rfl

namespace Tree

/-- In a role that can name its parent, the tree is a word. -/
def IsFree (t : Tree) : Prop := t.role.any Role.isNaming = true → t.kind.standing = .word

/-- The words in the tree stand on one line, and whatever can name a node of it that is named by a
child is a word. -/
inductive Lined : Tree → Prop
  | leaf {r : Option Role} {k : Kind} {token : Token}
      (h : k.standing = .word → '\n' ∉ token.text.toList) : Lined (.leaf r k token)
  | node {r : Option Role} {k : Kind} {cs : List Tree}
      (hkind : k.standing = .named ∨ k.standing = .plain) (hchildren : ∀ c ∈ cs, Lined c)
      (hnames : k.standing = .named → ∀ c ∈ cs, c.IsFree) : Lined (.node r k cs)

variable {t : Tree} {ts us : List Tree}

@[simp] theorem kind_withRole (r : Role) (t : Tree) : (t.withRole r).kind = t.kind := by
  cases t <;> rfl

@[simp] theorem role_withRole (r : Role) (t : Tree) : (t.withRole r).role = some r := by
  cases t <;> rfl

theorem fullText_withRole (r : Role) (t : Tree) : (t.withRole r).fullText = t.fullText := by
  cases t <;> rw [withRole, fullText, fullText]

theorem Lined.withRole (h : t.Lined) (r : Role) : (t.withRole r).Lined := by
  cases h with
  | leaf h => exact .leaf h
  | node hkind hchildren hnames => exact .node hkind hchildren hnames

theorem Lined.isNamedByLexemes (h : t.Lined) : t.isNamedByLexemes = true := by
  induction h with
  | leaf => rw [Tree.isNamedByLexemes]
  | node hkind hchildren hnames ih =>
    rw [Tree.isNamedByLexemes, areNamedByLexemes_iff]
    refine fun c hc => ⟨fun r hrole hk => ?_, ih c hc⟩
    obtain ⟨hnamed, hnaming⟩ := Kind.standing_of_namedBy hk
    exact Kind.isLexeme_of_standing (hnames hnamed c hc (by rwa [hrole, Option.any_some]))

theorem isFree_of_role_eq_none (h : t.role = none) : t.IsFree := by
  intro hrole
  rw [h] at hrole
  cases hrole

theorem standing_of_isComment (h : t.isComment = true) : t.kind.standing = .comment := by
  rw [isComment] at h
  cases hk : t.kind <;> simp [hk, Kind.isComment, Kind.standing] at h ⊢

theorem fullTexts_append (ts us : List Tree) :
    fullTexts (ts ++ us) = fullTexts ts ++ fullTexts us := by
  induction ts with
  | nil => rw [List.nil_append, fullTexts, String.empty_append]
  | cons t ts ih => rw [List.cons_append, fullTexts, fullTexts, ih, String.append_assoc]

theorem fullTexts_singleton (t : Tree) : fullTexts [t] = t.fullText := by
  rw [fullTexts, fullTexts, String.append_empty]

end Tree

/-! ### Lists of trees -/

open ArityCheck.Tree

/-- How far trees may serve as children. -/
inductive Grade where
  /-- Of a node that is not named by a child. -/
  | any
  /-- Of every node. -/
  | free
  /-- Of every node, and the last of them is no comment, so it may get any role. -/
  | firm
  /-- Of every node, also if the last of them, a word, gets any role. -/
  | word

/-- What the last of the trees counts for. -/
def Grade.Ends : Grade → Standing → Prop
  | .any, _ | .free, _ => True
  | .firm, s => s ≠ .comment
  | .word, s => s = .word

/-- The trees in the list are of a grade. -/
class AllMeet (g : Grade) (ts : List Tree) : Prop where
  lined : ∀ t ∈ ts, t.Lined
  free : ∀ t ∈ ts, (g = .any → t.kind.standing = .comment) → t.IsFree
  ends : ∀ t ∈ ts.getLast?, g.Ends t.kind.standing

/-- Lists of trees of a grade. The search for instances carries no hypotheses along, so what was
read comes with its grade. -/
abbrev Graded (g : Grade) : Type := { ts : List Tree // AllMeet g ts }

/-- The text that the trees hold, as the search for instances finds it. -/
class HasText (ts : List Tree) (text : String) : Prop where
  eq : fullTexts ts = text

/-- Two terms that are equal by evaluation, as the search for instances does it. -/
class Is {α : Type} (a b : α) : Prop where
  eq : a = b

instance is_refl {α : Type} (a : α) : Is a a := ⟨rfl⟩

namespace Grammar

variable {g : Grade} {ts us : List Tree} {text text' : String} {k : Kind} {r : Role}

instance allMeet_val (ts : Graded g) : AllMeet g ts.val := ts.property

instance allMeet_nil : AllMeet g [] := ⟨by simp, by simp, by simp⟩

instance allMeet_append [hts : AllMeet g ts] [hus : AllMeet g us] : AllMeet g (ts ++ us) where
  lined := List.forall_mem_append.mpr ⟨hts.lined, hus.lined⟩
  free := List.forall_mem_append.mpr ⟨hts.free, hus.free⟩
  ends t ht := by
    rw [List.getLast?_append, Option.mem_def, Option.or_eq_some_iff] at ht
    rcases ht with ht | ⟨-, ht⟩
    · exact hus.ends t ht
    · exact hts.ends t ht

instance (priority := low) allMeet_firm [h : AllMeet .word ts] : AllMeet .firm ts where
  lined := h.lined
  free t ht _ := h.free t ht (by simp)
  ends t ht := by
    have hword : t.kind.standing = .word := h.ends t ht
    simp [Grade.Ends, hword]

instance (priority := low) allMeet_free [h : AllMeet .firm ts] : AllMeet .free ts :=
  ⟨h.lined, fun t ht _ => h.free t ht (by simp), fun _ _ => trivial⟩

instance (priority := low) allMeet_any [h : AllMeet .free ts] : AllMeet .any ts :=
  ⟨h.lined, fun t ht _ => h.free t ht (by simp), fun _ _ => trivial⟩

instance allMeet_ite {c : Prop} [Decidable c] [AllMeet g ts] [AllMeet g us] :
    AllMeet g (if c then ts else us) := by
  split <;> assumption

instance hasText_fullTexts (ts : List Tree) : HasText ts (fullTexts ts) := ⟨rfl⟩

instance hasText_nil : HasText [] "" := ⟨by rw [fullTexts]⟩

instance hasText_append [hts : HasText ts text] [hus : HasText us text'] :
    HasText (ts ++ us) (text ++ text') :=
  ⟨by rw [fullTexts_append, hts.eq, hus.eq]⟩

instance hasText_append_nil [h : HasText ts text] : HasText (ts ++ []) text :=
  ⟨by rw [List.append_nil, h.eq]⟩

/-! Nodes. -/

theorem group_eq (k : Kind) (ts : List Tree) :
    group k ts = ts.takeWhile (·.isComment) ++ [.node none k (ts.dropWhile (·.isComment))] := by
  rw [group, List.span_eq_takeWhile_dropWhile]

/-- A node and the comments before it. -/
theorem allMeet_group (hkind : k.standing = .named ∨ k.standing = .plain) (h : AllMeet .any ts)
    (hnames : k.standing = .named → ∀ t ∈ ts, t.IsFree) : AllMeet .firm (group k ts) := by
  have hcomments : ∀ t ∈ ts.takeWhile (·.isComment), t ∈ ts := fun t => (List.takeWhile_subset _ ·)
  have hrest : ∀ t ∈ ts.dropWhile (·.isComment), t ∈ ts := fun t => (List.dropWhile_subset _ ·)
  rw [group_eq]
  refine ⟨?_, ?_, ?_⟩
  · rw [List.forall_mem_append, List.forall_mem_singleton]
    exact ⟨fun t ht => h.lined t (hcomments t ht), .node hkind (fun c hc => h.lined c (hrest c hc))
      fun hk c hc => hnames hk c (hrest c hc)⟩
  · rw [List.forall_mem_append, List.forall_mem_singleton]
    exact ⟨fun t ht _ => h.free t (hcomments t ht) fun _ =>
      standing_of_isComment (List.mem_takeWhile_imp ht), fun _ => isFree_of_role_eq_none rfl⟩
  · rw [List.getLast?_append, List.getLast?_singleton, Option.some_or]
    rintro t ⟨⟩
    rcases hkind with hk | hk <;> simp [Grade.Ends, Tree.kind, hk]

instance allMeet_group_plain [hk : Is k.standing .plain] [h : AllMeet .any ts] :
    AllMeet .firm (group k ts) :=
  allMeet_group (.inr hk.eq) h fun hnamed => by simp [hk.eq] at hnamed

instance allMeet_group_named [hk : Is k.standing .named] [h : AllMeet .free ts] :
    AllMeet .firm (group k ts) :=
  allMeet_group (.inl hk.eq) inferInstance fun _ t ht => h.free t ht (by simp)

instance allMeet_group_ite {c : Prop} [Decidable c] {k' : Kind} [AllMeet g (group k ts)]
    [AllMeet g (group k' ts)] : AllMeet g (group (if c then k else k') ts) := by
  split <;> assumption

theorem fullTexts_group (k : Kind) (ts : List Tree) : fullTexts (group k ts) = fullTexts ts := by
  rw [group_eq, fullTexts_append, fullTexts_singleton, fullText, ← fullTexts_append,
    List.takeWhile_append_dropWhile]

instance hasText_group [h : HasText ts text] : HasText (group k ts) text :=
  ⟨by rw [fullTexts_group, h.eq]⟩

/-! Roles. -/

theorem assign_append_singleton (r : Role) (ts : List Tree) (t : Tree) :
    assign r (ts ++ [t]) = ts ++ [t.withRole r] := by
  induction ts with
  | nil => rfl
  | cons u ts ih =>
    rw [List.cons_append, List.cons_append, ← ih]
    cases ts <;> rfl

/-- The last of the trees gets a role. -/
theorem allMeet_assign {g' : Grade} (h : AllMeet g ts) (hg : g = .any → g' = .any)
    (hends : ∀ t ∈ ts.getLast?, g'.Ends t.kind.standing)
    (hfree : ∀ t ∈ ts.getLast?, (g' = .any → t.kind.standing = .comment) → (t.withRole r).IsFree) :
    AllMeet g' (assign r ts) := by
  rcases ts.eq_nil_or_concat' with rfl | ⟨init, t, rfl⟩
  · exact allMeet_nil
  · rw [List.getLast?_append, List.getLast?_singleton, Option.some_or] at hends hfree
    have hlined := List.forall_mem_append.mp h.lined
    have hinit := (List.forall_mem_append.mp h.free).1
    rw [List.forall_mem_singleton] at hlined
    rw [assign_append_singleton]
    refine ⟨?_, ?_, ?_⟩
    · rw [List.forall_mem_append, List.forall_mem_singleton]
      exact ⟨hlined.1, hlined.2.withRole r⟩
    · rw [List.forall_mem_append, List.forall_mem_singleton, kind_withRole]
      exact ⟨fun u hu hcomment => hinit u hu fun hany => hcomment (hg hany), hfree t rfl⟩
    · rw [List.getLast?_append, List.getLast?_singleton, Option.some_or]
      rintro u ⟨⟩
      rw [kind_withRole]
      exact hends t rfl

instance allMeet_assign_same [hr : Is r.isNaming false] [h : AllMeet g ts] :
    AllMeet g (assign r ts) := by
  refine allMeet_assign h id h.ends fun t _ _ hnaming => ?_
  rw [role_withRole, Option.any_some, hr.eq] at hnaming
  cases hnaming

instance allMeet_assign_any [h : AllMeet .firm ts] : AllMeet .any (assign r ts) :=
  allMeet_assign h (by simp) (fun _ _ => trivial) fun t ht hcomment =>
    absurd (hcomment rfl) (h.ends t ht)

/-- **A word may get every role.** -/
instance allMeet_assign_word [h : AllMeet .word ts] : AllMeet .word (assign r ts) := by
  refine allMeet_assign h id h.ends fun t ht _ _ => ?_
  rw [kind_withRole]
  exact h.ends t ht

instance hasText_assign [h : HasText ts text] : HasText (assign r ts) text where
  eq := by
    rw [← h.eq]
    rcases ts.eq_nil_or_concat' with rfl | ⟨init, t, rfl⟩
    · rfl
    · rw [assign_append_singleton, fullTexts_append, fullTexts_append, fullTexts_singleton,
        fullTexts_singleton, fullText_withRole]

/-! ### The judgement -/

/-- Trees of a grade that hold the text of `before` and, after it, the text that was read. -/
structure Continues (g : Grade) (before text : String) (ts : List Tree) : Prop where
  meets : AllMeet g ts
  text : fullTexts ts = before ++ text

/-- All that the table holds is free, and holds the text from the index at which it was read to the
one that is kept with it. -/
def Memo.Faithful (m : Memo) (cs : Chars) : Prop :=
  ∀ i, ∀ e ∈ m.getD i [], ∀ trees j, e.2 = some (trees, j) →
    i ≤ j ∧ Continues .free "" (slice cs i j) trees

/-- Whatever is read, a condition holds of its text and the result, and the table stays faithful. -/
class Yields {α : Type} (x : Parse α) (Q : String → α → Prop) : Prop where
  run : ∀ s i m, m.Faithful s.chars → (x s i m).2.Faithful s.chars ∧
    ∀ a j, (x s i m).1 = some (a, j) → i ≤ j ∧ Q (slice s.chars i j) a

/-- The trees that a rule gives are of a grade, and hold what it reads after a text that was read
before. -/
abbrev Extends (g : Grade) (before : String) (x : Rule) : Prop := Yields x (Continues g before)

/-- The trees that a rule gives are of a grade, and hold what it reads. -/
abbrev Gives (g : Grade) (x : Rule) : Prop := Extends g "" x

/-- Nothing is read. -/
abbrev Still {α : Type} (x : Parse α) : Prop := Yields x fun text _ => text = ""

/-- The table stays faithful. -/
abbrev Safe {α : Type} (x : Parse α) : Prop := Yields x fun _ _ => True

section Means

variable {α β : Type} {P Q : String → α → Prop} {R : String → β → Prop} {x y : Parse α}
  {f : α → Parse β}

theorem Yields.mono (h : Yields x P) (himp : ∀ text a, P text a → Q text a) : Yields x Q where
  run s i m hm := by
    obtain ⟨hfaithful, hread⟩ := h.run s i m hm
    exact ⟨hfaithful, fun a j ha => ⟨(hread a j ha).1, himp _ a (hread a j ha).2⟩⟩

/-- The texts of two rules follow each other. -/
theorem Yields.bind (hx : Yields x P)
    (hf : ∀ text a, P text a → Yields (f a) fun rest b => R (text ++ rest) b) :
    Yields (x >>= f) R where
  run s i m hm := by
    have hread := hx.run s i m hm
    show (Parse.bind x f s i m).2.Faithful s.chars ∧ ∀ b k, (Parse.bind x f s i m).1 = some (b, k) →
      i ≤ k ∧ R (slice s.chars i k) b
    rw [Parse.bind]
    rcases hresult : x s i m with ⟨_ | ⟨a, j⟩, m'⟩
    · rw [hresult] at hread
      exact ⟨hread.1, by simp⟩
    · rw [hresult] at hread
      obtain ⟨hij, ha⟩ := hread.2 a j rfl
      obtain ⟨hfaithful, hrest⟩ := (hf _ a ha).run s j m' hread.1
      refine ⟨hfaithful, fun b k hb => ?_⟩
      obtain ⟨hjk, hb⟩ := hrest b k hb
      rw [slice_append_slice hij hjk] at hb
      exact ⟨Nat.le_trans hij hjk, hb⟩

/-- Between an index and itself stands no text. -/
theorem stays {cs : Chars} {i j : Nat} {a b : α} (h : Q "" a) (hb : some (a, i) = some (b, j)) :
    i ≤ j ∧ Q (slice cs i j) b := by
  obtain ⟨rfl, rfl⟩ := Prod.mk.inj (Option.some.inj hb)
  rw [slice_self]
  exact ⟨Nat.le_refl i, h⟩

theorem Yields.pure {a : α} (h : Q "" a) : Yields (Pure.pure a : Parse α) Q where
  run _ _ _ hm := ⟨hm, fun _ _ => stays h⟩

instance yields_failure : Yields (failure : Parse α) Q where
  run _ _ _ hm := ⟨hm, fun a j h => by cases h⟩

instance yields_orElse [hx : Yields x Q] [hy : Yields y Q] : Yields (x <|> y) Q where
  run s i m hm := by
    have hread := hx.run s i m hm
    show (Parse.orElse x (fun _ => y) s i m).2.Faithful s.chars ∧
      ∀ a j, (Parse.orElse x (fun _ => y) s i m).1 = some (a, j) → i ≤ j ∧ Q (slice s.chars i j) a
    rw [Parse.orElse]
    rcases hresult : x s i m with ⟨_ | ⟨a, j⟩, m'⟩
    · rw [hresult] at hread
      exact hy.run s i m' hread.1
    · rw [hresult] at hread
      exact hread

instance yields_ite {c : Prop} [Decidable c] [Yields x Q] [Yields y Q] :
    Yields (if c then x else y) Q := by
  split <;> assumption

/-! ### Reading nothing -/

instance still_look (f : Source → Nat → α) : Still (Parse.look f) where
  run _ _ _ hm := ⟨hm, fun _ _ => stays (Q := fun text _ => text = "") rfl⟩

instance still_guard (c : Prop) [Decidable c] : Still (guard c : Parse Unit) := by
  unfold guard
  split
  · exact .pure rfl
  · exact yields_failure

/-- What comes after something that reads nothing. -/
theorem Yields.after_still {y : α → Parse β} (hx : Still x) (hy : ∀ a, Yields (y a) R) :
    Yields (x >>= y) R :=
  hx.bind fun text a htext => by
    simpa only [htext, String.empty_append] using hy a

instance still_bind [hx : Still x] [hf : ∀ a, Still (f a)] : Still (x >>= f) := hx.after_still hf

instance yields_seqRight {y : Parse β} [hx : Still x] [hy : Yields y R] : Yields (x *> y) R :=
  hx.after_still fun _ => hy

instance still_check (f : Source → Nat → Bool) : Still (Parse.check f) := by
  unfold Parse.check
  infer_instance

instance still_ahead [hx : Safe x] : Still (Parse.ahead x) where
  run s i m hm := by
    have hread := hx.run s i m hm
    rw [Parse.ahead]
    rcases hresult : x s i m with ⟨_ | ⟨a, j⟩, m'⟩
    · rw [hresult] at hread
      exact ⟨hread.1, by simp⟩
    · rw [hresult] at hread
      exact ⟨hread.1, fun _ _ => stays (Q := fun text _ => text = "") rfl⟩

instance still_notAhead [hx : Safe x] : Still (Parse.notAhead x) where
  run s i m hm := by
    have hread := hx.run s i m hm
    rw [Parse.notAhead]
    rcases hresult : x s i m with ⟨_ | ⟨a, j⟩, m'⟩
    · rw [hresult] at hread
      exact ⟨hread.1, fun _ _ => stays (Q := fun text _ => text = "") rfl⟩
    · rw [hresult] at hread
      exact ⟨hread.1, by simp⟩

/-! ### Reading again and again -/

theorem Yields.iterateUpTo {step : α → Parse α}
    (hstep : ∀ text a, Q text a → Yields (step a) fun rest b => Q (text ++ rest) b) (n : Nat)
    {text : String} {a : α} (h : Q text a) :
    Yields (Parse.iterateUpTo step n a) fun rest b => Q (text ++ rest) b := by
  induction n generalizing text a with
  | zero => exact .pure (by rwa [String.append_empty])
  | succ n ih =>
    refine ⟨fun s i m hm => ?_⟩
    have hread := (hstep text a h).run s i m hm
    have hstop {m' : Memo} (hm' : m'.Faithful s.chars) : m'.Faithful s.chars ∧
        ∀ b j, some (a, i) = some (b, j) → i ≤ j ∧ Q (text ++ slice s.chars i j) b :=
      ⟨hm', fun _ _ => stays (Q := fun rest b => Q (text ++ rest) b) (by rwa [String.append_empty])⟩
    rcases hresult : step a s i m with ⟨_ | ⟨b, j⟩, m'⟩
    · rw [hresult] at hread
      simp only [Parse.iterateUpTo, hresult]
      exact hstop hread.1
    · rw [hresult] at hread
      simp only [Parse.iterateUpTo, hresult]
      split
      · obtain ⟨hij, hb⟩ := hread.2 b j rfl
        obtain ⟨hfaithful, hrest⟩ := (ih hb).run s j m' hread.1
        refine ⟨hfaithful, fun c k hc => ?_⟩
        obtain ⟨hjk, hc⟩ := hrest c k hc
        rw [String.append_assoc, slice_append_slice hij hjk] at hc
        exact ⟨Nat.le_trans hij hjk, hc⟩
      · exact hstop hread.1

/-- **What a step keeps holds after all of them.** -/
theorem Yields.iterate {step : α → Parse α} {a : α} (h : Q "" a)
    (hstep : ∀ text a, Q text a → Yields (step a) fun rest b => Q (text ++ rest) b) :
    Yields (Parse.iterate step a) Q where
  run s i m hm := by
    have hrounds := (Yields.iterateUpTo hstep (s.chars.size - i + 1) h).run s i m hm
    simp only [String.empty_append] at hrounds
    exact hrounds

end Means

/-! ### Rules -/

section Rules

variable {α : Type} {g' : Grade} {Q : String → α → Prop} {before outer inner : String}
  {x y : Rule} {xs : List Rule} {f : List Tree → Rule}

/-- A rule gives what its trees are also good for. -/
theorem Extends.of_meets (h : Extends g before x) (himp : ∀ ts, AllMeet g ts → AllMeet g' ts) :
    Extends g' before x :=
  h.mono fun _ ts hts => ⟨himp ts hts.meets, hts.text⟩

instance (priority := low) extends_firm [h : Extends .word before x] : Extends .firm before x :=
  h.of_meets fun _ _ => inferInstance

instance (priority := low) extends_free [h : Extends .firm before x] : Extends .free before x :=
  h.of_meets fun _ _ => inferInstance

instance (priority := low) extends_any [h : Extends .free before x] : Extends .any before x :=
  h.of_meets fun _ _ => inferInstance

instance (priority := low) safe_rule [h : Gives .any x] : Safe x := h.mono fun _ _ _ => trivial

instance extends_pure [htext : HasText ts before] [hts : AllMeet g ts] :
    Extends g before (pure ts) :=
  .pure ⟨hts, by rw [htext.eq, String.append_empty]⟩

/-- A rule goes on from trees that were read after something else. -/
theorem Extends.bind (hx : Extends g' inner x)
    (hf : ∀ ts, AllMeet g' ts → Extends g (outer ++ fullTexts ts) (f ts)) :
    Extends g (outer ++ inner) (x >>= f) := by
  refine Yields.bind hx fun text ts hts => (hf ts hts.meets).mono fun rest us hus => ⟨hus.meets, ?_⟩
  simp only [hus.text, hts.text, String.append_assoc]

theorem Extends.bind_inner (hx : Extends g' before x)
    (hf : ∀ ts, AllMeet g' ts → Extends g (fullTexts ts) (f ts)) : Extends g before (x >>= f) := by
  have h : Extends g ("" ++ before) (x >>= f) := hx.bind fun ts hts => by
    rw [String.empty_append]
    exact hf ts hts
  rwa [String.empty_append] at h

theorem Gives.bind_outer (hx : Gives g' x)
    (hf : ∀ ts, AllMeet g' ts → Extends g (before ++ fullTexts ts) (f ts)) :
    Extends g before (x >>= f) := by
  have h := Extends.bind hx hf
  rwa [String.append_empty] at h

/-- The same where more than trees is made of what was read. -/
theorem Gives.yields_bind {f : List Tree → Parse α} (hx : Gives g x)
    (hf : ∀ ts, AllMeet g ts → Yields (f ts) fun rest a => Q (fullTexts ts ++ rest) a) :
    Yields (x >>= f) Q := by
  refine Yields.bind hx fun text ts hts => ?_
  have hrest := hf ts hts.meets
  rwa [hts.text, String.empty_append] at hrest

/-- The same where more than trees was read. -/
theorem Yields.bind_extends {x : Parse α} {P : α → Prop} {trees : α → List Tree} {f : α → Rule}
    (hx : Yields x fun text a => P a ∧ fullTexts (trees a) = text)
    (hf : ∀ a, P a → Extends g (before ++ fullTexts (trees a)) (f a)) :
    Extends g before (x >>= f) := by
  refine Yields.bind hx fun text a ha => (hf a ha.1).mono fun rest ts hts => ⟨hts.meets, ?_⟩
  rw [hts.text, ha.2, String.append_assoc]

instance (priority := high) extends_bind_firm [hx : Extends .firm before x]
    [hf : ∀ ts : Graded .firm, Extends g (fullTexts ts.val) (f ts.val)] :
    Extends g before (x >>= f) :=
  hx.bind_inner fun ts hts => hf ⟨ts, hts⟩

instance extends_bind_inner [hx : Extends .free before x]
    [hf : ∀ ts : Graded .free, Extends g (fullTexts ts.val) (f ts.val)] :
    Extends g before (x >>= f) :=
  hx.bind_inner fun ts hts => hf ⟨ts, hts⟩

instance (priority := 900) extends_bind_outer [hx : Gives .free x]
    [hf : ∀ ts : Graded .free, Extends g (before ++ fullTexts ts.val) (f ts.val)] :
    Extends g before (x >>= f) :=
  Gives.bind_outer hx fun ts hts => hf ⟨ts, hts⟩

instance (priority := 800) extends_bind [hx : Extends .free inner x]
    [hf : ∀ ts : Graded .free, Extends g (outer ++ fullTexts ts.val) (f ts.val)] :
    Extends g (outer ++ inner) (x >>= f) :=
  hx.bind fun ts hts => hf ⟨ts, hts⟩

instance (priority := 700) extends_bind_any [hx : Gives .any x]
    [hf : ∀ ts : Graded .any, Extends g (fullTexts ts.val) (f ts.val)] : Gives g (x >>= f) :=
  hx.bind_inner fun ts hts => hf ⟨ts, hts⟩

instance (priority := 600) extends_bind_outer_any [hx : Gives .any x]
    [hf : ∀ ts : Graded .any, Extends g (before ++ fullTexts ts.val) (f ts.val)] :
    Extends g before (x >>= f) :=
  Gives.bind_outer hx fun ts hts => hf ⟨ts, hts⟩

instance (priority := low) yields_bind_still {β : Type} {x : Parse β} {f : β → Parse α}
    [hx : Still x] [hf : ∀ b, Yields (f b) Q] : Yields (x >>= f) Q :=
  hx.after_still hf

instance extends_iterate {step : List Tree → Rule} [htext : HasText ts before]
    [hts : AllMeet g ts] [hstep : ∀ us : Graded g, Extends g (fullTexts us.val) (step us.val)] :
    Extends g before (Parse.iterate step ts) := by
  refine .iterate ⟨hts, by rw [htext.eq, String.append_empty]⟩ fun text us hus => ?_
  refine (hstep ⟨us, hus.meets⟩).mono fun rest vs hvs => ⟨hvs.meets, ?_⟩
  rw [hvs.text, hus.text, String.append_assoc]

instance gives_under_plain [hk : Is k.standing .plain] [hx : Gives .any x] :
    Gives .firm (under k x) :=
  hx.bind_inner fun _ _ => inferInstance

instance gives_under_named [hk : Is k.standing .named] [hx : Gives .free x] :
    Gives .firm (under k x) :=
  hx.bind_inner fun _ _ => inferInstance

instance gives_field [hr : Is r.isNaming false] [hx : Gives g x] : Gives g (field r x) :=
  hx.bind_inner fun _ _ => inferInstance

instance gives_field_any [hx : Gives .firm x] : Gives .any (field r x) :=
  hx.bind_inner fun _ _ => inferInstance

instance gives_field_word [hx : Gives .word x] : Gives .word (field r x) :=
  hx.bind_inner fun _ _ => inferInstance

instance gives_seq_nil : Gives g (seq []) := extends_pure

instance gives_seq_cons [hx : Gives g x] [hxs : Gives g (seq xs)] : Gives g (seq (x :: xs)) := by
  cases xs with
  | nil => exact hx
  | cons y xs =>
    exact hx.bind_inner fun _ _ => Gives.bind_outer hxs fun _ _ => inferInstance

instance yields_choice_nil {Q : String → List Tree → Prop} : Yields (choice []) Q := yields_failure

instance yields_choice_cons {Q : String → List Tree → Prop} [hx : Yields x Q]
    [hxs : Yields (choice xs) Q] : Yields (choice (x :: xs)) Q := by
  cases xs with
  | nil => exact hx
  | cons y xs => exact @yields_orElse _ _ _ _ hx hxs

instance yields_choice_map {Q : String → List Tree → Prop} {ws : List α} {h : α → Rule}
    [hx : ∀ w, Yields (h w) Q] : Yields (choice (ws.map h)) Q := by
  induction ws with
  | nil => exact yields_choice_nil
  | cons w ws ih => exact yields_choice_cons

instance gives_opt [Gives g x] : Gives g (opt x) := by
  unfold opt
  infer_instance

instance gives_repeated [hx : Gives g x] : Gives g (repeated x) := by
  have hmany : Yields (Parse.many x) fun text found => Continues g "" text found.flatten := by
    -- What was read last comes first until the end.
    refine Yields.bind (P := fun text done => Continues g "" text done.reverse.flatten)
      (.iterate ⟨allMeet_nil, hasText_nil.eq⟩ fun text done hdone => ?_) fun text done hdone =>
      .pure (by rwa [String.append_empty])
    refine Yields.bind hx fun rest ts hts => .pure ?_
    have hmeets := hdone.meets
    have hlast := hts.meets
    rw [List.reverse_cons, List.flatten_append, List.flatten_singleton, String.append_empty]
    refine ⟨inferInstance, ?_⟩
    rw [fullTexts_append, hdone.text, hts.text, String.empty_append, String.empty_append,
      String.empty_append]
  refine Yields.bind hmany fun text found hfound => .pure ?_
  rwa [String.append_empty]

instance gives_sepBy1 [hx : Gives g x] [Gives g y] : Gives g (sepBy1 y x) :=
  hx.bind_inner fun _ _ => Gives.bind_outer (inferInstance : Gives g (repeated (seq [y, x])))
    fun _ _ => inferInstance

instance yields_whenTyped {Q : String → List Tree → Prop} [hx : Yields x Q] :
    Yields (whenTyped x) Q := by
  unfold whenTyped typed
  infer_instance

end Rules

/-! ### Lexemes -/

section Lexemes

variable {cs : Chars} {i start : Nat} {stop? : Chars → Nat → Option Nat} {p : String → Bool}
  {x : Rule} {t : Tree} {token : Token}

theorem allMeet_leaf (hline : k.standing = .word → '\n' ∉ token.text.toList)
    (hg : g.Ends k.standing) : AllMeet g [.leaf none k token] where
  lined := List.forall_mem_singleton.mpr (.leaf hline)
  free := List.forall_mem_singleton.mpr fun _ => isFree_of_role_eq_none rfl
  ends := by
    rintro t ⟨⟩
    exact hg

/-- The last of the trees decides on the grade. -/
theorem allMeet_concat (hts : AllMeet .free ts) (ht : AllMeet g [t]) : AllMeet g (ts ++ [t]) where
  lined := List.forall_mem_append.mpr ⟨hts.lined, ht.lined⟩
  free := List.forall_mem_append.mpr ⟨fun u hu _ => hts.free u hu (by simp), ht.free⟩
  ends := by
    rw [List.getLast?_append, List.getLast?_singleton, Option.some_or]
    exact ht.ends

theorem continues_comments_go (n : Nat) {done : List Tree} (hi : start ≤ i)
    (h : Continues .free "" (slice cs start i) done.reverse) :
    start ≤ (commentsBefore.go cs n i done).2 ∧
      Continues .free "" (slice cs start (commentsBefore.go cs n i done).2)
        (commentsBefore.go cs n i done).1 := by
  induction n generalizing i done with
  | zero => exact ⟨hi, h⟩
  | succ n ih =>
    rw [commentsBefore.go]
    have hblanks := le_skipBlanks cs i
    split
    · rename_i k hk
      have hcomment := le_commentEnd? hk
      refine ih (by omega) ⟨?_, ?_⟩
      · rw [List.reverse_cons]
        exact allMeet_concat h.meets (allMeet_leaf (by simp) trivial)
      · rw [List.reverse_cons, fullTexts_append, fullTexts_singleton, fullText, h.text,
          slice_append_slice hblanks hcomment, String.append_assoc,
          slice_append_slice hi (by omega)]
    · exact ⟨hi, h⟩

/-- The comments before a lexeme hold the text up to its blanks. -/
theorem continues_commentsBefore (cs : Chars) (i : Nat) : i ≤ (commentsBefore cs i).2 ∧
    Continues .free "" (slice cs i (commentsBefore cs i).2) (commentsBefore cs i).1 :=
  continues_comments_go _ (Nat.le_refl i) ⟨allMeet_nil, by rw [slice_self]; exact hasText_nil.eq⟩

theorem skipTrivia_go (n i : Nat) (done : List Tree) :
    skipTrivia.go cs n i = skipBlanks cs (commentsBefore.go cs n i done).2 := by
  induction n generalizing i done with
  | zero => rfl
  | succ n ih =>
    cases hend : commentEnd? cs (skipBlanks cs i) with
    | some k =>
      simp only [commentsBefore.go, skipTrivia.go, hend]
      exact ih k _
    | none => simp only [commentsBefore.go, skipTrivia.go, hend]

/-- A lexeme begins after its blanks. -/
theorem skipTrivia_eq (cs : Chars) (i : Nat) :
    skipTrivia cs i = skipBlanks cs (commentsBefore cs i).2 :=
  skipTrivia_go _ i []

/-- **A lexeme and the comments before it hold the text up to its end.** -/
theorem gives_lexeme (hle : ∀ {cs i j}, stop? cs i = some j → i ≤ j)
    (hline : k.standing = .word → ∀ {cs i j}, stop? cs i = some j → OneLine cs i j)
    (hg : g.Ends k.standing) : Gives g (lexeme k stop?) where
  run s i m hm := by
    rw [lexeme]
    split
    · exact ⟨hm, fun a j h => by cases h⟩
    · rename_i stop hstop
      refine ⟨hm, fun trees j h => ?_⟩
      obtain ⟨rfl, rfl⟩ := Prod.mk.inj (Option.some.inj h)
      obtain ⟨hgap, hcomments⟩ := continues_commentsBefore s.chars i
      have hstart := le_skipBlanks s.chars (commentsBefore s.chars i).2
      rw [← skipTrivia_eq] at hstart
      have hlexeme := hle hstop
      refine ⟨by omega, allMeet_concat hcomments.meets
        (allMeet_leaf (fun hk => (hline hk hstop).not_mem_slice) hg), ?_⟩
      rw [fullTexts_append, fullTexts_singleton, fullText, hcomments.text,
        slice_append_slice hstart hlexeme, String.append_assoc,
        slice_append_slice hgap (by omega)]

theorem gives_rawText [hstop : Advances stop?] (hk : k.standing ≠ .word)
    (hg : g.Ends k.standing) : Gives g (rawText k stop?) where
  run s i m hm := by
    rw [rawText]
    split
    · exact ⟨hm, fun a j h => by cases h⟩
    · rename_i stop hread
      refine ⟨hm, fun trees j h => ?_⟩
      obtain ⟨rfl, rfl⟩ := Prod.mk.inj (Option.some.inj h)
      refine ⟨hstop.le hread, allMeet_leaf (fun hword => absurd hword hk) hg, ?_⟩
      rw [fullTexts_singleton, fullText]

instance gives_lexeme_mark [hk : Is k.standing .mark] [hstop : Advances stop?] :
    Gives .firm (lexeme k stop?) :=
  gives_lexeme hstop.le (by simp [hk.eq]) (by simp [Grade.Ends, hk.eq])

instance gives_lexeme_plain [hk : Is k.standing .plain] [hstop : Advances stop?] :
    Gives .firm (lexeme k stop?) :=
  gives_lexeme hstop.le (by simp [hk.eq]) (by simp [Grade.Ends, hk.eq])

instance gives_lexeme_comment [hk : Is k.standing .comment] [hstop : Advances stop?] :
    Gives .free (lexeme k stop?) :=
  gives_lexeme hstop.le (by simp [hk.eq]) trivial

instance gives_rawText_mark [hk : Is k.standing .mark] [Advances stop?] :
    Gives .firm (rawText k stop?) :=
  gives_rawText (by simp [hk.eq]) (by simp [Grade.Ends, hk.eq])

instance gives_rawText_plain [hk : Is k.standing .plain] [Advances stop?] :
    Gives .firm (rawText k stop?) :=
  gives_rawText (by simp [hk.eq]) (by simp [Grade.Ends, hk.eq])

theorem gives_lexeme_of_oneLine (hline : ∀ {cs i j}, stop? cs i = some j → OneLine cs i j)
    (hg : g.Ends k.standing) : Gives g (lexeme k stop?) :=
  gives_lexeme (fun h => (hline h).le) (fun _ => hline) hg

/-- **A word stands on one line.** -/
theorem gives_word_of_ends (hg : g.Ends k.standing) : Gives g (word k p) := by
  refine gives_lexeme_of_oneLine (fun {cs i j} h => ?_) hg
  split at h
  · rename_i stop hstop
    split at h
    · obtain rfl := Option.some.inj h
      exact oneLine_wordEnd? hstop
    · cases h
  · cases h

instance gives_word_mark [hk : Is k.standing .mark] : Gives .firm (word k p) :=
  gives_word_of_ends (by simp [Grade.Ends, hk.eq])

instance gives_word_plain [hk : Is k.standing .plain] : Gives .firm (word k p) :=
  gives_word_of_ends (by simp [Grade.Ends, hk.eq])

instance gives_word [hk : Is k.standing .word] : Gives .word (word k p) := gives_word_of_ends hk.eq

instance gives_privateName : Gives .word privateName := by
  refine gives_lexeme_of_oneLine (fun {cs i j} h => ?_) rfl
  split at h
  · rename_i hsign
    exact .cons (beq_iff_eq.mp hsign) (by decide) (oneLine_wordEnd? h)
  · cases h

instance gives_number : Gives .word number := gives_lexeme_of_oneLine oneLine_numberEnd? rfl

instance gives_mark (s : String) : Gives .firm (mark s) := gives_lexeme_mark

instance gives_operator (op : String) : Gives .firm (operator op) := by
  refine @gives_lexeme_mark _ _ _ ⟨fun h => ?_⟩
  split at h
  · exact (advances_literal? op).le h
  · cases h

instance gives_keyword (w : String) : Gives .firm (keyword w) := gives_word_mark

instance gives_string : Gives .firm string := gives_lexeme_mark

instance gives_identifier : Gives .word identifier := gives_word

instance gives_typeName : Gives .word typeName := gives_word

instance gives_propertyWord : Gives .word propertyWord := gives_word

instance gives_htmlComments : Gives .free htmlComments := gives_repeated

instance gives_openBrace : Gives .firm openBrace := gives_mark _

instance gives_closeBrace : Gives .firm closeBrace := gives_mark _

instance gives_comma : Gives .firm comma := gives_mark _

instance still_ending (inExpression beforeBody : Bool) : Still (ending inExpression beforeBody) :=
  still_check _

instance still_notEnding (inExpression : Bool) : Still (notEnding inExpression) := still_check _

instance still_sameLine : Still sameLine := still_check _

instance still_nextChar : Still nextChar := still_look _

instance still_nextWord : Still nextWord := still_look _

instance still_nextOperator : Still nextOperator := still_look _

instance still_typed : Still typed := still_look _

instance still_markup : Still markup := still_look _

instance gives_semicolon (inExpression : Bool) : Gives .firm (semicolon inExpression) := by
  unfold semicolon
  infer_instance

instance gives_sparseList [Gives g comma] [Gives g x] : Gives g (sparseList x) := by
  unfold sparseList
  infer_instance

instance gives_commaList [Gives g comma] [Gives g x] : Gives g (commaList x) := by
  unfold commaList
  infer_instance

end Lexemes

end Grammar

end ArityCheck
