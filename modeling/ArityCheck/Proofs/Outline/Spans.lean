import ArityCheck.Proofs.Grammar.Program
import ArityCheck.Proofs.Outline.Document
import ArityCheck.Proofs.Source.Position

/-! Where the constructs of a text stand in it.

A tree keeps no positions; a cursor counts them as it goes, over the text of the nodes that it
leaves behind. `first_of_mem_preorder` says that the count is right: each node starts where the
text before it ends. `preorder_nested` says how two nodes lie to each other, the first one passed
before the second: one inside the other or one behind the other. `Outline.spans_follow_text` reads
both off the list of constructs, in bytes of the text alone. -/
namespace ArityCheck

open Text (bytes lineFeed bytes_append)

namespace Span

/-- The offset after the last byte. -/
def stop (s : Span) : Nat := s.offset + s.length

/-- The position at which the span begins. -/
def first (s : Span) : Position := ⟨s.offset, s.line, s.column⟩

/-- All bytes of `s` are bytes of `t`. -/
def Within (s t : Span) : Prop := t.offset ≤ s.offset ∧ s.stop ≤ t.stop

theorem Within.refl (s : Span) : s.Within s := ⟨Nat.le_refl _, Nat.le_refl _⟩

theorem Within.trans {s t u : Span} (hst : s.Within t) (htu : t.Within u) : s.Within u :=
  ⟨Nat.le_trans htu.1 hst.1, Nat.le_trans hst.2 htu.2⟩

end Span

theorem Tree.gap_append_text (t : Tree) : t.gap ++ t.text = t.fullText := by
  induction t using Tree.induction with
  | leaf r k token => rfl
  | node r k cs ih =>
    cases cs with
    | nil => rfl
    | cons c cs =>
      rw [gap, text, fullText, fullTexts, ← String.append_assoc, ih c List.mem_cons_self]

namespace Cursor

/-! ### The span of a node -/

theorem offset_span (c : Cursor) :
    c.span.offset = c.start.offset + (bytes c.focus.gap).length :=
  c.start.offset_advance c.focus.gap

theorem stop_span (c : Cursor) :
    c.span.stop = c.start.offset + (bytes c.focus.fullText).length := by
  have hstop : ((c.start.advance c.focus.gap).advance c.focus.text).offset =
      c.start.offset + (bytes c.focus.fullText).length := by
    rw [← Position.advance_append, Tree.gap_append_text, Position.offset_advance]
  have hle := Position.offset_advance (c.start.advance c.focus.gap) c.focus.text
  simp only [Span.stop, span, Span.between, hstop] at hle ⊢
  omega

/-- The gap of a tree is a part of its text. -/
theorem length_gap_le (t : Tree) : (bytes t.gap).length ≤ (bytes t.fullText).length := by
  rw [← t.gap_append_text, bytes_append, List.length_append]
  exact Nat.le_add_right _ _

variable (r : Option Role) (k : Kind) (t : Tree) (ts : List Tree) (start : Position)
  (path up : List Crumb)

/-- A first child begins where its parent does. -/
theorem span_head_within :
    (Cursor.mk t start path).span.Within (Cursor.mk (.node r k (t :: ts)) start up).span := by
  simp only [Span.Within, offset_span, stop_span, Tree.gap, Tree.fullText, Tree.fullTexts,
    bytes_append, List.length_append]
  omega

/-- The children after the first one lie behind it. -/
theorem stop_head_le_offset_tail :
    (Cursor.mk t start path).span.stop ≤
      (Cursor.mk (.node r k ts) (start.advance t.fullText) up).span.offset := by
  rw [offset_span, stop_span, Position.offset_advance]
  exact Nat.le_add_right _ _

theorem span_tail_within :
    (Cursor.mk (.node r k ts) (start.advance t.fullText) up).span.Within
      (Cursor.mk (.node r k (t :: ts)) start up).span := by
  have hgap := length_gap_le t
  simp only [Span.Within, offset_span, stop_span, Position.offset_advance, Tree.gap, Tree.fullText,
    Tree.fullTexts, bytes_append, List.length_append]
  omega

end Cursor

namespace Tree

/-! ### The nodes below a node -/

theorem within_of_mem_preorderAmong {ts : List Tree} {r : Option Role} {k : Kind} {top : Position}
    {up : List Crumb} {start : Position} {before : List Tree}
    (ih : ∀ t ∈ ts, ∀ start path, ∀ c ∈ t.preorder start path,
      c.span.Within (Cursor.mk t start path).span) :
    ∀ c ∈ preorderAmong r k top up start before ts,
      c.span.Within (Cursor.mk (.node r k ts) start up).span := by
  induction ts generalizing start before with
  | nil => nofun
  | cons t ts ihts =>
    intro c hc
    rw [preorderAmong] at hc
    rcases List.mem_append.mp hc with hc | hc
    · exact (ih t List.mem_cons_self _ _ c hc).trans (Cursor.span_head_within r k t ts start _ up)
    · have htail := ihts (fun u hu => ih u (List.mem_cons_of_mem t hu)) c hc
      exact htail.trans (Cursor.span_tail_within r k t ts start up)

/-- What lies below a node lies within it. -/
theorem within_of_mem_preorder (t : Tree) (start : Position) (path : List Crumb) :
    ∀ c ∈ t.preorder start path, c.span.Within (Cursor.mk t start path).span := by
  induction t using Tree.induction generalizing start path with
  | leaf r k token =>
    intro c hc
    obtain rfl := List.mem_singleton.mp hc
    exact .refl _
  | node r k cs ih =>
    intro c hc
    rw [preorder] at hc
    rcases List.mem_cons.mp hc with rfl | hc
    · exact .refl _
    · exact within_of_mem_preorderAmong ih c hc

theorem preorderAmong_nested {ts : List Tree} {r : Option Role} {k : Kind} {top : Position}
    {up : List Crumb} {start : Position} {before : List Tree}
    (ih : ∀ t ∈ ts, ∀ start path, (t.preorder start path).Pairwise fun c d =>
      d.span.Within c.span ∨ c.span.stop ≤ d.span.offset) :
    (preorderAmong r k top up start before ts).Pairwise fun c d =>
      d.span.Within c.span ∨ c.span.stop ≤ d.span.offset := by
  induction ts generalizing start before with
  | nil => exact List.Pairwise.nil
  | cons t ts ihts =>
    rw [preorderAmong]
    refine List.pairwise_append.mpr ⟨ih t List.mem_cons_self _ _,
      ihts fun u hu => ih u (List.mem_cons_of_mem t hu), fun c hc d hd => .inr ?_⟩
    -- One is below this child and the other below a later one, so the text of the child ends
    -- between them.
    have hc := t.within_of_mem_preorder _ _ c hc
    have hd := within_of_mem_preorderAmong (fun u _ => u.within_of_mem_preorder) d hd
    have hbetween := Cursor.stop_head_le_offset_tail r k t ts start
      (⟨r, k, top, before, ts⟩ :: up) up
    exact Nat.le_trans hc.2 (Nat.le_trans hbetween hd.1)

/-- **Of two nodes in pre-order, the later one lies within the first or behind it.** -/
theorem preorder_nested (t : Tree) (start : Position) (path : List Crumb) :
    (t.preorder start path).Pairwise fun c d =>
      d.span.Within c.span ∨ c.span.stop ≤ d.span.offset := by
  induction t using Tree.induction generalizing start path with
  | leaf r k token => exact List.pairwise_singleton _ _
  | node r k cs ih =>
    rw [preorder]
    refine List.pairwise_cons.mpr ⟨fun d hd => .inl ?_, preorderAmong_nested ih⟩
    exact within_of_mem_preorderAmong (fun u _ => u.within_of_mem_preorder) d hd

/-! ### The text before a node -/

theorem first_of_mem_preorderAmong {ts : List Tree} {r : Option Role} {k : Kind} {top : Position}
    {up : List Crumb} {read : String} {before : List Tree}
    (ih : ∀ t ∈ ts, ∀ read path, ∀ c ∈ t.preorder (.advance .origin read) path,
      ∃ left rest, left ++ rest = read ++ t.fullText ∧ c.span.first = .advance .origin left) :
    ∀ c ∈ preorderAmong r k top up (.advance .origin read) before ts,
      ∃ left rest, left ++ rest = read ++ fullTexts ts ∧
        c.span.first = .advance .origin left := by
  induction ts generalizing read before with
  | nil => nofun
  | cons t ts ihts =>
    intro c hc
    rw [preorderAmong, ← Position.advance_append] at hc
    rcases List.mem_append.mp hc with hc | hc
    · obtain ⟨left, rest, htext, hfirst⟩ := ih t List.mem_cons_self _ _ c hc
      refine ⟨left, rest ++ fullTexts ts, ?_, hfirst⟩
      rw [← String.append_assoc, htext, fullTexts, String.append_assoc]
    · obtain ⟨left, rest, htext, hfirst⟩ := ihts (fun u hu => ih u (List.mem_cons_of_mem t hu)) c hc
      refine ⟨left, rest, ?_, hfirst⟩
      rw [htext, fullTexts, String.append_assoc]

/-- **A node begins where the text before it ends.** -/
theorem first_of_mem_preorder (t : Tree) (read : String) (path : List Crumb) :
    ∀ c ∈ t.preorder (.advance .origin read) path,
      ∃ left rest, left ++ rest = read ++ t.fullText ∧ c.span.first = .advance .origin left := by
  have hself : ∀ (t : Tree) (read : String) (path : List Crumb),
      ∃ left rest, left ++ rest = read ++ t.fullText ∧
        (Cursor.mk t (.advance .origin read) path).span.first = .advance .origin left := by
    intro t read path
    refine ⟨read ++ t.gap, t.text, ?_, ?_⟩
    · rw [String.append_assoc, gap_append_text]
    · rw [Position.advance_append]
      rfl
  induction t using Tree.induction generalizing read path with
  | leaf r k token =>
    intro c hc
    obtain rfl := List.mem_singleton.mp hc
    exact hself _ read path
  | node r k cs ih =>
    intro c hc
    rw [preorder] at hc
    rcases List.mem_cons.mp hc with rfl | hc
    · exact hself _ read path
    · exact first_of_mem_preorderAmong ih c hc

end Tree

namespace Cursor

/-- The position of a node is the one after the bytes before it. -/
theorem first_eq_ofBytes {t : Tree} {c : Cursor} (hc : c ∈ t.preorder .origin []) :
    c.span.first = .ofBytes ((bytes t.fullText).take c.span.offset) := by
  obtain ⟨left, rest, htext, hfirst⟩ := t.first_of_mem_preorder "" [] c hc
  rw [Position.advance_origin] at hfirst
  have hoffset : c.span.offset = (bytes left).length := congrArg Position.offset hfirst
  have hbytes : bytes t.fullText = bytes left ++ bytes rest := by
    rw [← bytes_append, htext, String.empty_append]
  rw [hfirst, hoffset, hbytes, List.take_left]

theorem span_of_construct? {c : Cursor} {x : Construct} (h : c.construct? = some x) :
    x.span = c.span := by
  cases x with
  | call callee count span => exact (construct?_eq_call_iff.mp h).2.2.symm
  | function shape count binding span => exact (construct?_eq_function_iff.mp h).2.2.2.2.symm

end Cursor

/-! ### The constructs of a text -/

/-- Constructs stand in a text where their spans say, and in the order of the document. Offsets,
lines and columns are those of the bytes of the text. -/
structure Outline.LaidOut (text : String) (constructs : List Construct) : Prop where
  inside : ∀ x ∈ constructs, x.span.offset + x.span.length ≤ (bytes text).length
  line : ∀ x ∈ constructs,
    x.span.line = 1 + ((bytes text).take x.span.offset).count lineFeed
  column : ∀ x ∈ constructs, x.span.column =
    1 + (((bytes text).take x.span.offset).reverse.takeWhile (· != lineFeed)).length
  nested : constructs.Pairwise fun x y =>
    y.span.Within x.span ∨ x.span.offset + x.span.length ≤ y.span.offset
  offsets : constructs.Pairwise fun x y => x.span.offset ≤ y.span.offset
  places : constructs.Pairwise fun x y =>
    x.span.line < y.span.line ∨ x.span.line = y.span.line ∧ x.span.column ≤ y.span.column

namespace Outline

/-- A construct comes from a node and has its span. -/
theorem node_of_mem_constructs {t : Tree} {x : Construct} (h : x ∈ (ofTree t).constructs) :
    ∃ c ∈ t.preorder .origin [], x.span = c.span := by
  rw [constructs_ofTree] at h
  obtain ⟨c, hc, hx⟩ := List.mem_filterMap.mp h
  exact ⟨c, (List.mem_filter.mp hc).1, Cursor.span_of_construct? hx⟩

theorem constructs_nested (t : Tree) : (ofTree t).constructs.Pairwise fun x y =>
    y.span.Within x.span ∨ x.span.stop ≤ y.span.offset := by
  rw [constructs_ofTree, List.pairwise_filterMap]
  refine ((t.preorder_nested .origin []).sublist List.filter_sublist).imp ?_
  intro c d hcd x hx y hy
  rw [Cursor.span_of_construct? hx, Cursor.span_of_construct? hy]
  exact hcd

theorem laidOut_ofTree (t : Tree) : LaidOut t.fullText (ofTree t).constructs := by
  have hfirst : ∀ x ∈ (ofTree t).constructs,
      x.span.first = .ofBytes ((bytes t.fullText).take x.span.offset) := by
    intro x hx
    obtain ⟨c, hc, hspan⟩ := node_of_mem_constructs hx
    rw [hspan]
    exact Cursor.first_eq_ofBytes hc
  have hoffsets : (ofTree t).constructs.Pairwise fun x y => x.span.offset ≤ y.span.offset := by
    refine (constructs_nested t).imp fun {x y} h => ?_
    rcases h with hwithin | hbehind
    · exact hwithin.1
    · exact Nat.le_trans (Nat.le_add_right _ _) hbehind
  refine ⟨fun x hx => ?_, fun x hx => congrArg Position.line (hfirst x hx),
    fun x hx => congrArg Position.column (hfirst x hx), constructs_nested t, hoffsets, ?_⟩
  · obtain ⟨c, hc, hspan⟩ := node_of_mem_constructs hx
    have hstop := (t.within_of_mem_preorder .origin [] c hc).2
    rw [← hspan, Cursor.stop_span, Position.origin, Nat.zero_add] at hstop
    exact hstop
  · refine hoffsets.imp_of_mem fun {x y} hx hy hle => ?_
    -- The bytes before the first are also before the second.
    have happend := List.take_append_drop x.span.offset ((bytes t.fullText).take y.span.offset)
    rw [List.take_take, Nat.min_eq_left hle] at happend
    have hplace := Position.notAfter_ofBytes_append ((bytes t.fullText).take x.span.offset)
      (((bytes t.fullText).take y.span.offset).drop x.span.offset)
    rw [happend, ← hfirst x hx, ← hfirst y hy] at hplace
    exact hplace

end Outline

/-- **The spans of constructs follow the text.** They lie in it, their lines and columns are those
of the byte that they begin with, and along the list every construct lies within those before it or
behind them, so that neither offsets nor lines and columns ever go back. That holds of every tree
and the text that it is made of, and so of every text and the tree that is read from it. -/
theorem Outline.spans_follow_text :
    (∀ t : Tree, LaidOut t.fullText (ofTree t).constructs) ∧
    ∀ dialect text, LaidOut text (ofTree (Grammar.parse dialect text)).constructs := by
  refine ⟨laidOut_ofTree, fun dialect text => ?_⟩
  have hlaidOut := laidOut_ofTree (Grammar.parse dialect text)
  rw [Grammar.fullText_parse] at hlaidOut
  exact hlaidOut

-- A letter of two bytes before the first call, a call within it on the next line, and one behind.
example : (Outline.ofTree (Grammar.parse .javaScript "é;f(\n g(1)); h()")).constructs.map
    (·.span) = [⟨3, 9, 1, 4⟩, ⟨7, 4, 2, 2⟩, ⟨14, 3, 2, 9⟩] := by
  decide +kernel

end ArityCheck
