import ArityCheck.Source.Position
import Mathlib.Data.List.Basic

/-! Positions, told from the bytes that stand before them.

A position is kept character by character, and its offset and column count bytes. `ofBytes` says
what it should be after a list of bytes, without a word about characters: how many bytes there are,
how many of them end a line, and how many stand after the last one that does.
`advance_origin` says that this is where reading a text leads. It rests on one fact about UTF-8:
the byte of a line feed occurs in the code of no other character. -/
namespace ArityCheck

/-- The bytes of a text. -/
def Text.bytes (text : String) : List UInt8 := text.toUTF8.data.toList

/-- The byte of a line feed. -/
def Text.lineFeed : UInt8 := 10

namespace Text

/-! ### The bytes of characters -/

theorem bytes_append (s t : String) : bytes (s ++ t) = bytes s ++ bytes t := by
  simp only [bytes, String.toUTF8_eq_toByteArray, String.toByteArray_append, ByteArray.data_append,
    Array.toList_append]

theorem bytes_eq_flatMap (s : String) : bytes s = s.toList.flatMap String.utf8EncodeChar := by
  conv_lhs => rw [← String.ofList_toList (s := s)]
  rw [bytes, String.toUTF8_eq_toByteArray, String.toByteArray_ofList, List.utf8Encode,
    List.data_toByteArray]

theorem mod_eq_of_lineFeed_eq {n : Nat} (h : lineFeed = UInt8.ofNat n) : n % 256 = 10 := by
  have htoNat := congrArg UInt8.toNat h
  rw [UInt8.toNat_ofNat'] at htoNat
  exact htoNat.symm

/-- The code of a character beyond ASCII is made of bytes from 128 on. -/
theorem lineFeed_not_mem_utf8EncodeChar {c : Char} (h : c ≠ '\n') :
    lineFeed ∉ String.utf8EncodeChar c := by
  intro hmem
  have hval : c.val.toNat ≠ 10 := fun hc => h (Char.ext (UInt32.toNat_inj.mp hc))
  unfold String.utf8EncodeChar at hmem
  dsimp only at hmem
  split_ifs at hmem <;> simp only [List.mem_cons, List.not_mem_nil, or_false] at hmem
  · have hmod := mod_eq_of_lineFeed_eq hmem
    omega
  · rcases hmem with hb | hb <;> have hmod := mod_eq_of_lineFeed_eq hb <;> omega
  · rcases hmem with hb | hb | hb <;> have hmod := mod_eq_of_lineFeed_eq hb <;> omega
  · rcases hmem with hb | hb | hb | hb <;> have hmod := mod_eq_of_lineFeed_eq hb <;> omega

end Text

open Text (bytes lineFeed)

namespace Position

/-! ### Positions after bytes -/

/-- The position after some bytes from the start of a text. -/
def ofBytes (bs : List UInt8) : Position where
  offset := bs.length
  line := 1 + bs.count lineFeed
  column := 1 + (bs.reverse.takeWhile (· != lineFeed)).length

/-- Bytes that end no line are counted on the line that they go on with. -/
theorem ofBytes_append_of_not_mem (bs : List UInt8) {more : List UInt8} (h : lineFeed ∉ more) :
    ofBytes (bs ++ more) =
      ⟨(ofBytes bs).offset + more.length, (ofBytes bs).line, (ofBytes bs).column + more.length⟩ := by
  have hall : ∀ b ∈ more.reverse, (b != lineFeed) = true := by
    intro b hb
    simp only [bne_iff_ne, ne_eq]
    rintro rfl
    exact h (List.mem_reverse.mp hb)
  simp only [ofBytes, List.length_append, List.count_append, List.count_eq_zero.mpr h,
    List.reverse_append, List.takeWhile_append_of_pos hall, List.length_reverse, mk.injEq,
    true_and]
  omega

theorem ofBytes_append_lineFeed (bs : List UInt8) :
    ofBytes (bs ++ [lineFeed]) = ⟨(ofBytes bs).offset + 1, (ofBytes bs).line + 1, 1⟩ := by
  simp [ofBytes, Nat.add_assoc]

/-- **Reading a character moves the position as reading its bytes does.** -/
theorem step_ofBytes (bs : List UInt8) (c : Char) :
    (ofBytes bs).step c = ofBytes (bs ++ String.utf8EncodeChar c) := by
  by_cases hc : c = '\n'
  · subst hc
    exact (ofBytes_append_lineFeed bs).symm
  · rw [step, if_neg hc, ofBytes_append_of_not_mem bs (Text.lineFeed_not_mem_utf8EncodeChar hc),
      String.length_utf8EncodeChar]

theorem foldl_step_ofBytes (cs : List Char) (bs : List UInt8) :
    cs.foldl step (ofBytes bs) = ofBytes (bs ++ cs.flatMap String.utf8EncodeChar) := by
  induction cs generalizing bs with
  | nil => simp
  | cons c cs ih => rw [List.foldl_cons, step_ofBytes, ih, List.flatMap_cons, List.append_assoc]

/-- **The position after a text is told by its bytes.** -/
theorem advance_origin (s : String) : origin.advance s = ofBytes (bytes s) := by
  rw [Text.bytes_eq_flatMap]
  exact foldl_step_ofBytes s.toList []

theorem advance_append (p : Position) (s t : String) :
    p.advance (s ++ t) = (p.advance s).advance t := by
  rw [advance, String.toList_append, List.foldl_append]
  rfl

theorem offset_foldl_step (cs : List Char) (p : Position) :
    (cs.foldl step p).offset = p.offset + (cs.flatMap String.utf8EncodeChar).length := by
  induction cs generalizing p with
  | nil => rfl
  | cons c cs ih =>
    have hstep : (p.step c).offset = p.offset + c.utf8Size := by
      unfold step
      split
      next hc => rw [hc]; rfl
      next => rfl
    rw [List.foldl_cons, ih, hstep, List.flatMap_cons, List.length_append,
      String.length_utf8EncodeChar, Nat.add_assoc]

theorem offset_advance (p : Position) (s : String) :
    (p.advance s).offset = p.offset + (bytes s).length := by
  rw [Text.bytes_eq_flatMap]
  exact offset_foldl_step s.toList p

/-! ### Later positions -/

/-- One position is on an earlier line than another, or on the same line and not to its right. -/
def NotAfter (p q : Position) : Prop := p.line < q.line ∨ p.line = q.line ∧ p.column ≤ q.column

/-- More bytes lead no way back. -/
theorem notAfter_ofBytes_append (bs more : List UInt8) :
    (ofBytes bs).NotAfter (ofBytes (bs ++ more)) := by
  by_cases h : lineFeed ∈ more
  · have hpos : 0 < more.count lineFeed := List.count_pos_iff.mpr h
    left
    simp only [ofBytes, List.count_append]
    omega
  · right
    simp [ofBytes_append_of_not_mem bs h]

end Position

end ArityCheck
