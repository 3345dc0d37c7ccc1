import Mathlib.Data.List.Basic
import ModuleAtlas.Text.Utf8

/-!
# Bytes of texts

The bytes of a text are decoded to the text again, whatever characters it has.  A leading byte tells
how many bytes follow and which range the first of them comes from; the encoding of a character
keeps to these ranges because it takes no more bytes than needed and because no character is half of
a pair.
-/

namespace ModuleAtlas
namespace Text
namespace Utf8

/-! ## Lists of bytes -/

theorem loop_eq (bytes : ByteArray) (position : Nat) (passed : List UInt8) :
    ByteArray.toList.loop bytes position passed =
      passed.reverse ++ bytes.data.toList.drop position := by
  fun_induction ByteArray.toList.loop bytes position passed with
  | case1 position passed within ih =>
    have inside : position < bytes.data.toList.length := within
    rw [ih, List.drop_eq_getElem_cons inside, List.reverse_cons,
      List.append_assoc, List.singleton_append]
    congr 2
    rw [Array.getElem_toList]
    exact getElem!_pos bytes.data position within
  | case2 position passed beyond =>
    rw [List.drop_eq_nil_of_le (Nat.not_lt.mp beyond), List.append_nil]

theorem toList_toUTF8 (text : String) :
    text.toUTF8.toList = text.toList.flatMap String.utf8EncodeChar := by
  unfold ByteArray.toList
  rw [loop_eq, String.toUTF8_eq_toByteArray, ← String.utf8Encode_toList, List.utf8Encode,
    List.data_toByteArray]
  rfl

/-! ## Steps of the decoder -/

theorem start_two {lead : Nat} (low : 0xC2 ≤ lead) (high : lead ≤ 0xDF) :
    start lead = ([], .within (lead - 0xC0) 1 0x80 0xBF) := by
  have length : tailLength? lead = some 1 := by
    rw [tailLength?, if_neg (by omega), if_pos ⟨low, high⟩]
  have range : secondRange lead = (0x80, 0xBF) := by
    rw [secondRange, if_neg (by omega), if_neg (by omega), if_neg (by omega), if_neg (by omega)]
  rw [start, length]
  simp only [range]
  rfl

theorem start_three {lead : Nat} (low : 0xE0 ≤ lead) (high : lead ≤ 0xEF) :
    start lead =
      ([], .within (lead - 0xE0) 2 (secondRange lead).1 (secondRange lead).2) := by
  have length : tailLength? lead = some 2 := by
    rw [tailLength?, if_neg (by omega), if_neg (by omega), if_pos ⟨low, high⟩]
  rw [start, length]
  rfl

theorem start_four {lead : Nat} (low : 0xF0 ≤ lead) (high : lead ≤ 0xF4) :
    start lead =
      ([], .within (lead - 0xF0) 3 (secondRange lead).1 (secondRange lead).2) := by
  have length : tailLength? lead = some 3 := by
    rw [tailLength?, if_neg (by omega), if_neg (by omega), if_neg (by omega), if_pos ⟨low, high⟩]
  rw [start, length]
  rfl

/-- The last byte of a character completes it. -/
theorem step_last {bits low high byte : Nat} (above : low ≤ byte) (below : byte ≤ high) :
    step (.within bits 1 low high) byte =
      ([some (Char.ofNat (bits * 64 + (byte - 0x80)))], .outside) := by
  simp [step, above, below]

theorem step_more {bits remaining low high byte : Nat} (above : low ≤ byte) (below : byte ≤ high) :
    step (.within bits (remaining + 2) low high) byte =
      ([], .within (bits * 64 + (byte - 0x80)) (remaining + 1) 0x80 0xBF) := by
  simp [step, above, below]

theorem toNat_ofNat_of_lt {byte : Nat} (small : byte < 256) : (UInt8.ofNat byte).toNat = byte := by
  rw [UInt8.toNat_ofNat']
  exact Nat.mod_eq_of_lt small

/-! ## Characters -/

/-- The code of a character is none that is half of a pair. -/
theorem code_valid (c : Char) :
    c.val.toNat < 0xD800 ∨ 0xDFFF < c.val.toNat ∧ c.val.toNat < 0x110000 :=
  c.valid

/-- The bytes of a character are decoded to it. -/
theorem pieces_utf8EncodeChar (c : Char) (rest : List UInt8) :
    pieces .outside (String.utf8EncodeChar c ++ rest) = some c :: pieces .outside rest := by
  have valid := code_valid c
  have code : ∀ {number : Nat}, number = c.val.toNat → Char.ofNat number = c := by
    rintro _ rfl
    exact Char.ofNat_toNat c
  rw [String.utf8EncodeChar]
  generalize c.val.toNat = v at valid code
  split
  · rename_i one
    rw [List.singleton_append, pieces, toNat_ofNat_of_lt (by omega), step, start]
    have length : tailLength? v = some 0 := by
      rw [tailLength?, if_pos (by omega)]
    rw [length]
    dsimp only
    rw [code rfl, List.singleton_append]
  split
  · rename_i two
    simp only [List.cons_append, List.nil_append, pieces]
    rw [toNat_ofNat_of_lt (by omega), toNat_ofNat_of_lt (by omega), step,
      start_two (by omega) (by omega)]
    dsimp only
    rw [step_last (by omega) (by omega), code (by omega), List.nil_append, List.singleton_append]
  split
  · rename_i three
    have low : (secondRange (v / 4096 % 16 + 224)).1 ≤ v / 64 % 64 + 128 := by
      unfold secondRange
      split_ifs <;> dsimp only <;> omega
    have high : v / 64 % 64 + 128 ≤ (secondRange (v / 4096 % 16 + 224)).2 := by
      unfold secondRange
      split_ifs <;> dsimp only <;> omega
    simp only [List.cons_append, List.nil_append, pieces]
    rw [toNat_ofNat_of_lt (by omega), toNat_ofNat_of_lt (by omega), toNat_ofNat_of_lt (by omega),
      step, start_three (by omega) (by omega)]
    dsimp only
    rw [step_more low high]
    dsimp only
    rw [step_last (by omega) (by omega), code (by omega)]
    rfl
  · rename_i four
    have low : (secondRange (v / 262144 % 8 + 240)).1 ≤ v / 4096 % 64 + 128 := by
      unfold secondRange
      split_ifs <;> dsimp only <;> omega
    have high : v / 4096 % 64 + 128 ≤ (secondRange (v / 262144 % 8 + 240)).2 := by
      unfold secondRange
      split_ifs <;> dsimp only <;> omega
    simp only [List.cons_append, List.nil_append, pieces]
    rw [toNat_ofNat_of_lt (by omega), toNat_ofNat_of_lt (by omega), toNat_ofNat_of_lt (by omega),
      toNat_ofNat_of_lt (by omega), step, start_four (by omega) (by omega)]
    dsimp only
    rw [step_more low high]
    dsimp only
    rw [step_more (by omega) (by omega)]
    dsimp only
    rw [step_last (by omega) (by omega), code (by omega)]
    rfl

theorem pieces_flatMap (text : List Char) :
    pieces .outside (text.flatMap String.utf8EncodeChar) = text.map some := by
  induction text with
  | nil => rfl
  | cons c rest ih =>
    rw [List.flatMap_cons, pieces_utf8EncodeChar, ih, List.map_cons]

/-- The bytes of a text are decoded to it. -/
theorem decode?_toUTF8 (text : String) : decode? text.toUTF8.toList = some text := by
  have all : ∀ chars : List Char, (chars.map some).mapM id = some chars := by
    intro chars
    induction chars with
    | nil => rfl
    | cons c rest ih =>
      rw [List.map_cons, List.mapM_cons, ih]
      rfl
  rw [decode?, toList_toUTF8, pieces_flatMap, all, Option.map_some, String.ofList_toList]

end Utf8
end Text
end ModuleAtlas
