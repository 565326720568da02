import OpGraph.Json.Document
import OpGraph.Json.Writer
import Mathlib.Tactic.Ring

/-! Strings in JSON text. Each character is written as itself or as an escape, and what the reader makes of
either is the bytes of the character, so a string reads back whatever it holds. -/

namespace OpGraph

/-! ## Hexadecimal digits -/

namespace Hex

theorem digit?_digit {value : Nat} (small : value < 16) : digit? (digit value) = some value := by
  have all : ∀ value : Fin 16, digit? (digit value) = some value.val := by decide
  exact all ⟨value, small⟩

theorem foldlM_digits (count value start : Nat) :
    (digits count value).foldlM (fun value char => (16 * value + ·) <$> digit? char) start =
      some (16 ^ count * start + value % 16 ^ count) := by
  induction count generalizing start with
  | zero => simp [digits, Nat.mod_one]
  | succ count ih =>
    have place : value >>> (4 * count) = value / 16 ^ count := by
      rw [Nat.shiftRight_eq_div_pow, Nat.pow_mul]
    have small : value / 16 ^ count % 16 < 16 := Nat.mod_lt _ (by omega)
    rw [digits, List.foldlM_cons, place, digit?_digit small]
    refine (ih _).trans (congrArg some ?_)
    calc 16 ^ count * (16 * start + value / 16 ^ count % 16) + value % 16 ^ count
        = 16 ^ (count + 1) * start + (value % 16 ^ count + 16 ^ count * (value / 16 ^ count % 16)) := by ring
      _ = 16 ^ (count + 1) * start + value % 16 ^ (count + 1) := by rw [← Nat.mod_pow_succ]

/-- The digits of a number spell it. -/
theorem ofDigits?_digits {count value : Nat} (small : value < 16 ^ count) :
    ofDigits? (digits count value) = some value := by
  rw [ofDigits?, foldlM_digits, Nat.mod_eq_of_lt small, Nat.mul_zero, Nat.zero_add]

theorem length_digits (count value : Nat) : (digits count value).length = count := by
  induction count with
  | zero => rfl
  | succ count ih => rw [digits, List.length_cons, ih]

theorem digit_ascii {value : Nat} (small : value < 16) : (digit value).toNat < 128 := by
  have all : ∀ value : Fin 16, (digit value).toNat < 128 := by decide
  exact all ⟨value, small⟩

theorem digits_ascii {count value : Nat} {char : Char} (member : char ∈ digits count value) : char.toNat < 128 := by
  induction count with
  | zero => cases member
  | succ count ih =>
    rcases List.mem_cons.mp member with same | later
    · subst same
      exact digit_ascii (Nat.mod_lt _ (by omega))
    · exact ih later

end Hex

/-! ## Bytes of characters -/

namespace Utf8

theorem encode_ofList (chars : List Char) : encode (String.ofList chars) = chars.flatMap String.utf8EncodeChar := by
  simp [encode, List.utf8Encode]

theorem encode_eq (text : String) : encode text = text.toList.flatMap String.utf8EncodeChar := by
  rw [← encode_ofList, String.ofList_toList]

theorem utf8EncodeChar_ascii {char : Char} (ascii : char.toNat < 128) :
    String.utf8EncodeChar char = [UInt8.ofNat char.toNat] := by
  have low : char.val.toNat ≤ 0x7f := Nat.le_of_lt_succ ascii
  rw [String.utf8EncodeChar, if_pos low]
  rfl

theorem toNat_ofNat_ascii {char : Char} (ascii : char.toNat < 128) : (UInt8.ofNat char.toNat).toNat = char.toNat :=
  UInt8.toNat_ofNat_of_lt' (Nat.lt_trans ascii (by decide))

/-- Characters of the first 128 are their own bytes. -/
theorem flatMap_ascii {chars : List Char} (ascii : ∀ char ∈ chars, char.toNat < 128) :
    chars.flatMap String.utf8EncodeChar = chars.map fun char => UInt8.ofNat char.toNat := by
  induction chars with
  | nil => rfl
  | cons char chars ih =>
    obtain ⟨here, ascii⟩ := List.forall_mem_cons.mp ascii
    rw [List.flatMap_cons, List.map_cons, ih ascii, utf8EncodeChar_ascii here]
    rfl

theorem map_ofNat_ascii {chars : List Char} (ascii : ∀ char ∈ chars, char.toNat < 128) :
    (chars.map fun char => UInt8.ofNat char.toNat).map (fun byte => Char.ofNat byte.toNat) = chars := by
  rw [List.map_map]
  refine (List.map_congr_left fun char member => ?_).trans (List.map_id chars)
  exact (congrArg Char.ofNat (toNat_ofNat_ascii (ascii char member))).trans (Char.ofNat_toNat char)

/-- All bytes of a character beyond the first 128 have their high bit set. -/
theorem le_of_mem_utf8EncodeChar {char : Char} (beyond : 128 ≤ char.toNat) :
    ∀ byte ∈ String.utf8EncodeChar char, 0x80 ≤ byte := by
  have high (low mark : UInt8) (marked : 0x80 ≤ mark) : 0x80 ≤ low ||| mark := by
    rw [UInt8.le_iff_toNat_le] at marked ⊢
    rw [UInt8.toNat_or]
    exact Nat.le_trans marked Nat.right_le_or
  have notLow : ¬ char.val ≤ 0x7f := by
    rw [UInt32.le_iff_toNat_le]
    exact Nat.not_le_of_lt beyond
  rw [String.utf8EncodeChar_eq_utf8EncodeCharFast, String.utf8EncodeCharFast]
  simp only [if_neg notLow]
  repeat' split
  all_goals simp [high]

end Utf8

namespace Document

/-! ## Parts of a string -/

/-- Read as a part of a string, the first bytes stand for the second ones. -/
def ReadsAs (bytes text : Bytes) : Prop := ∃ pieces : List Piece,
  (∀ found rest, pieces? found (bytes ++ rest) = pieces? (pieces.reverse ++ found) rest) ∧
    ∀ found rest, textBytes? found (pieces ++ rest) = textBytes? (text.reverse ++ found) rest

namespace ReadsAs

theorem nil : ReadsAs [] [] := ⟨[], fun _ _ => rfl, fun _ _ => rfl⟩

theorem append {bytes text moreBytes moreText : Bytes} (first : ReadsAs bytes text)
    (second : ReadsAs moreBytes moreText) : ReadsAs (bytes ++ moreBytes) (text ++ moreText) := by
  obtain ⟨pieces, read, spelled⟩ := first
  obtain ⟨more, readMore, spelledMore⟩ := second
  refine ⟨pieces ++ more, fun found rest => ?_, fun found rest => ?_⟩
  · rw [List.append_assoc, read, readMore, List.reverse_append, List.append_assoc]
  · rw [List.append_assoc, spelled, spelledMore, List.reverse_append, List.append_assoc]

theorem byte {byte : UInt8} (printable : 0x20 ≤ byte) (quote : byte ≠ 0x22) (backslash : byte ≠ 0x5C) :
    ReadsAs [byte] [byte] := by
  have allowed : ¬ byte < 0x20 := UInt8.not_lt.mpr printable
  refine ⟨[.byte byte], fun found rest => ?_, fun found rest => ?_⟩
  · simp [pieces?, backslash, allowed]
  · simp [textBytes?]

theorem bytes {bytes : Bytes} (plain : ∀ byte ∈ bytes, 0x20 ≤ byte ∧ byte ≠ 0x22 ∧ byte ≠ 0x5C) :
    ReadsAs bytes bytes := by
  induction bytes with
  | nil => exact nil
  | cons first bytes ih =>
    obtain ⟨⟨printable, quote, backslash⟩, plain⟩ := List.forall_mem_cons.mp plain
    exact (byte printable quote backslash).append (ih plain)

theorem escape {byte value : UInt8} (known : escape? byte = some value) : ReadsAs [0x5C, byte] [value] := by
  have noUnit : byte ≠ 0x75 := by
    rintro rfl
    cases known
  refine ⟨[.byte value], fun found rest => ?_, fun found rest => ?_⟩
  · simp [pieces?, noUnit, known]
  · simp [textBytes?]

theorem unit {b0 b1 b2 b3 : UInt8} {value : Nat} (known : codeUnit? b0 b1 b2 b3 = some value) (plain : value < 0xD800) :
    ReadsAs [0x5C, 0x75, b0, b1, b2, b3] (charBytes value) := by
  have notHigh : isHighSurrogate value = false := by simp [isHighSurrogate, plain]
  have notLow : isLowSurrogate value = false := by
    simp [isLowSurrogate]
    omega
  refine ⟨[.unit value], fun found rest => ?_, fun found rest => ?_⟩
  · simp [pieces?, known]
  · cases rest with
    | nil => simp [textBytes?, notHigh, notLow]
    | cons next rest => cases next <;> simp [textBytes?, notHigh, notLow]

theorem control {char : Char} (low : char.toNat < 0x20) :
    ReadsAs (('\\' :: 'u' :: Hex.digits 4 char.toNat).flatMap String.utf8EncodeChar) (String.utf8EncodeChar char) := by
  have ascii : ∀ digit ∈ Hex.digits 4 char.toNat, digit.toNat < 128 := fun _ => Hex.digits_ascii
  have spells := Hex.ofDigits?_digits (show char.toNat < 16 ^ 4 by omega)
  have length := Hex.length_digits 4 char.toNat
  have text : charBytes char.toNat = String.utf8EncodeChar char := by
    rw [charBytes, Char.ofNat_toNat, Utf8.encode_eq, String.toList_singleton, List.flatMap_singleton]
  rw [← text]
  change ReadsAs (0x5C :: 0x75 :: (Hex.digits 4 char.toNat).flatMap String.utf8EncodeChar) _
  rw [Utf8.flatMap_ascii ascii]
  generalize Hex.digits 4 char.toNat = digits at ascii spells length ⊢
  match digits, length with
  | [d0, d1, d2, d3], _ =>
    have back := Utf8.map_ofNat_ascii ascii
    exact unit ((congrArg Hex.ofDigits? back).trans spells) (by omega)

theorem plain {char : Char} (printable : 0x20 ≤ char.toNat) (quote : char ≠ '"') (backslash : char ≠ '\\') :
    ReadsAs (String.utf8EncodeChar char) (String.utf8EncodeChar char) := by
  by_cases ascii : char.toNat < 128
  · have other {sign : Char} (different : char ≠ sign) (small : sign.toNat < 128) :
        UInt8.ofNat char.toNat ≠ UInt8.ofNat sign.toNat := by
      intro same
      have codes := congrArg UInt8.toNat same
      rw [Utf8.toNat_ofNat_ascii ascii, Utf8.toNat_ofNat_ascii small] at codes
      exact different (Char.toNat_inj.mp codes)
    rw [Utf8.utf8EncodeChar_ascii ascii]
    refine byte ?_ (other quote (by decide)) (other backslash (by decide))
    rw [UInt8.le_iff_toNat_le, Utf8.toNat_ofNat_ascii ascii]
    exact printable
  · refine bytes fun byte member => ?_
    have high := Utf8.le_of_mem_utf8EncodeChar (Nat.le_of_not_lt ascii) byte member
    rw [UInt8.le_iff_toNat_le] at high
    refine ⟨UInt8.le_iff_toNat_le.mpr (Nat.le_trans (by decide) high), ?_, ?_⟩
    · rintro rfl
      exact absurd high (by decide)
    · rintro rfl
      exact absurd high (by decide)

theorem escapeChar (char : Char) :
    ReadsAs ((Json.escapeChar char).flatMap String.utf8EncodeChar) (String.utf8EncodeChar char) := by
  unfold Json.escapeChar
  split
  case h_8 quote backslash _ _ _ _ _ =>
    split
    next low => exact control low
    next printable =>
      rw [List.flatMap_singleton]
      exact plain (Nat.le_of_not_lt printable) quote backslash
  all_goals exact escape rfl

theorem escaped (chars : List Char) :
    ReadsAs ((chars.flatMap Json.escapeChar).flatMap String.utf8EncodeChar) (chars.flatMap String.utf8EncodeChar) := by
  induction chars with
  | nil => exact nil
  | cons char chars ih =>
    rw [List.flatMap_cons, List.flatMap_append, List.flatMap_cons]
    exact (escapeChar char).append ih

end ReadsAs

theorem encode_quote (text : String) : Utf8.encode (Json.quote text) =
    0x22 :: ((text.toList.flatMap Json.escapeChar).flatMap String.utf8EncodeChar ++ [0x22]) := by
  have mark : Utf8.encode "\"" = [0x22] := rfl
  rw [Json.quote, Utf8.encode_append, Utf8.encode_append, mark, Utf8.encode_ofList]
  rfl

/-- A string reads back from its text. -/
theorem string?_quote (text : String) (rest : Bytes) :
    string? ((text.toList.flatMap Json.escapeChar).flatMap String.utf8EncodeChar ++ 0x22 :: rest) =
      some (some text, rest) := by
  obtain ⟨pieces, read, spelled⟩ := ReadsAs.escaped text.toList
  have parts := read [] (0x22 :: rest)
  have bytes := spelled [] []
  simp only [List.append_nil, pieces?, List.reverse_reverse] at parts bytes
  have whole : textBytes? [] pieces = some (Utf8.encode text) := by
    rw [bytes, textBytes?, List.reverse_reverse, Utf8.encode_eq]
  simp [string?, parts, whole]

end Document
end OpGraph
