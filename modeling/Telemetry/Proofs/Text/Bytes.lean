import Mathlib.Algebra.Group.Nat.Defs
import Telemetry.Text.LittleEndian

/-!
# Texts and numbers as bytes

The bytes of a text determine it, and so do their hexadecimal digits, of which there are twice as many.
So many bytes stand for numbers up to a power of 256.
-/

namespace Telemetry.Text

theorem ofLittleEndian_lt (bytes : Bytes) : ofLittleEndian bytes < 256 ^ bytes.length := by
  induction bytes with
  | nil => decide
  | cons b tail ih =>
      have hByte := b.toNat_lt
      rw [ofLittleEndian, List.length_cons, Nat.pow_succ]
      omega

theorem loop_eq_drop (b : ByteArray) (i : Nat) (r : List UInt8) :
    ByteArray.toList.loop b i r = r.reverse ++ b.data.toList.drop i := by
  fun_induction ByteArray.toList.loop b i r with
  | case1 i r hLt ih =>
      have hIndex : i < b.data.toList.length := by simpa using hLt
      have hByte : b.get! i = b.data.toList[i] := by
        rw [Array.getElem_toList]
        exact getElem!_pos b.data i hIndex
      rw [ih, List.drop_eq_getElem_cons hIndex, List.reverse_cons, List.append_assoc, hByte,
        List.singleton_append]
  | case2 i r hLe =>
      have hLength : b.data.toList.length ≤ i := by simpa using hLe
      rw [List.drop_eq_nil_of_le hLength, List.append_nil]

theorem toList_eq_data (b : ByteArray) : b.toList = b.data.toList := loop_eq_drop b 0 []

theorem length_toUTF8 (s : String) : s.toUTF8.toList.length = s.utf8ByteSize := by
  rw [toList_eq_data]
  rfl

theorem toUTF8_toList_injective {s t : String} (h : s.toUTF8.toList = t.toUTF8.toList) : s = t := by
  rw [toList_eq_data, toList_eq_data] at h
  exact String.toByteArray_inj.mp (ByteArray.ext (Array.toList_inj.mp h))

theorem utf8ByteSize_ofList {chars : List Char} (h : ∀ c ∈ chars, c.utf8Size = 1) :
    (String.ofList chars).utf8ByteSize = chars.length := by
  induction chars with
  | nil => rfl
  | cons c rest ih =>
      have hRest := ih fun d hd => h d (List.mem_cons_of_mem c hd)
      have hFirst := h c List.mem_cons_self
      rw [← List.singleton_append, String.ofList_append, String.utf8ByteSize_append, hRest,
        ← String.singleton_eq_ofList, String.utf8ByteSize_singleton, hFirst, List.singleton_append,
        List.length_cons, Nat.add_comm]

/-- A hexadecimal digit is a character of one byte, and no point. -/
theorem mem_hexEncodeChars {bytes : Bytes} {c : Char} (h : c ∈ hexEncodeChars bytes) :
    c.utf8Size = 1 ∧ c ≠ '.' := by
  have hAll : ∀ i : Fin 16, (digitChar i).utf8Size = 1 ∧ digitChar i ≠ '.' := by decide
  obtain ⟨b, -, hDigit⟩ := List.mem_flatMap.mp h
  have hByte := b.toNat_lt
  rcases List.mem_cons.mp hDigit with rfl | hLast
  · exact hAll ⟨b.toNat / 16, by omega⟩
  · rw [List.mem_singleton.mp hLast]
    exact hAll ⟨b.toNat % 16, by omega⟩

theorem length_hexEncodeChars (bytes : Bytes) : (hexEncodeChars bytes).length = 2 * bytes.length := by
  induction bytes with
  | nil => rfl
  | cons b rest ih =>
      have hStep : hexEncodeChars (b :: rest) =
          [digitChar (b.toNat / 16), digitChar (b.toNat % 16)] ++ hexEncodeChars rest := rfl
      rw [hStep, List.length_append, ih, List.length_cons, List.length_cons, List.length_cons,
        List.length_nil]
      omega

theorem utf8ByteSize_hexEncode (bytes : Bytes) : (hexEncode bytes).utf8ByteSize = 2 * bytes.length := by
  rw [hexEncode, utf8ByteSize_ofList fun c hc => (mem_hexEncodeChars hc).1, length_hexEncodeChars]

end Telemetry.Text
