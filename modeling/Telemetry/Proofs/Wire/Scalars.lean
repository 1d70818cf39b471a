import Telemetry.Proofs.Wire.Readers

/-!
# Single values are read as they were written

A value that was read is written in a form from which it is read again, whatever form it was read from. The
value of a plain field that was not written is read as the default value, which is the same but for the sign
of a zero.
-/

namespace Telemetry.Wire

open Text (Bytes littleEndian ofLittleEndian)

variable {t : ScalarType} {v : Value} {bytes rest : Bytes} {w : UInt64}

/-- A value is read as it was written. -/
def ReadsBack (t : ScalarType) (v : Value) : Prop :=
  ∀ rest, decodeScalar t (encodeScalar t.layout v ++ rest) = some (v, rest)

/-! ## Words -/

theorem toNat_low32 (w : UInt64) : (low32 w).toNat = w.toNat % 2 ^ 32 := by
  rw [low32, UInt64.toNat_and]
  exact Nat.and_two_pow_sub_one_eq_mod w.toNat 32

theorem low32_eq_self (hLt : w.toNat < 2 ^ 32) : low32 w = w := by
  rw [← UInt64.toNat_inj, toNat_low32, Nat.mod_eq_of_lt hLt]

theorem toNat_signExtend32 (w : UInt64) : (signExtend32 w).toNat =
    if w.toNat % 2 ^ 32 < 2 ^ 31 then w.toNat % 2 ^ 32 else w.toNat % 2 ^ 32 + (2 ^ 64 - 2 ^ 32) := by
  have hLow := toNat_low32 w
  rw [signExtend32]
  simp only [UInt64.lt_iff_toNat_lt, hLow]
  split
  · next hSmall => rw [if_pos (show w.toNat % 2 ^ 32 < 2 ^ 31 from hSmall), hLow]
  · next hLarge =>
    have hSum := Nat.two_pow_add_eq_or_of_lt (Nat.mod_lt w.toNat (by decide : 0 < 2 ^ 32)) (2 ^ 32 - 1)
    rw [if_neg (show ¬ w.toNat % 2 ^ 32 < 2 ^ 31 from hLarge), UInt64.toNat_or, hLow, Nat.or_comm]
    refine hSum.symm.trans ?_
    omega

theorem signExtend32_signExtend32 (w : UInt64) : signExtend32 (signExtend32 w) = signExtend32 w := by
  rw [← UInt64.toNat_inj, toNat_signExtend32, toNat_signExtend32]
  split <;> split <;> omega

/-- A varint is read as a value that is written as itself. -/
theorem ofVarint_ofVarint {w' : UInt64} (h : t.ofVarint w = .word w') : t.ofVarint w' = .word w' := by
  cases t <;> cases h
  case bool => by_cases hZero : w = 0 <;> simp [ScalarType.ofVarint, hZero]
  case enum => rw [ScalarType.ofVarint, signExtend32_signExtend32]
  case uint32 | sint32 =>
    rw [ScalarType.ofVarint, low32_eq_self]
    rw [toNat_low32]
    exact Nat.mod_lt _ (by decide)
  all_goals rfl

theorem exists_ofVarint_eq_word (t : ScalarType) (w : UInt64) : ∃ w', t.ofVarint w = .word w' := by
  cases t <;> exact ⟨_, rfl⟩

/-- A varint is read as a value that is written in no more bytes, or in twice as many. -/
theorem length_encodeVarint_ofVarint {w' : UInt64} {k : Nat} (h : t.ofVarint w = .word w') (hPos : 0 < k)
    (hLt : w.toNat < 128 ^ k) : (encodeVarint w').length ≤ 2 * k := by
  have hLe : ∀ u : UInt64, u.toNat ≤ w.toNat → (encodeVarint u).length ≤ 2 * k := by
    intro u hu
    exact Nat.le_trans (length_encodeVarint_le (Nat.lt_of_le_of_lt hu hLt) hPos) (by omega)
  cases t <;> cases h
  case bool =>
    refine hLe _ ?_
    split
    · exact Nat.zero_le _
    · next hSome => exact Nat.pos_of_ne_zero fun hZero => hSome (UInt64.toNat_inj.mp hZero)
  case enum =>
    by_cases hSmall : w.toNat % 2 ^ 32 < 2 ^ 31
    · refine hLe _ ?_
      rw [toNat_signExtend32, if_pos hSmall]
      exact Nat.mod_le _ _
    · -- A word with its thirty-second bit was read from five bytes at least.
      have hFive : 5 ≤ k := by
        by_contra hFew
        have hPow : 128 ^ k ≤ 128 ^ 4 := Nat.pow_le_pow_right (by decide) (by omega)
        omega
      exact Nat.le_trans (length_encodeVarint_le (k := 10) (Nat.lt_trans (UInt64.toNat_lt _) (by decide))
        (by decide)) (by omega)
  case uint32 | sint32 => exact hLe _ (by rw [toNat_low32]; exact Nat.mod_le _ _)
  all_goals exact hLe _ (Nat.le_refl _)

/-! ## Texts -/

theorem ofUtf8?_utf8 (s : String) : ofUtf8? (utf8 s) = some s := by
  have hBytes : (⟨(utf8 s).toArray⟩ : ByteArray) = s.toByteArray := by
    rw [utf8, Text.toList_eq_data]
    rfl
  rw [ofUtf8?, hBytes, String.fromUTF8?, dif_pos s.isValidUTF8]
  rfl

theorem utf8_of_ofUtf8? {s : String} (h : ofUtf8? bytes = some s) : utf8 s = bytes := by
  rw [ofUtf8?, String.fromUTF8?] at h
  split at h
  · cases h
    rw [utf8, Text.toList_eq_data]
    rfl
  · cases h

/-! ## Values -/

/-- A value that was read is written so that it is read again, and not in many more bytes. -/
theorem readsBack_of_decodeScalar (h : decodeScalar t bytes = some (v, rest)) :
    ReadsBack t v ∧ ∃ front, bytes = front ++ rest ∧ front ≠ [] ∧
      (encodeScalar t.layout v).length ≤ 2 * front.length := by
  rw [decodeScalar] at h
  cases hLayout : t.layout with
  | varint =>
      simp only [hLayout, Option.map_eq_some_iff] at h
      obtain ⟨⟨w, after⟩, hWord, hValue⟩ := h
      cases hValue
      obtain ⟨front, rfl, hSome, hLt⟩ := decodeVarint_eq_some hWord
      obtain ⟨w', hValue⟩ := exists_ofVarint_eq_word t w
      have hPos := List.length_pos_iff.mpr hSome
      rw [hValue]
      refine ⟨fun tail => ?_, front, rfl, hSome, length_encodeVarint_ofVarint hValue hPos hLt⟩
      simp only [decodeScalar, hLayout, encodeScalar, decodeVarint_encodeVarint, Option.map_some,
        ofVarint_ofVarint hValue]
  | eight =>
      simp only [hLayout, Option.map_eq_some_iff] at h
      obtain ⟨⟨w, after⟩, hWord, hValue⟩ := h
      cases hValue
      obtain ⟨front, rfl, hLength, -⟩ := decodeFixed_eq_some hWord
      refine ⟨fun tail => ?_, front, rfl, List.ne_nil_of_length_pos (by omega), ?_⟩
      · have hEight : w.toNat < 256 ^ 8 := w.toNat_lt
        by_cases hDouble : t = .double
        · simp only [decodeScalar, hLayout, encodeScalar, if_pos hDouble,
            decodeFixed_littleEndian hEight, Option.map_some]
        · simp only [decodeScalar, hLayout, encodeScalar, if_neg hDouble,
            decodeFixed_littleEndian hEight, Option.map_some]
      · split <;> simp [encodeScalar] <;> omega
  | four =>
      simp only [hLayout, Option.map_eq_some_iff] at h
      obtain ⟨⟨w, after⟩, hWord, hValue⟩ := h
      cases hValue
      obtain ⟨front, rfl, hLength, rfl⟩ := decodeFixed_eq_some hWord
      refine ⟨fun tail => ?_, front, rfl, List.ne_nil_of_length_pos (by omega), ?_⟩
      · have hLt := Text.ofLittleEndian_lt front
        rw [hLength] at hLt
        have hWord : (UInt64.ofNat (ofLittleEndian front)).toNat < 256 ^ 4 := by
          rw [UInt64.toNat_ofNat']
          exact Nat.lt_of_le_of_lt (Nat.mod_le _ _) hLt
        simp only [decodeScalar, hLayout, encodeScalar, decodeFixed_littleEndian hWord, Option.map_some]
      · simp [encodeScalar]
        omega
  | chunk =>
      simp only [hLayout, Option.bind_eq_bind, Option.bind_eq_some_iff] at h
      obtain ⟨⟨body, after⟩, hChunk, hValue⟩ := h
      obtain ⟨front, rfl, hLt, hLe⟩ := decodeChunk_eq_some hChunk
      have hFits : (encodeChunk body).length ≤ 2 * (front ++ body).length := by
        rw [length_encodeChunk, List.length_append]
        omega
      have hSome : front ++ body ≠ [] := by
        have hPos := length_varintBytes_pos 9 body.length
        exact List.append_ne_nil_of_left_ne_nil (List.ne_nil_of_length_pos (by omega)) _
      by_cases hString : t = .string
      · simp only [if_pos hString] at hValue
        obtain ⟨s, hText, hValue⟩ := Option.bind_eq_some_iff.mp hValue
        cases hValue
        have hBody := utf8_of_ofUtf8? hText
        refine ⟨fun tail => ?_, front ++ body, rfl, hSome, ?_⟩
        · simp [decodeScalar, hLayout, encodeScalar, hBody, decodeChunk_encodeChunk hLt, if_pos hString,
            hText]
        · rwa [encodeScalar, hBody]
      · simp only [if_neg hString] at hValue
        cases hValue
        refine ⟨fun tail => ?_, front ++ body, rfl, hSome, hFits⟩
        simp [decodeScalar, hLayout, encodeScalar, decodeChunk_encodeChunk hLt, hString]

/-- Whether a value has the form that values of a type have. -/
def ScalarType.Forms (t : ScalarType) (v : Value) : Prop :=
  match t with
  | .string => ∃ s, v = .text s
  | .bytes => ∃ b, v = .bytes b
  | .double => ∃ x, v = .double x
  | _ => ∃ w, v = .word w

theorem forms_of_decodeScalar (h : decodeScalar t bytes = some (v, rest)) : t.Forms v := by
  cases t
  case string =>
    simp only [decodeScalar, ScalarType.layout, Option.bind_eq_bind, Option.bind_eq_some_iff,
      if_true] at h
    obtain ⟨p, -, s, -, hValue⟩ := h
    cases hValue
    exact ⟨_, rfl⟩
  case bytes =>
    simp only [decodeScalar, ScalarType.layout, Option.bind_eq_bind, Option.bind_eq_some_iff] at h
    obtain ⟨p, -, hValue⟩ := h
    cases hValue
    exact ⟨_, rfl⟩
  all_goals
    simp only [decodeScalar, ScalarType.layout, Option.map_eq_some_iff] at h
    obtain ⟨p, -, hValue⟩ := h
    cases hValue
    exact ⟨_, rfl⟩

namespace ReadsBack

theorem forms (h : ReadsBack t v) : t.Forms v := forms_of_decodeScalar (h [])

theorem encodeScalar_ne_nil (h : ReadsBack t v) : encodeScalar t.layout v ≠ [] := by
  intro hNil
  have hRead := h []
  rw [hNil] at hRead
  have hNone : decodeScalar t [] = none := by cases t <;> rfl
  simp [hNone] at hRead

end ReadsBack

theorem readsBack_default (t : ScalarType) : ReadsBack t t.default := by
  have hRead : (decodeScalar t (encodeScalar t.layout t.default)).map Prod.fst = some t.default := by
    cases t
    case string =>
      have hEmpty : utf8 "" = [] := List.eq_nil_of_length_eq_zero (Text.length_toUTF8 "")
      have hText := ofUtf8?_utf8 ""
      rw [hEmpty] at hText
      have hChunk := @decodeChunk_encodeChunk [] [] (by decide)
      rw [List.append_nil] at hChunk
      simp [decodeScalar, ScalarType.layout, ScalarType.default, encodeScalar, hEmpty, hChunk, hText]
    all_goals rfl
  obtain ⟨⟨v, rest⟩, hRead, hValue⟩ := Option.map_eq_some_iff.mp hRead
  cases hValue
  exact (readsBack_of_decodeScalar hRead).1

/-- A value without the sign of a zero. -/
def Value.unsigned : Value → Value
  | .double x => .double (if x.isZero then .zero else x)
  | v => v

@[simp] theorem isDefault_unsigned (v : Value) : v.unsigned.isDefault = v.isDefault := by
  cases v with
  | double x =>
      rw [Value.unsigned, Value.isDefault, Value.isDefault]
      split
      · next hZero => rw [hZero]; decide
      · rfl
  | _ => rfl

theorem unsigned_of_not_isDefault (h : v.isDefault = false) : v.unsigned = v := by
  cases v with
  | double x => rw [Value.unsigned, if_neg (by simpa [Value.isDefault] using h)]
  | _ => rfl

theorem ReadsBack.unsigned_of_isDefault (h : ReadsBack t v) (hDefault : v.isDefault = true) :
    v.unsigned = t.default := by
  have hForms := h.forms
  cases t <;> obtain ⟨x, rfl⟩ := hForms
  case string => exact congrArg Value.text (String.isEmpty_iff.mp hDefault)
  case bytes => exact congrArg Value.bytes (List.isEmpty_iff.mp hDefault)
  case double => exact congrArg Value.double (if_pos hDefault)
  all_goals exact congrArg Value.word (eq_of_beq hDefault)

end Telemetry.Wire
