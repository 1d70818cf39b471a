import Telemetry.Proofs.Wire.Conformance
import Telemetry.Proofs.Wire.Settling

/-!
# The size of what was read

A message that was read is written in no more than twice as many bytes as it was read from. While it is
read, the size of what was read so far and twice the size of what is still to be read do not grow together.
-/

namespace Telemetry.Wire

open Text (Bytes)

variable {t s : MessageType} {u : ScalarType} {f : Field} {fields : List Field} {m m' : Message}
  {v : Value} {vs ws : List Value} {i d : Nat}

/-! ## The size of a message by its slots -/

@[simp] theorem encodeSlot_nil (f : Field) : encodeSlot f [] = [] := by
  rw [encodeSlot]
  cases f.type with
  | scalar u => simp [encodeValues]
  | message s => rfl

theorem encodeSlot_initial (f : Field) : encodeSlot f f.initial = [] := by
  by_cases hPlain : f.presence = .plain
  · cases hType : f.type with
    | scalar u =>
        have hDefault : u.default.isDefault = true := by cases u <;> decide
        simp [initial_of_plain hPlain hType, encodeSlot, hType, encodeValues, hPlain, hDefault]
    | message s => rw [initial_of_message hType, encodeSlot_nil]
  · rw [initial_of_ne_plain hPlain, encodeSlot_nil]

theorem encodeSlots_initial (fields : List Field) : encodeSlots fields (fields.map Field.initial) = [] := by
  induction fields with
  | nil => rfl
  | cons f fields ih => rw [List.map_cons, encodeSlots_cons, encodeSlot_initial, ih, List.nil_append]

theorem encode_blank (t : MessageType) : encode t t.blank = [] := encodeSlots_initial t.fields

theorem length_encodeSlots_set (hAt : fields[i]? = some f)
    (hSlot : (encodeSlot f vs).length ≤ (encodeSlot f (m.slot i)).length + d) :
    (encodeSlots fields (m.set i vs)).length ≤ (encodeSlots fields m).length + d := by
  induction fields generalizing m i with
  | nil => cases hAt
  | cons g fields ih =>
      cases m with
      | nil => exact Nat.le_add_right _ _
      | cons ws m =>
          rw [encodeSlots_cons, List.length_append]
          cases i with
          | zero =>
              cases hAt
              change (encodeSlot _ vs).length ≤ (encodeSlot _ ws).length + d at hSlot
              rw [List.set_cons_zero, encodeSlots_cons, List.length_append]
              omega
          | succ i =>
              have hRest := ih hAt hSlot
              rw [List.set_cons_succ, encodeSlots_cons, List.length_append]
              omega

theorem length_encodeSlot_le (hAt : fields[i]? = some f) :
    (encodeSlot f (m.slot i)).length ≤ (encodeSlots fields m).length := by
  induction fields generalizing m i with
  | nil => cases hAt
  | cons g fields ih =>
      cases m with
      | nil =>
          change (encodeSlot f []).length ≤ _
          rw [encodeSlot_nil]
          exact Nat.zero_le _
      | cons ws m =>
          rw [encodeSlots_cons, List.length_append]
          cases i with
          | zero =>
              cases hAt
              exact Nat.le_add_right _ _
          | succ i => exact Nat.le_trans (ih (m := m) (i := i) hAt) (Nat.le_add_left _ _)

theorem length_encodeSlots_clearChoice (fields : List Field) (m : Message) :
    (encodeSlots fields (clearChoice fields m)).length ≤ (encodeSlots fields m).length := by
  induction fields generalizing m with
  | nil => exact Nat.zero_le _
  | cons g fields ih =>
      cases m with
      | nil => exact Nat.zero_le _
      | cons ws m =>
          have hRest := ih m
          rw [clearChoice] at hRest
          rw [clearChoice, List.zipWith_cons_cons, encodeSlots_cons, encodeSlots_cons, List.length_append,
            List.length_append]
          split
          · rw [encodeSlot_nil, List.length_nil]
            omega
          · omega

theorem length_encodeSlots_choose (fields : List Field) (m : Message) (i : Nat) (vs : List Value) :
    (encodeSlots fields ((clearChoice fields m).set i vs)).length ≤
      (encodeSlots fields (m.set i vs)).length := by
  induction fields generalizing m i with
  | nil => exact Nat.zero_le _
  | cons g fields ih =>
      cases m with
      | nil => exact Nat.zero_le _
      | cons ws m =>
          rw [clearChoice, List.zipWith_cons_cons]
          cases i with
          | zero =>
              have hRest := length_encodeSlots_clearChoice fields m
              rw [clearChoice] at hRest
              rw [List.set_cons_zero, List.set_cons_zero, encodeSlots_cons, encodeSlots_cons,
                List.length_append, List.length_append]
              omega
          | succ i =>
              have hRest := ih m i
              rw [clearChoice] at hRest
              rw [List.set_cons_succ, List.set_cons_succ, encodeSlots_cons, encodeSlots_cons,
                List.length_append, List.length_append]
              split
              · rw [encodeSlot_nil, List.length_nil]
                omega
              · omega

theorem length_encode_storeScalar (hAt : t.fields[i]? = some f)
    (hAppend : f.presence = .repeated →
      (encodeSlot f (m.slot i ++ [v])).length ≤ (encodeSlot f (m.slot i)).length + d)
    (hReplace : f.presence ≠ .repeated →
      (encodeSlot f [v]).length ≤ (encodeSlot f (m.slot i)).length + d) :
    (encode t (storeScalar t m i f.presence v)).length ≤ (encode t m).length + d := by
  cases hPresence : f.presence with
  | repeated => exact length_encodeSlots_set hAt (hAppend hPresence)
  | choice =>
      exact Nat.le_trans (length_encodeSlots_choose _ _ _ _)
        (length_encodeSlots_set hAt (hReplace (by simp [hPresence])))
  | plain | optional => exact length_encodeSlots_set hAt (hReplace (by simp [hPresence]))

/-! ## The size of a slot -/

/-- The code of a layout does not count for the size of a key. -/
theorem length_varintBytes_code {code fuel n : Nat} (hCode : code < 8) :
    (varintBytes fuel (8 * n + code)).length = (varintBytes fuel (8 * n)).length := by
  induction fuel generalizing n code with
  | zero => rfl
  | succ fuel ih =>
      have hHigh : (8 * n + code) / 128 = n / 16 := by omega
      have hHigh' : 8 * n / 128 = n / 16 := by omega
      rw [varintBytes, varintBytes, hHigh, hHigh']
      by_cases hSmall : 8 * n + code < 128
      · rw [if_pos hSmall, if_pos (by omega)]
        rfl
      · rw [if_neg hSmall, if_neg (by omega)]
        rfl

theorem length_encodeKey (number : Nat) (layout : Layout) :
    (encodeKey number layout).length = (varintBytes 9 (8 * number)).length := by
  rw [encodeKey, length_varintBytes_code]
  cases layout <;> decide

/-- The size of values that are written together. -/
def packedSize (u : ScalarType) (vs : List Value) : Nat := (vs.flatMap (encodeScalar u.layout)).length

theorem packedSize_append (u : ScalarType) (vs ws : List Value) :
    packedSize u (vs ++ ws) = packedSize u vs + packedSize u ws := by
  rw [packedSize, List.flatMap_append, List.length_append]
  rfl

theorem length_encodeSlot_of_packed (hType : f.type = .scalar u)
    (hPacked : f.presence = .repeated ∧ u.packs = true) (vs : List Value) :
    (encodeSlot f vs).length = if vs.isEmpty then 0 else
      (varintBytes 9 (8 * f.number)).length + ((varintBytes 9 (packedSize u vs)).length + packedSize u vs) := by
  rw [encodeSlot, hType]
  simp only [encodeValues, if_pos hPacked]
  split
  · rfl
  · rw [List.length_append, length_encodeKey, length_encodeChunk]
    rfl

/-- Further values are put into a slot of values that are written together. -/
theorem length_encode_packed (hType : f.type = .scalar u) (hPacked : f.presence = .repeated ∧ u.packs = true)
    (hAt : t.fields[i]? = some f)
    (hMore : (varintBytes 9 (8 * f.number)).length +
      ((varintBytes 9 (packedSize u ws)).length + packedSize u ws) ≤ d)
    (hSize : (encode t m).length + d < 2 ^ 64) :
    (encode t (m.withSlot i (m.slot i ++ ws))).length ≤ (encode t m).length + d := by
  refine length_encodeSlots_set hAt ?_
  have hWhole := length_encodeSlot_of_packed hType hPacked
  have hSlot : (encodeSlot f (m.slot i)).length ≤ (encode t m).length := length_encodeSlot_le hAt
  cases hOld : m.slot i with
  | nil =>
      rw [List.nil_append, hWhole]
      split <;> omega
  | cons v vs =>
      rw [hOld, hWhole, if_neg (by simp)] at hSlot
      have hAdd := @length_varintBytes_add_le (packedSize u ws) (packedSize u (v :: vs)) (by omega)
      rw [hWhole, hWhole, if_neg (by simp), if_neg (by simp), packedSize_append]
      omega

theorem length_encodeSlot_append (hType : f.type = .scalar u) (hRepeated : f.presence = .repeated)
    (hApart : u.packs = false) :
    (encodeSlot f (vs ++ [v])).length = (encodeSlot f vs).length +
      ((varintBytes 9 (8 * f.number)).length + (encodeScalar u.layout v).length) := by
  have hWhole : ∀ ws : List Value, encodeSlot f ws =
      ws.flatMap fun v => encodeKey f.number u.layout ++ encodeScalar u.layout v := by
    intro ws
    have hEncode : encodeSlot f ws = encodeValues f u ws := by simp [encodeSlot, hType]
    rw [hEncode, encodeValues_of_ne_plain ws (by simp [hRepeated]) (by simp [hApart])]
  rw [hWhole, hWhole, List.flatMap_append, List.flatMap_singleton, List.length_append, List.length_append,
    length_encodeKey]

theorem length_encodeSlot_singleton (hType : f.type = .scalar u) (hNot : f.presence ≠ .repeated) :
    (encodeSlot f [v]).length ≤
      (varintBytes 9 (8 * f.number)).length + (encodeScalar u.layout v).length := by
  have hEncode : encodeSlot f [v] = encodeValues f u [v] := by simp [encodeSlot, hType]
  rw [hEncode, encodeValues, if_neg (by simp [hNot]), List.filter_cons, List.filter_nil]
  split
  · rw [List.flatMap_singleton, List.length_append, length_encodeKey]
  · exact Nat.zero_le _

theorem length_encodeSlot_part (hType : f.type = .message s) (part : Message) :
    (encodeSlot f (vs ++ [.message part])).length = (encodeSlot f vs).length +
      ((varintBytes 9 (8 * f.number)).length +
        ((varintBytes 9 (encode s part).length).length + (encode s part).length)) := by
  have hEncode : ∀ ws, encodeSlot f ws = encodeParts f.number s ws := fun ws => by simp [encodeSlot, hType]
  rw [hEncode, hEncode, encodeParts_eq_flatMap, encodeParts_eq_flatMap, List.flatMap_append,
    List.flatMap_singleton, List.length_append, length_encodePart, length_encodeKey]

/-- Numbers that may be written together take ten bytes each at most. -/
theorem length_encodeScalar_le (hPacks : u.packs = true) (hBack : ReadsBack u v) :
    (encodeScalar u.layout v).length ≤ 10 := by
  have hForms := hBack.forms
  have hWord : ∀ w : UInt64, (encodeVarint w).length ≤ 10 := fun w =>
    length_encodeVarint_le (Nat.lt_trans w.toNat_lt (by decide)) (by decide)
  cases u <;> cases hPacks
  all_goals
    obtain ⟨x, rfl⟩ := hForms
    first | exact hWord x | exact (Text.length_littleEndian _ _).trans_le (by decide)

theorem packedSize_le {fuel : Nat} {bytes : Bytes} (h : decodePacked u fuel bytes = some vs) :
    packedSize u vs ≤ 2 * bytes.length := by
  induction fuel generalizing bytes vs with
  | zero =>
      cases bytes with
      | nil =>
          cases h
          exact Nat.zero_le _
      | cons b rest => cases h
  | succ fuel ih =>
      cases bytes with
      | nil =>
          cases h
          exact Nat.zero_le _
      | cons b rest =>
          simp only [decodePacked, Option.bind_eq_bind, Option.bind_eq_some_iff] at h
          obtain ⟨⟨v, after⟩, hValue, ws, hRest, hAll⟩ := h
          cases hAll
          obtain ⟨-, front, hBytes, -, hFront⟩ := readsBack_of_decodeScalar hValue
          have hTail : packedSize u ws ≤ 2 * after.length := ih hRest
          change packedSize u (v :: ws) ≤ _
          rw [packedSize] at hTail
          rw [hBytes, packedSize, List.flatMap_cons, List.length_append, List.length_append]
          omega

/-! ## Reading -/

/-- A reader of messages inside does not make more of some bytes than twice their number. -/
def Bounded (nested : MessageType → Message → Bytes → Option Message) : Prop :=
  ∀ s m bytes m', nested s m bytes = some m' → (encode s m).length + 2 * bytes.length < 2 ^ 64 →
    (encode s m').length ≤ (encode s m).length + 2 * bytes.length

variable {nested : MessageType → Message → Bytes → Option Message} {skip : Key → Bytes → Option Bytes}
  {bytes rest : Bytes} {code fuel k : Nat}

theorem length_varintBytes_double {n : Nat} (hSize : 2 * n < 2 ^ 64) :
    (varintBytes 9 (2 * n)).length ≤ 2 * (varintBytes 9 n).length := by
  rw [Nat.two_mul, Nat.two_mul]
  exact length_varintBytes_add_le (by omega)

/-- A message that grows by so much takes with its length no more than that and twice the length. -/
theorem chunk_growth {old new body : Nat} (hNew : new ≤ old + 2 * body) (hSize : old + 2 * body < 2 ^ 64) :
    (varintBytes 9 new).length + new ≤
      (varintBytes 9 old).length + old + 2 * ((varintBytes 9 body).length + body) := by
  have hLength := length_varintBytes_mono hNew hSize
  have hAdd := length_varintBytes_add_le hSize
  have hDouble := @length_varintBytes_double body (by omega)
  omega

theorem length_storeScalar_read (hType : f.type = .scalar u) (hAt : t.fields[i]? = some f)
    (hKey : (varintBytes 9 (8 * f.number)).length ≤ k) (hBack : ReadsBack u v)
    (hFront : (encodeScalar u.layout v).length ≤ 2 * d) (hSize : (encode t m).length + 2 * (k + d) < 2 ^ 64) :
    (encode t (storeScalar t m i f.presence v)).length ≤ (encode t m).length + 2 * (k + d) := by
  have hKeyPos := length_varintBytes_pos 9 (8 * f.number)
  by_cases hPacked : f.presence = .repeated ∧ u.packs = true
  · have hTen := length_encodeScalar_le hPacked.2 hBack
    have hOne : packedSize u [v] = (encodeScalar u.layout v).length := by
      rw [packedSize, List.flatMap_singleton]
    have hLength : (varintBytes 9 (packedSize u [v])).length ≤ 1 :=
      length_varintBytes_le (by decide) (by omega)
    rw [hPacked.1]
    exact length_encode_packed hType hPacked hAt (by omega) hSize
  · refine length_encode_storeScalar hAt (fun hRepeated => ?_) (fun hNot => ?_)
    · rw [length_encodeSlot_append hType hRepeated (by simpa [hRepeated] using hPacked)]
      omega
    · have hSingle := @length_encodeSlot_singleton u f v hType hNot
      omega

theorem length_encode_messageAt? (hType : f.type = .message s) {old : Message}
    (hOld : m.messageAt? i = some old) :
    (varintBytes 9 (8 * f.number)).length +
      ((varintBytes 9 (encode s old).length).length + (encode s old).length) ≤
      (encodeSlot f (m.slot i)).length := by
  obtain ⟨v, hMem, hValue⟩ := List.mem_filterMap.mp (List.mem_of_head? hOld)
  cases v with
  | message slots =>
      cases hValue
      obtain ⟨before, after, hSlot⟩ := List.append_of_mem hMem
      have hEncode : ∀ ws, encodeSlot f ws = encodeParts f.number s ws := fun ws => by simp [encodeSlot, hType]
      rw [hSlot, hEncode, encodeParts_eq_flatMap, List.flatMap_append, List.flatMap_cons,
        List.length_append, List.length_append, length_encodePart, length_encodeKey]
      omega
  | _ => cases hValue

theorem length_encode_getD_le (hType : f.type = .message s) (hAt : t.fields[i]? = some f) :
    (encode s ((m.messageAt? i).getD s.blank)).length ≤ (encode t m).length := by
  cases hOld : m.messageAt? i with
  | none =>
      rw [Option.getD_none, encode_blank]
      exact Nat.zero_le _
  | some old =>
      have hThere := length_encode_messageAt? hType hOld
      have hSlot : (encodeSlot f (m.slot i)).length ≤ (encode t m).length := length_encodeSlot_le hAt
      rw [Option.getD_some]
      omega

section Parts

variable {part : Message} {body l : Nat} (hType : f.type = .message s) (hAt : t.fields[i]? = some f)
  (hKey : (varintBytes 9 (8 * f.number)).length ≤ k) (hLength : (varintBytes 9 body).length ≤ l)

include hType hAt hKey hLength

/-- A message that occurs any number of times is read into its slot. -/
theorem length_encode_appendPart (hPart : (encode s part).length ≤ 2 * body) (hSize : 2 * body < 2 ^ 64) :
    (encode t (m.withSlot i (m.slot i ++ [.message part]))).length ≤
      (encode t m).length + 2 * (k + l + body) := by
  refine length_encodeSlots_set hAt ?_
  have hKeyPos := length_varintBytes_pos 9 (8 * f.number)
  have hZero : (varintBytes 9 0).length = 1 := rfl
  have hGrowth := @chunk_growth 0 (encode s part).length body (by omega) (by omega)
  rw [length_encodeSlot_part hType]
  omega

/-- A message that occurs once is read into its slot, or goes on being read there. -/
theorem length_encode_storePart (hNot : f.presence ≠ .repeated)
    (hPart : (encode s part).length ≤ (encode s ((m.messageAt? i).getD s.blank)).length + 2 * body)
    (hSize : (encode t m).length + 2 * body < 2 ^ 64) :
    (encode t (storeScalar t m i f.presence (.message part))).length ≤
      (encode t m).length + 2 * (k + l + body) := by
  refine length_encode_storeScalar hAt (fun hRepeated => absurd hRepeated hNot) (fun _ => ?_)
  have hKeyPos := length_varintBytes_pos 9 (8 * f.number)
  have hOldSize := @length_encode_getD_le t s f m i hType hAt
  have hGrowth := chunk_growth hPart (by omega)
  have hNew := @length_encodeSlot_part s f [] hType part
  rw [encodeSlot_nil, List.length_nil, Nat.zero_add, List.nil_append] at hNew
  rw [hNew]
  cases hOld : m.messageAt? i with
  | none =>
      have hZero : (varintBytes 9 0).length = 1 := rfl
      rw [hOld, Option.getD_none, encode_blank, List.length_nil] at hGrowth
      omega
  | some old =>
      have hThere := length_encode_messageAt? hType hOld
      rw [hOld, Option.getD_some] at hGrowth
      omega

end Parts

theorem length_decodeKnown (hNested : Bounded nested) (hAt : t.fields[i]? = some f)
    (hKey : (varintBytes 9 (8 * f.number)).length ≤ k)
    (hRead : decodeKnown nested t m i f code bytes = some (m', rest))
    (hSize : (encode t m).length + 2 * (k + bytes.length) < 2 ^ 64) :
    (encode t m').length + 2 * rest.length ≤ (encode t m).length + 2 * (k + bytes.length) := by
  -- In each case the bytes are a front that was read and the rest, and the message grows by twice the front.
  suffices hGrows : ∃ front, bytes = front ++ rest ∧
      (encode t m').length ≤ (encode t m).length + 2 * (k + front.length) by
    obtain ⟨front, rfl, hGrows⟩ := hGrows
    rw [List.length_append]
    omega
  rw [decodeKnown] at hRead
  cases hType : f.type with
  | scalar u =>
      simp only [hType] at hRead
      split at hRead
      · obtain ⟨⟨v, after⟩, hValue, hStore⟩ := Option.bind_eq_some_iff.mp hRead
        cases hStore
        obtain ⟨hBack, front, rfl, -, hFront⟩ := readsBack_of_decodeScalar hValue
        rw [List.length_append] at hSize
        exact ⟨front, rfl, length_storeScalar_read hType hAt hKey hBack hFront (by omega)⟩
      · split at hRead
        · next hPacked =>
          obtain ⟨⟨body, after⟩, hChunk, hBody⟩ := Option.bind_eq_some_iff.mp hRead
          obtain ⟨ws, hValues, hStore⟩ := Option.bind_eq_some_iff.mp hBody
          cases hStore
          obtain ⟨front, rfl, -, hFront⟩ := decodeChunk_eq_some hChunk
          rw [List.length_append, List.length_append] at hSize
          have hValues : packedSize u ws ≤ 2 * body.length := packedSize_le hValues
          have hLength := Nat.le_trans (@length_varintBytes_mono _ _ hValues (by omega))
            (length_varintBytes_double (by omega))
          refine ⟨front ++ body, rfl, ?_⟩
          rw [List.length_append]
          exact length_encode_packed hType hPacked.2 hAt (by omega) (by omega)
        · cases hRead
  | message s =>
      simp only [hType] at hRead
      split at hRead
      · cases hRead
      obtain ⟨⟨body, after⟩, hChunk, hBody⟩ := Option.bind_eq_some_iff.mp hRead
      obtain ⟨front, rfl, -, hFront⟩ := decodeChunk_eq_some hChunk
      rw [List.length_append, List.length_append] at hSize
      cases hPresence : f.presence with
      | repeated =>
          simp only [hPresence] at hBody
          obtain ⟨part, hPart, hStore⟩ := Option.bind_eq_some_iff.mp hBody
          cases hStore
          have hPart := hNested s _ body part hPart
          rw [encode_blank, List.length_nil, Nat.zero_add] at hPart
          refine ⟨front ++ body, rfl, ?_⟩
          rw [List.length_append, ← Nat.add_assoc]
          exact length_encode_appendPart hType hAt hKey hFront (hPart (by omega)) (by omega)
      | _ =>
          simp only [hPresence] at hBody
          obtain ⟨part, hPart, hStore⟩ := Option.bind_eq_some_iff.mp hBody
          cases hStore
          have hOldSize := @length_encode_getD_le t s f m i hType hAt
          refine ⟨front ++ body, rfl, ?_⟩
          rw [List.length_append, ← Nat.add_assoc, ← hPresence]
          exact length_encode_storePart hType hAt hKey hFront (by simp [hPresence])
            (hNested s _ body part hPart (by omega)) (by omega)

/-- What is skipped is not read again. -/
def Shortens (skip : Key → Bytes → Option Bytes) : Prop :=
  ∀ key bytes rest, skip key bytes = some rest → rest.length ≤ bytes.length

theorem length_skipGroup (hSkip : Shortens skip) {number : Nat}
    (h : skipGroup skip number fuel bytes = some rest) : rest.length ≤ bytes.length := by
  induction fuel generalizing bytes with
  | zero => cases h
  | succ fuel ih =>
      rw [skipGroup, Option.bind_eq_bind] at h
      obtain ⟨⟨key, after⟩, hKey, hRest⟩ := Option.bind_eq_some_iff.mp h
      obtain ⟨front, rfl, -⟩ := decodeKey_eq_some hKey
      rw [List.length_append]
      simp only at hRest
      split at hRest
      · split at hRest
        · cases hRest
          exact Nat.le_add_left _ _
        · cases hRest
      · obtain ⟨tail, hTail, hGroup⟩ := Option.bind_eq_some_iff.mp hRest
        have hLess := hSkip key after tail hTail
        have hMore := ih hGroup
        omega

theorem shortens_skipValue (room : Nat) : Shortens (skipValue room) := by
  induction room with
  | zero =>
      intro key bytes rest h
      cases h
  | succ room ih =>
      intro key bytes rest h
      rw [skipValue] at h
      split at h
      · obtain ⟨⟨w, after⟩, hWord, rfl⟩ := Option.map_eq_some_iff.mp h
        obtain ⟨front, rfl, -⟩ := decodeVarint_eq_some hWord
        simp
      · obtain ⟨⟨w, after⟩, hWord, rfl⟩ := Option.map_eq_some_iff.mp h
        obtain ⟨front, rfl, -⟩ := decodeFixed_eq_some hWord
        simp
      · obtain ⟨⟨body, after⟩, hChunk, rfl⟩ := Option.map_eq_some_iff.mp h
        obtain ⟨front, rfl, -⟩ := decodeChunk_eq_some hChunk
        rw [List.length_append]
        exact Nat.le_add_left _ _
      · exact length_skipGroup ih h
      · obtain ⟨⟨w, after⟩, hWord, rfl⟩ := Option.map_eq_some_iff.mp h
        obtain ⟨front, rfl, -⟩ := decodeFixed_eq_some hWord
        simp
      · cases h

theorem length_decodeFields (hNested : Bounded nested) (hSkip : Shortens skip)
    (hRead : decodeFields nested skip t fuel m bytes = some m')
    (hSize : (encode t m).length + 2 * bytes.length < 2 ^ 64) :
    (encode t m').length ≤ (encode t m).length + 2 * bytes.length := by
  induction fuel generalizing m bytes with
  | zero =>
      rcases decodeFields_eq_some hRead with ⟨-, rfl⟩ | ⟨left, key, after, hFuel, -⟩
      · exact Nat.le_add_right _ _
      · cases hFuel
  | succ fuel ih =>
      rcases decodeFields_eq_some hRead with ⟨-, rfl⟩ | ⟨left, key, after, hFuel, hKey, hField⟩
      · exact Nat.le_add_right _ _
      cases hFuel
      obtain ⟨front, rfl, -, hCode, hFront⟩ := decodeKey_eq_some hKey
      rw [length_varintBytes_code hCode] at hFront
      rw [List.length_append] at hSize ⊢
      rcases hField with ⟨i, f, m₁, rest, hAt, hNumber, hKnown, hRest⟩ | ⟨rest, hSkipped, hRest⟩
      · rw [← hNumber] at hFront
        have hStep := length_decodeKnown hNested hAt hFront hKnown (by omega)
        have hMore := ih hRest (by omega)
        omega
      · have hLess := hSkip key after rest hSkipped
        have hMore := ih hRest (by omega)
        omega

theorem bounded_decodeInto (room : Nat) : Bounded (decodeInto room) := by
  induction room with
  | zero =>
      intro t m bytes m' hRead hSize
      exact length_decodeFields (fun s m bytes m' hNone => by cases hNone)
        (fun key bytes rest hNone => by cases hNone) hRead hSize
  | succ room ih =>
      intro t m bytes m' hRead hSize
      exact length_decodeFields ih (shortens_skipValue (room + 1)) hRead hSize

/-- A message that was read is written in no more than twice as many bytes. -/
theorem length_encode_of_decode? (hRead : decode? t bytes = some m) (hSize : 2 * bytes.length < 2 ^ 64) :
    (encode t m).length ≤ 2 * bytes.length := by
  have hBounded := bounded_decodeInto maxNesting t t.blank bytes m hRead
  rw [encode_blank, List.length_nil, Nat.zero_add] at hBounded
  exact hBounded hSize

end Telemetry.Wire
