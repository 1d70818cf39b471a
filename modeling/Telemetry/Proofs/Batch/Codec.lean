import Telemetry.Batch.Request
import Telemetry.Proofs.Wire.RoundTrip
import Telemetry.Proofs.Wire.Size

/-!
# Batches in their binary form

A batch that was read is read again from its binary form as it settles: only the signs of zeros in plain
fields are lost. It has the same number of items and the same binary form, which is what is stored when a
batch is recovered and stored again.
-/

namespace Telemetry

open Wire
open Text (Bytes)

/-! ## Messages with types of their own -/

section Views

variable {P : MessageType → Message → Prop} {t s : MessageType} {u : ScalarType} {f : Field} {m : Message}
  {i : Nat}

/-- A message that conforms to the schema, however deep it is. -/
def Conforming (t : MessageType) (m : Message) : Prop := ∃ room, Conforms room t m

namespace Wire

theorem FieldType.Holds.mono {Q : MessageType → Message → Prop} (hWeaker : ∀ s part, P s part → Q s part)
    {type : FieldType} {v : Value} (h : type.Holds P v) : type.Holds Q v := by
  cases type with
  | scalar u => exact h
  | message s =>
      cases v with
      | message part => exact hWeaker s part h
      | _ => cases h

theorem MessageType.Allows.mono {Q : MessageType → Message → Prop}
    (hWeaker : ∀ s part, P s part → Q s part) (h : t.Allows P m) : t.Allows Q m where
  slots := h.slots.imp fun _ _ hSlot =>
    ⟨fun v hMem => (hSlot.holds v hMem).mono hWeaker, hSlot.plain, hSlot.single⟩
  choice := h.choice

end Wire

theorem Conforming.allows (h : Conforming t m) : t.Allows Conforming m := by
  obtain ⟨room, hRoom⟩ := h
  cases room with
  | zero => exact MessageType.Allows.mono (fun s part hNone => hNone.elim) hRoom
  | succ room => exact MessageType.Allows.mono (fun s part hPart => ⟨room, hPart⟩) hRoom

namespace Wire.MessageType.Allows

/-- The messages in a slot are all there is in it. -/
theorem slot_eq_messagesAt (h : t.Allows P m) (hAt : t.fields[i]? = some f) (hType : f.type = .message s) :
    m.slot i = (m.messagesAt i).map .message := by
  have hHolds := (h.slot hAt).holds
  rw [hType] at hHolds
  rw [Message.messagesAt]
  generalize m.slot i = vs at hHolds ⊢
  induction vs with
  | nil => rfl
  | cons v vs ih =>
      obtain ⟨hHead, hTail⟩ := List.forall_mem_cons.mp hHolds
      cases v with
      | message part => exact congrArg (Value.message part :: ·) (ih hTail)
      | _ => cases hHead

theorem conforms_of_mem (h : t.Allows P m) (hAt : t.fields[i]? = some f) (hType : f.type = .message s)
    {part : Message} (hMem : part ∈ m.messagesAt i) : P s part := by
  have hHolds := (h.slot hAt).holds (.message part) (by
    rw [h.slot_eq_messagesAt hAt hType]
    exact List.mem_map_of_mem hMem)
  rwa [hType] at hHolds

theorem slot_eq_messageAt? (h : t.Allows P m) (hAt : t.fields[i]? = some f) (hType : f.type = .message s)
    (hNot : f.presence ≠ .repeated) : m.slot i = (m.messageAt? i).toList.map .message := by
  have hSingle := (h.slot hAt).single hNot
  rw [h.slot_eq_messagesAt hAt hType, List.length_map] at hSingle
  rw [h.slot_eq_messagesAt hAt hType, Message.messageAt?]
  obtain hNone | ⟨part, hPart⟩ := eq_nil_or_singleton hSingle
  · rw [hNone]
    rfl
  · rw [hPart]
    rfl

theorem exists_slot (h : t.Allows P m) (hAt : t.fields[i]? = some f) (hType : f.type = .scalar u)
    (hPlain : f.presence = .plain) : ∃ v, m.slot i = [v] ∧ u.Forms v := by
  have hSlot := h.slot hAt
  obtain ⟨v, hValue⟩ := List.length_eq_one_iff.mp <| Nat.le_antisymm (hSlot.single (by simp [hPlain]))
    (List.length_pos_iff.mpr (hSlot.plain hPlain))
  have hHolds := hSlot.holds v (by simp [hValue])
  rw [hType] at hHolds
  exact ⟨v, hValue, ReadsBack.forms hHolds⟩

theorem slot_eq_textAt (h : t.Allows P m) (hAt : t.fields[i]? = some f) (hType : f.type = .scalar .string)
    (hPlain : f.presence = .plain) : m.slot i = [.text (m.textAt i)] := by
  obtain ⟨v, hSlot, text, rfl⟩ := h.exists_slot hAt hType hPlain
  rw [Message.textAt, hSlot]

theorem slot_eq_wordAt (h : t.Allows P m) (hAt : t.fields[i]? = some f) (hType : f.type = .scalar .uint32)
    (hPlain : f.presence = .plain) : m.slot i = [.word (m.wordAt i)] := by
  obtain ⟨v, hSlot, w, rfl⟩ := h.exists_slot hAt hType hPlain
  rw [Message.wordAt, hSlot]

theorem eq_map_slot (h : t.Allows P m) : m = (List.range t.fields.length).map m.slot := by
  refine List.ext_getElem (by simp [h.length_eq]) fun i hLt _ => ?_
  simp [Message.slot, hLt]

/-- A group is what is at its head, its items, and where their schema is found. -/
theorem eq_group {head items : MessageType} {k l : Nat} {a b : String} (h : t.Allows P m)
    (hFields : t.fields = groupFields (.part k a head) (.parts l b items)) :
    m = [(m.messageAt? 0).toList.map .message, (m.messagesAt 1).map .message, [.text (m.textAt 2)]] := by
  have hAt : ∀ i : Nat, t.fields[i]? = (groupFields (.part k a head) (.parts l b items))[i]? := by
    simp [hFields]
  rw [← h.slot_eq_messageAt? (hAt 0) rfl (by simp [Field.part]), ← h.slot_eq_messagesAt (hAt 1) rfl,
    ← h.slot_eq_textAt (hAt 2) rfl rfl]
  conv_lhs => rw [h.eq_map_slot, hFields]
  rfl

end Wire.MessageType.Allows

/-! ## The types around the items -/

theorem map_message_map {P : Message → Prop} {f : Message → α} {g : α → Message} {parts : List Message}
    (hParts : ∀ part ∈ parts, P part) (hSame : ∀ part, P part → g (f part) = part) :
    (parts.map f).map (fun a => Value.message (g a)) = parts.map .message := by
  rw [List.map_map]
  exact List.map_congr_left fun part hMem => congrArg Value.message (hSame part (hParts part hMem))

theorem Attribute.toMessage_ofMessage (h : Conforming .keyValue m) : (ofMessage m).toMessage = m := by
  have hAllows := h.allows
  rw [toMessage, ofMessage, ← hAllows.slot_eq_textAt (i := 0) rfl rfl rfl,
    ← hAllows.slot_eq_messageAt? (i := 1) rfl rfl (by decide)]
  exact hAllows.eq_map_slot.symm

theorem Resource.toMessage_ofMessage (h : Conforming .resource m) : (ofMessage m).toMessage = m := by
  have hAllows := h.allows
  have hAttributes := fun a (hMem : a ∈ m.messagesAt 0) => hAllows.conforms_of_mem (i := 0) rfl rfl hMem
  rw [toMessage, ofMessage, map_message_map hAttributes fun a => Attribute.toMessage_ofMessage,
    ← hAllows.slot_eq_messagesAt (i := 0) rfl rfl, ← hAllows.slot_eq_wordAt (i := 1) rfl rfl rfl,
    ← hAllows.slot_eq_messagesAt (i := 2) rfl rfl]
  exact hAllows.eq_map_slot.symm

theorem scopeType_fields (type : BatchType) : ∃ name items,
    type.scopeType.fields = groupFields (.part 1 "scope" .scope) (.parts 2 name items) := by
  cases type <;> exact ⟨_, _, rfl⟩

theorem groupType_fields (type : BatchType) : ∃ name,
    type.groupType.fields = groupFields (.part 1 "resource" .resource) (.parts 2 name type.scopeType) := by
  cases type <;> exact ⟨_, rfl⟩

theorem requestType_fields (type : BatchType) : ∃ name,
    type.requestType.fields = [.parts 1 name type.groupType] := by
  cases type <;> exact ⟨_, rfl⟩

theorem ScopeGroup.toMessage_ofMessage {type : BatchType} (h : Conforming type.scopeType m) :
    (ofMessage m).toMessage = m := by
  obtain ⟨name, items, hFields⟩ := scopeType_fields type
  exact (h.allows.eq_group hFields).symm

theorem ResourceGroup.toMessage_ofMessage {type : BatchType} (h : Conforming type.groupType m) :
    (ofMessage m).toMessage = m := by
  obtain ⟨name, hFields⟩ := groupType_fields type
  have hAllows := h.allows
  have hResource : ∀ r ∈ (m.messageAt? 0).toList, Conforming .resource r := fun r hMem =>
    hAllows.conforms_of_mem (i := 0) (by rw [hFields]; rfl) rfl
      (List.mem_of_head? (Option.mem_toList.mp hMem))
  have hScopes : ∀ s ∈ m.messagesAt 1, Conforming type.scopeType s := fun s hMem =>
    hAllows.conforms_of_mem (i := 1) (by rw [hFields]; rfl) rfl hMem
  rw [toMessage, ofMessage, Option.toList_map,
    map_message_map hResource fun r => Resource.toMessage_ofMessage,
    map_message_map hScopes fun s => ScopeGroup.toMessage_ofMessage]
  exact (hAllows.eq_group hFields).symm

/-- Nothing of a message is lost when it becomes a batch. -/
theorem Request.toMessage_ofMessage {type : BatchType} (h : Conforming type.requestType m) :
    (ofMessage type m).toMessage = m := by
  obtain ⟨name, hFields⟩ := requestType_fields type
  have hAllows := h.allows
  have hAt : type.requestType.fields[0]? = some (.parts 1 name type.groupType) := by rw [hFields]; rfl
  have hGroups := fun g (hMem : g ∈ m.messagesAt 0) => hAllows.conforms_of_mem hAt rfl hMem
  rw [toMessage, ofMessage, map_message_map hGroups fun g => ResourceGroup.toMessage_ofMessage,
    ← hAllows.slot_eq_messagesAt hAt rfl]
  conv_rhs => rw [hAllows.eq_map_slot, hFields]
  rfl

end Views

/-! ## The number of items -/

section ItemCounts

variable {t s : MessageType} {f : Field} {i : Nat}

theorem messagesAt_settle (m : Message) (hAt : t.fields[i]? = some f) (hType : f.type = .message s) :
    (settle t m).messagesAt i = (m.messagesAt i).map (settle s) := by
  rw [Message.messagesAt, Message.messagesAt, settle, slot_settleSlots _ _ hAt, settleSlot, hType]
  simp only [settleParts_eq_map, List.filterMap_map, List.map_filterMap]
  refine List.filterMap_congr fun v _ => ?_
  cases v <;> rfl

/-- A metric has its points in the first slot of what is in the slot of its kind. -/
theorem exists_fields_of_mem_metricDataSlots (hMem : i ∈ metricDataSlots) : ∃ f s g s',
    MessageType.metric.fields[i]? = some f ∧ f.type = .message s ∧
      s.fields[0]? = some g ∧ g.type = .message s' := by
  simp only [metricDataSlots, List.mem_cons, List.not_mem_nil, or_false] at hMem
  rcases hMem with rfl | rfl | rfl | rfl | rfl <;> exact ⟨_, _, _, _, rfl, rfl, rfl, rfl⟩

theorem length_metricPoints_settle (metric : Message) :
    (metricPoints (settle .metric metric)).length = (metricPoints metric).length := by
  rw [metricPoints, metricPoints, List.length_flatMap, List.length_flatMap]
  refine congrArg List.sum (List.map_congr_left fun i hMem => ?_)
  obtain ⟨f, s, g, s', hAt, hType, hPoints, hPointType⟩ := exists_fields_of_mem_metricDataSlots hMem
  rw [messagesAt_settle metric hAt hType, List.length_flatMap, List.length_flatMap, List.map_map]
  refine congrArg List.sum (List.map_congr_left fun data _ => ?_)
  rw [Function.comp_apply, messagesAt_settle data hPoints hPointType, List.length_map]

theorem pointCount_settle (metrics : List Message) :
    pointCount (metrics.map (settle .metric)) = pointCount metrics := by
  rw [pointCount, List.map_map]
  exact congrArg _ (List.map_congr_left fun metric _ => length_metricPoints_settle metric)

variable (type : BatchType) (m : Message)

theorem ScopeGroup.itemCount_settle :
    (ofMessage (settle type.scopeType m)).itemCount type = (ofMessage m).itemCount type := by
  cases type with
  | metrics =>
      have hItems := messagesAt_settle (t := .scopeMetrics) (i := 1) m rfl rfl
      exact (congrArg pointCount hItems).trans (pointCount_settle _)
  | traces =>
      have hItems := messagesAt_settle (t := .scopeSpans) (i := 1) m rfl rfl
      exact (congrArg List.length hItems).trans (List.length_map _)
  | logs =>
      have hItems := messagesAt_settle (t := .scopeLogs) (i := 1) m rfl rfl
      exact (congrArg List.length hItems).trans (List.length_map _)

theorem ResourceGroup.itemCount_settle :
    (ofMessage (settle type.groupType m)).itemCount type = (ofMessage m).itemCount type := by
  obtain ⟨name, hFields⟩ := groupType_fields type
  simp only [itemCount, ofMessage, messagesAt_settle (i := 1) m (by rw [hFields]; rfl) rfl, List.map_map]
  exact congrArg _ (List.map_congr_left fun g _ => ScopeGroup.itemCount_settle type g)

theorem Request.itemCount_settle :
    (ofMessage type (settle type.requestType m)).itemCount = (ofMessage type m).itemCount := by
  obtain ⟨name, hFields⟩ := requestType_fields type
  simp only [itemCount, ofMessage, messagesAt_settle (i := 0) m (by rw [hFields]; rfl) rfl, List.map_map]
  exact congrArg _ (List.map_congr_left fun g _ => ResourceGroup.itemCount_settle type g)

end ItemCounts

/-! ## Reading a batch again -/

namespace Request

variable {type : BatchType} {bytes : Bytes} {b : Request}

/-- A batch that was read is read again from its binary form, with as many items and the same binary form.
Its content is the same but for the signs of zeros in plain fields. No text in memory is longer than the
bound. -/
theorem unmarshal_marshal_settles (hRead : unmarshal? type bytes = some b) (hSize : bytes.length < 2 ^ 63) :
    ∃ b', unmarshal? type b.marshal = some b' ∧ b'.toMessage = settle type.requestType b.toMessage ∧
      b'.itemCount = b.itemCount ∧ b'.marshal = b.marshal := by
  obtain ⟨m, hMessage, rfl⟩ := Option.map_eq_some_iff.mp hRead
  have hConforms := conforms_of_decode? hMessage
  have hLength : (encode type.requestType m).length < 2 ^ 64 :=
    Nat.lt_of_le_of_lt (length_encode_of_decode? hMessage (by omega)) (by omega)
  have hMarshal : (ofMessage type m).marshal = encode type.requestType m := by
    rw [marshal, toMessage_ofMessage ⟨_, hConforms⟩]
    rfl
  have hAgain : unmarshal? type (encode type.requestType m) =
      some (ofMessage type (settle type.requestType m)) :=
    congrArg (Option.map (ofMessage type)) (decodeInto_encode maxNesting hConforms hLength)
  have hContent : (ofMessage type (settle type.requestType m)).toMessage = settle type.requestType m :=
    toMessage_ofMessage ⟨_, conforms_of_decode? (decodeInto_encode maxNesting hConforms hLength)⟩
  refine ⟨ofMessage type (settle type.requestType m), ?_, ?_, itemCount_settle type m, ?_⟩
  · rw [hMarshal, hAgain]
  · rw [hContent, toMessage_ofMessage ⟨_, hConforms⟩]
  · rw [hMarshal, marshal, hContent]
    exact encode_settle type.requestType m

/-- One point of a summary whose sum is a negative zero. -/
def negativeZeroSum : Bytes :=
  [0x0a, 0x11, 0x12, 0x0f, 0x12, 0x0d, 0x5a, 0x0b, 0x0a, 0x09, 0x29, 0, 0, 0, 0, 0, 0, 0, 0x80]

theorem unmarshal_marshal_settles_negativeZeroSum : negativeZeroSum.length < 2 ^ 63 ∧
    ∃ b, unmarshal? .metrics negativeZeroSum = some b ∧ ∃ b', unmarshal? .metrics b.marshal = some b' ∧
      b'.toMessage = settle .metricRequest b.toMessage ∧ b'.itemCount = b.itemCount ∧
        b'.marshal = b.marshal := by
  obtain ⟨b, hRead⟩ : ∃ b, unmarshal? .metrics negativeZeroSum = some b := ⟨_, rfl⟩
  exact ⟨by decide, b, hRead, unmarshal_marshal_settles hRead (by decide)⟩

theorem unmarshal_marshal_loses_sign : ∃ b b', unmarshal? .metrics negativeZeroSum = some b ∧
    unmarshal? .metrics b.marshal = some b' ∧ b'.toMessage ≠ b.toMessage := by
  refine ⟨_, _, rfl, rfl, fun hSame => ?_⟩
  have hSum := congrArg (fun m : Message =>
    (((m.messagesAt 0).flatMap fun g => g.messagesAt 1).flatMap fun s => s.messagesAt 1).flatMap
    fun metric => (metricPoints metric).flatMap fun point => point.slot 3) hSame
  injection hSum with hValue
  injection hValue with hDouble
  exact absurd hDouble (by decide)

end Request

end Telemetry
