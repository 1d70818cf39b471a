import Telemetry.Proofs.Wire.Conformance
import Telemetry.Proofs.Wire.Settling

/-!
# A message that is written is read as it settles

A message is written field by field, and read field by field into a blank one. After as many fields the
reader has the slots of these fields as they settle, and the slots of the others as they are in a blank
message; so it ends with the whole message.
-/

namespace Telemetry.Wire

open Text (Bytes)

/-! ## Slots in the middle -/

section Middle

variable (pre post : Message) (cur vs : List Value)

theorem slot_middle : Message.slot (pre ++ cur :: post) pre.length = cur := by
  simp [Message.slot]

theorem slot_append_left {i : Nat} (hLt : i < pre.length) : Message.slot (pre ++ post) i = pre.slot i := by
  rw [Message.slot, Message.slot, List.getD_eq_getElem?_getD, List.getElem?_append_left hLt,
    List.getD_eq_getElem?_getD]

theorem slot_append_right {i : Nat} (hLe : pre.length ≤ i) :
    Message.slot (pre ++ post) i = post.slot (i - pre.length) := by
  rw [Message.slot, Message.slot, List.getD_eq_getElem?_getD, List.getElem?_append_right hLe,
    List.getD_eq_getElem?_getD]

theorem withSlot_middle :
    Message.withSlot (pre ++ cur :: post) pre.length vs = pre ++ vs :: post := by
  simp [Message.withSlot]

end Middle

theorem clearChoice_eq_self {fields : List Field} {m : Message} (hLength : m.length = fields.length)
    (hEmpty : ∀ j g, fields[j]? = some g → g.presence = .choice → m.slot j = []) :
    clearChoice fields m = m := by
  refine List.ext_getElem? fun j => ?_
  rw [clearChoice, List.getElem?_zipWith]
  cases hField : fields[j]? with
  | none =>
      have hNone : m[j]? = none := by
        rw [List.getElem?_eq_none_iff] at hField ⊢
        omega
      rw [hNone]
  | some g =>
      cases hSlot : m[j]? with
      | none => rfl
      | some ws =>
          have hHere := hEmpty j g hField
          rw [Message.slot, List.getD_eq_getElem?_getD, hSlot, Option.getD_some] at hHere
          by_cases hChoice : g.presence = .choice <;> simp [hChoice, hHere]

/-! ## Reading some bytes -/

variable {nested : MessageType → Message → Bytes → Option Message} {skip : Key → Bytes → Option Bytes}
  {P : MessageType → Message → Prop} {t s : MessageType} {u : ScalarType} {f : Field}
  {m m₁ m₂ pre post : Message} {first second payload : Bytes} {v : Value} {vs cur : List Value}

/-- Reading some bytes first, a reader of fields goes from one message on with another. -/
def Absorbs (nested : MessageType → Message → Bytes → Option Message) (skip : Key → Bytes → Option Bytes)
    (t : MessageType) (m : Message) (front : Bytes) (m' : Message) : Prop :=
  ∀ fuel rest, front.length + rest.length ≤ fuel → ∃ left, rest.length ≤ left ∧
    decodeFields nested skip t fuel m (front ++ rest) = decodeFields nested skip t left m' rest

/-- A reader of messages inside reads them as they settle. -/
def SettlesParts (nested : MessageType → Message → Bytes → Option Message)
    (P : MessageType → Message → Prop) : Prop :=
  ∀ s part, P s part → (encode s part).length < 2 ^ 64 →
    nested s s.blank (encode s part) = some (settle s part)

namespace Absorbs

theorem refl (m : Message) : Absorbs nested skip t m [] m :=
  fun fuel rest hFuel => ⟨fuel, by simpa using hFuel, rfl⟩

theorem trans (hFirst : Absorbs nested skip t m first m₁) (hSecond : Absorbs nested skip t m₁ second m₂) :
    Absorbs nested skip t m (first ++ second) m₂ := by
  intro fuel rest hFuel
  rw [List.length_append, Nat.add_assoc, ← List.length_append] at hFuel
  obtain ⟨middle, hMiddle, hRead⟩ := hFirst fuel (second ++ rest) hFuel
  obtain ⟨left, hLeft, hRest⟩ := hSecond middle rest (by simpa using hMiddle)
  exact ⟨left, hLeft, by rw [List.append_assoc, hRead, hRest]⟩

theorem decodeFields_eq (h : Absorbs nested skip t m first m₁) :
    decodeFields nested skip t first.length m first = some m₁ := by
  obtain ⟨left, -, hRead⟩ := h first.length [] (by simp)
  rw [List.append_nil] at hRead
  rw [hRead]
  cases left <;> rfl

theorem known {i : Nat} {layout : Layout} (hAt : t.fields[i]? = some f)
    (hKnown : ∀ rest, decodeKnown nested t m i f layout.code (payload ++ rest) = some (m₁, rest)) :
    Absorbs nested skip t m (encodeKey f.number layout ++ payload) m₁ := by
  intro fuel rest hFuel
  obtain ⟨hPos, hLt⟩ := number_bounds t f (List.mem_of_getElem? hAt)
  have hKeyPos : 0 < (encodeKey f.number layout).length := length_varintBytes_pos _ _
  rw [List.length_append] at hFuel
  obtain ⟨left, rfl⟩ : ∃ left, fuel = left + 1 := ⟨fuel - 1, by omega⟩
  refine ⟨left, by omega, ?_⟩
  have hKey : decodeKey (encodeKey f.number layout ++ payload ++ rest) =
      some (⟨f.number, layout.code⟩, payload ++ rest) := by
    rw [List.append_assoc, decodeKey_encodeKey hPos hLt]
  cases hBytes : encodeKey f.number layout ++ payload ++ rest with
  | nil =>
      have hNil := congrArg List.length hBytes
      rw [List.length_append, List.length_append, List.length_nil] at hNil
      omega
  | cons b tail =>
      rw [hBytes] at hKey
      simp only [decodeFields, Option.bind_eq_bind, hKey, Option.bind_some, findIdx_number hAt, hAt,
        hKnown rest]

/-- Values of one field are read one after the other into its slot. -/
theorem flatMap {write : Value → Bytes} {settled : Value → Value}
    (hOne : ∀ v ∈ vs, ∀ cur, Absorbs nested skip t (pre ++ cur :: post) (write v)
      (pre ++ (cur ++ [settled v]) :: post)) (cur : List Value) :
    Absorbs nested skip t (pre ++ cur :: post) (vs.flatMap write) (pre ++ (cur ++ vs.map settled) :: post) := by
  induction vs generalizing cur with
  | nil =>
      rw [List.flatMap_nil, List.map_nil, List.append_nil]
      exact refl _
  | cons v vs ih =>
      have hRest := ih (fun w hMem => hOne w (List.mem_cons_of_mem v hMem)) (cur ++ [settled v])
      rw [List.append_assoc, List.singleton_append] at hRest
      rw [List.flatMap_cons, List.map_cons]
      exact (hOne v List.mem_cons_self cur).trans hRest

end Absorbs

/-! ## One field -/

/-- A choice of which nothing is there yet is not changed by being cleared. -/
def Unchosen (t : MessageType) (f : Field) (m : Message) : Prop :=
  f.presence = .choice → clearChoice t.fields m = m

theorem storeScalar_repeated (t : MessageType) (pre post : Message) (cur : List Value) (v : Value) :
    storeScalar t (pre ++ cur :: post) pre.length .repeated v = pre ++ (cur ++ [v]) :: post := by
  rw [storeScalar, slot_middle, withSlot_middle]

theorem storeScalar_single (hNot : f.presence ≠ .repeated) (hChoice : Unchosen t f (pre ++ cur :: post)) :
    storeScalar t (pre ++ cur :: post) pre.length f.presence v = pre ++ [v] :: post := by
  rw [Unchosen] at hChoice
  cases hPresence : f.presence with
  | repeated => exact absurd hPresence hNot
  | choice => rw [storeScalar, hChoice hPresence, withSlot_middle]
  | plain | optional => exact withSlot_middle ..

theorem decodePacked_flatMap {fuel : Nat} (hBack : ∀ v ∈ vs, ReadsBack u v)
    (hFuel : (vs.flatMap (encodeScalar u.layout)).length ≤ fuel) :
    decodePacked u fuel (vs.flatMap (encodeScalar u.layout)) = some vs := by
  induction vs generalizing fuel with
  | nil => cases fuel <;> rfl
  | cons v vs ih =>
      obtain ⟨hHead, hTail⟩ := List.forall_mem_cons.mp hBack
      rw [List.flatMap_cons] at hFuel ⊢
      have hPos := List.length_pos_iff.mpr hHead.encodeScalar_ne_nil
      rw [List.length_append] at hFuel
      obtain ⟨fuel, rfl⟩ : ∃ left, fuel = left + 1 := ⟨fuel - 1, by omega⟩
      have hRead := hHead (vs.flatMap (encodeScalar u.layout))
      have hRest : decodePacked u fuel (vs.flatMap (encodeScalar u.layout)) = some vs := ih hTail (by omega)
      cases hBytes : encodeScalar u.layout v ++ vs.flatMap (encodeScalar u.layout) with
      | nil =>
          have hNil := congrArg List.length hBytes
          rw [List.length_append, List.length_nil] at hNil
          omega
      | cons b tail =>
          rw [hBytes] at hRead
          simp only [decodePacked, Option.bind_eq_bind, hRead, Option.bind_some, hRest]
          rfl

section OneField

variable (hAt : t.fields[pre.length]? = some f)

include hAt

theorem absorbs_scalar (hType : f.type = .scalar u) (hBack : ReadsBack u v) :
    Absorbs nested skip t (pre ++ cur :: post) (encodeKey f.number u.layout ++ encodeScalar u.layout v)
      (storeScalar t (pre ++ cur :: post) pre.length f.presence v) :=
  .known hAt fun rest => by simp [decodeKnown, hType, hBack rest]

theorem absorbs_repeated_part {part : Message} (hType : f.type = .message s)
    (hRepeated : f.presence = .repeated) (hSize : (encode s part).length < 2 ^ 64)
    (hPart : nested s s.blank (encode s part) = some (settle s part)) :
    Absorbs nested skip t (pre ++ cur :: post) (encodePart f.number s (.message part))
      (pre ++ (cur ++ [settlePart s (.message part)]) :: post) := by
  refine .known hAt fun rest => ?_
  rw [encode] at hSize hPart
  simp [decodeKnown, hType, hRepeated, decodeChunk_encodeChunk hSize, hPart, slot_middle, withSlot_middle]

theorem absorbs_single_part {part : Message} (hType : f.type = .message s) (hNot : f.presence ≠ .repeated)
    (hChoice : Unchosen t f (pre ++ [] :: post)) (hSize : (encode s part).length < 2 ^ 64)
    (hPart : nested s s.blank (encode s part) = some (settle s part)) :
    Absorbs nested skip t (pre ++ [] :: post) (encodePart f.number s (.message part))
      (pre ++ [settlePart s (.message part)] :: post) := by
  refine .known hAt fun rest => ?_
  have hNone : Message.messageAt? (pre ++ [] :: post) pre.length = none := by
    rw [Message.messageAt?, Message.messagesAt, slot_middle]
    rfl
  rw [encode] at hSize hPart
  have hStore := storeScalar_single (v := settlePart s (.message part)) hNot hChoice
  cases hPresence : f.presence with
  | repeated => exact absurd hPresence hNot
  | _ =>
      rw [hPresence] at hStore
      simpa [decodeKnown, hType, hPresence, decodeChunk_encodeChunk hSize, hNone, hPart] using hStore

theorem absorbs_packed (hType : f.type = .scalar u) (hRepeated : f.presence = .repeated)
    (hPacks : u.packs = true) (hBack : ∀ v ∈ vs, ReadsBack u v)
    (hSize : (vs.flatMap (encodeScalar u.layout)).length < 2 ^ 64) :
    Absorbs nested skip t (pre ++ cur :: post)
      (encodeKey f.number .chunk ++ encodeChunk (vs.flatMap (encodeScalar u.layout)))
      (pre ++ (cur ++ vs) :: post) := by
  have hCode : Layout.chunk.code ≠ u.layout.code := by
    intro hSame
    rw [ScalarType.packs] at hPacks
    cases hLayout : u.layout <;> simp [hLayout, Layout.code] at hPacks hSame
  refine .known hAt fun rest => ?_
  simp [decodeKnown, hType, hCode, hRepeated, hPacks, decodeChunk_encodeChunk hSize,
    decodePacked_flatMap hBack (Nat.le_refl _), slot_middle, withSlot_middle, -List.length_flatMap]

theorem absorbs_single (hType : f.type = .scalar u) (hNot : f.presence ≠ .repeated) (hBack : ReadsBack u v)
    (hChoice : Unchosen t f (pre ++ cur :: post)) :
    Absorbs nested skip t (pre ++ cur :: post) (encodeKey f.number u.layout ++ encodeScalar u.layout v)
      (pre ++ [v] :: post) := by
  have hRead := @absorbs_scalar nested skip t u f pre post v cur hAt hType hBack
  rwa [storeScalar_single hNot hChoice] at hRead

/-- The value of a plain field is read into its slot, or is a default value that is there already. -/
theorem absorbs_plain (hType : f.type = .scalar u) (hPlain : f.presence = .plain) (hBack : ReadsBack u v) :
    Absorbs nested skip t (pre ++ f.initial :: post) (encodeValues f u [v]) (pre ++ [v.unsigned] :: post) := by
  have hChoice : Unchosen t f (pre ++ f.initial :: post) := fun hChoice => by simp [hPlain] at hChoice
  rw [encodeValues, if_neg (by simp [hPlain])]
  cases hDefault : v.isDefault with
  | true =>
      rw [initial_of_plain hPlain hType, hBack.unsigned_of_isDefault hDefault]
      simpa [hPlain, hDefault] using Absorbs.refl _
  | false =>
      rw [unsigned_of_not_isDefault hDefault]
      simpa [hDefault] using absorbs_single hAt hType (by simp [hPlain]) hBack hChoice

theorem absorbs_repeated (hType : f.type = .scalar u) (hRepeated : f.presence = .repeated)
    (hBack : ∀ v ∈ vs, ReadsBack u v) :
    Absorbs nested skip t (pre ++ [] :: post)
      (vs.flatMap fun v => encodeKey f.number u.layout ++ encodeScalar u.layout v) (pre ++ vs :: post) := by
  have hRead : Absorbs nested skip t (pre ++ [] :: post)
      (vs.flatMap fun v => encodeKey f.number u.layout ++ encodeScalar u.layout v)
      (pre ++ ([] ++ vs.map id) :: post) := by
    refine .flatMap (fun v hMem cur => ?_) []
    have hOne := @absorbs_scalar nested skip t u f pre post v cur hAt hType (hBack v hMem)
    rwa [hRepeated, storeScalar_repeated] at hOne
  rwa [List.map_id, List.nil_append] at hRead

theorem absorbs_values (hType : f.type = .scalar u) (hAllows : f.Allows P vs)
    (hChoice : vs ≠ [] → Unchosen t f (pre ++ f.initial :: post))
    (hSize : (encodeValues f u vs).length < 2 ^ 64) :
    Absorbs nested skip t (pre ++ f.initial :: post) (encodeValues f u vs) (pre ++ settleSlot f vs :: post) := by
  have hBack : ∀ v ∈ vs, ReadsBack u v := by
    have hHolds := hAllows.holds
    rwa [hType] at hHolds
  by_cases hPlain : f.presence = .plain
  · obtain ⟨v, rfl⟩ : ∃ v, vs = [v] := List.length_eq_one_iff.mp <| Nat.le_antisymm
      (hAllows.single (by simp [hPlain])) (List.length_pos_iff.mpr (hAllows.plain hPlain))
    have hUnsigned : settleSlot f [v] = [v.unsigned] := by simp [settleSlot, hType, hPlain]
    rw [hUnsigned]
    exact absorbs_plain hAt hType hPlain (List.forall_mem_singleton.mp hBack)
  have hSettled : settleSlot f vs = vs := by simp [settleSlot, hType, hPlain]
  rw [initial_of_ne_plain hPlain] at hChoice ⊢
  rw [hSettled]
  by_cases hPacked : f.presence = .repeated ∧ u.packs = true
  · rw [encodeValues, if_pos hPacked] at hSize ⊢
    split
    · next hEmpty =>
      rw [List.isEmpty_iff.mp hEmpty]
      exact .refl _
    · next hSome =>
      rw [if_neg hSome, List.length_append, length_encodeChunk] at hSize
      exact absorbs_packed hAt hType hPacked.1 hPacked.2 hBack (by omega)
  rw [encodeValues_of_ne_plain vs hPlain hPacked]
  by_cases hRepeated : f.presence = .repeated
  · exact absorbs_repeated hAt hType hRepeated hBack
  · obtain rfl | ⟨v, rfl⟩ := eq_nil_or_singleton (hAllows.single hRepeated)
    · exact .refl _
    · rw [List.flatMap_singleton]
      exact absorbs_single hAt hType hRepeated (List.forall_mem_singleton.mp hBack) (hChoice (by simp))

theorem absorbs_parts (hParts : SettlesParts nested P) (hType : f.type = .message s)
    (hAllows : f.Allows P vs) (hChoice : vs ≠ [] → Unchosen t f (pre ++ [] :: post))
    (hSize : (encodeParts f.number s vs).length < 2 ^ 64) :
    Absorbs nested skip t (pre ++ [] :: post) (encodeParts f.number s vs)
      (pre ++ settleParts s vs :: post) := by
  have hMessages : ∀ v ∈ vs, ∃ part, v = .message part ∧ P s part := by
    intro v hMem
    have hHolds := hAllows.holds v hMem
    rw [hType] at hHolds
    cases v with
    | message part => exact ⟨part, rfl, hHolds⟩
    | _ => cases hHolds
  have hRead : ∀ v ∈ vs, ∃ part, v = .message part ∧ (encode s part).length < 2 ^ 64 ∧
      nested s s.blank (encode s part) = some (settle s part) := by
    intro v hMem
    obtain ⟨part, rfl, hPart⟩ := hMessages v hMem
    have hSmall := Nat.lt_of_le_of_lt (length_encode_le_of_mem vs s hMem) hSize
    exact ⟨part, rfl, hSmall, hParts s part hPart hSmall⟩
  rw [encodeParts_eq_flatMap, settleParts_eq_map]
  by_cases hRepeated : f.presence = .repeated
  · refine .flatMap (fun v hMem cur => ?_) []
    obtain ⟨part, rfl, hSmall, hPart⟩ := hRead v hMem
    exact absorbs_repeated_part hAt hType hRepeated hSmall hPart
  · obtain rfl | ⟨v, rfl⟩ := eq_nil_or_singleton (hAllows.single hRepeated)
    · exact .refl _
    · obtain ⟨part, rfl, hSmall, hPart⟩ := hRead v List.mem_cons_self
      rw [List.flatMap_singleton]
      exact absorbs_single_part hAt hType hRepeated (hChoice (by simp)) hSmall hPart

theorem absorbs_slot (hParts : SettlesParts nested P) (hAllows : f.Allows P vs)
    (hChoice : vs ≠ [] → Unchosen t f (pre ++ f.initial :: post))
    (hSize : (encodeSlot f vs).length < 2 ^ 64) :
    Absorbs nested skip t (pre ++ f.initial :: post) (encodeSlot f vs) (pre ++ settleSlot f vs :: post) := by
  cases hType : f.type with
  | scalar u =>
      have hEncode : encodeSlot f vs = encodeValues f u vs := by simp [encodeSlot, hType]
      rw [hEncode] at hSize ⊢
      exact absorbs_values hAt hType hAllows hChoice hSize
  | message s =>
      have hEncode : encodeSlot f vs = encodeParts f.number s vs := by simp [encodeSlot, hType]
      have hSettle : settleSlot f vs = settleParts s vs := by simp [settleSlot, hType]
      rw [initial_of_message hType] at hChoice ⊢
      rw [hEncode] at hSize ⊢
      rw [hSettle]
      exact absorbs_parts hAt hParts hType hAllows hChoice hSize

end OneField

/-! ## All fields -/

variable {fields done todo : List Field} {past slots : Message}

theorem length_settleSlots (fields : List Field) (slots : Message) :
    (settleSlots fields slots).length = slots.length := by
  induction fields generalizing slots with
  | nil => cases slots <;> rfl
  | cons f fields ih =>
      cases slots with
      | nil => rfl
      | cons vs slots => rw [settleSlots_cons, List.length_cons, ih, List.length_cons]

theorem settleSlots_append (hLength : past.length = done.length) :
    settleSlots (done ++ todo) (past ++ slots) = settleSlots done past ++ settleSlots todo slots := by
  induction done generalizing past with
  | nil =>
      rw [List.eq_nil_of_length_eq_zero hLength]
      rfl
  | cons f done ih =>
      cases past with
      | nil => cases hLength
      | cons vs past =>
          rw [List.cons_append, List.cons_append, settleSlots_cons, settleSlots_cons, List.cons_append,
            ih (Nat.succ.inj hLength)]

/-- Before the first member of a choice is read, nothing of the choice is there. -/
theorem unchosen_of_allows (hFields : t.fields = done ++ f :: todo) (hLength : past.length = done.length)
    (hAllows : t.Allows P (past ++ vs :: slots)) (hSome : vs ≠ []) :
    Unchosen t f (settleSlots done past ++ (f :: todo).map Field.initial) := by
  intro hChoice
  have hPast : (settleSlots done past).length = done.length := by rw [length_settleSlots, hLength]
  refine clearChoice_eq_self ?_ fun j g hAt hMember => ?_
  · rw [hFields, List.length_append, List.length_append, hPast, List.length_map]
  rw [hFields] at hAt
  rcases Nat.lt_or_ge j done.length with hLt | hGe
  · rw [List.getElem?_append_left hLt] at hAt
    rw [slot_append_left _ _ (by omega), slot_settleSlots _ _ hAt]
    have hOther := hAllows.choice j past.length g f
      (by rw [hFields, List.getElem?_append_left hLt, hAt]) (by rw [hFields, hLength]; simp)
      hMember hChoice (by omega)
    rw [slot_middle, slot_append_left _ _ (by omega)] at hOther
    rw [hOther.resolve_right hSome, settleSlot_nil]
  · rw [List.getElem?_append_right hGe] at hAt
    rw [slot_append_right _ _ (by omega), hPast, slot_map_initial hAt]
    exact initial_of_ne_plain (by simp [hMember])

theorem absorbs_slots (hParts : SettlesParts nested P) (hFields : t.fields = done ++ todo)
    (hLength : past.length = done.length) (hAllows : t.Allows P (past ++ slots))
    (hTodo : List.Forall₂ (Field.Allows P) todo slots)
    (hSize : (encodeSlots todo slots).length < 2 ^ 64) :
    Absorbs nested skip t (settleSlots done past ++ todo.map Field.initial) (encodeSlots todo slots)
      (settleSlots done past ++ settleSlots todo slots) := by
  induction hTodo generalizing done past with
  | nil => exact .refl _
  | @cons f vs todo slots hSlot hRest ih =>
      rw [encodeSlots_cons, List.length_append] at hSize
      have hPast : (settleSlots done past).length = done.length := by rw [length_settleSlots, hLength]
      have hAt : t.fields[(settleSlots done past).length]? = some f := by
        rw [hFields, hPast, List.getElem?_append_right (Nat.le_refl _), Nat.sub_self]
        rfl
      have hHere : Absorbs nested skip t (settleSlots done past ++ f.initial :: todo.map Field.initial)
          (encodeSlot f vs) (settleSlots done past ++ settleSlot f vs :: todo.map Field.initial) :=
        absorbs_slot hAt hParts hSlot (unchosen_of_allows hFields hLength hAllows) (by omega)
      have hNext := @ih (done ++ [f]) (past ++ [vs]) (by simpa using hFields) (by simp [hLength])
        (by simpa using hAllows) (by omega)
      have hStep : settleSlots [f] [vs] = [settleSlot f vs] := rfl
      rw [settleSlots_append hLength, hStep, List.append_assoc, List.append_assoc] at hNext
      exact hHere.trans hNext

/-! ## Whole messages -/

theorem decodeFields_encode (hParts : SettlesParts nested P) (hAllows : t.Allows P m)
    (hSize : (encode t m).length < 2 ^ 64) :
    decodeFields nested skip t (encode t m).length t.blank (encode t m) = some (settle t m) := by
  have hAll := @absorbs_slots nested skip P t [] t.fields [] m hParts rfl rfl hAllows hAllows.slots hSize
  exact hAll.decodeFields_eq

/-- A conforming message that is written is read as it settles. -/
theorem decodeInto_encode (room : Nat) {t : MessageType} {m : Message} (hConforms : Conforms room t m)
    (hSize : (encode t m).length < 2 ^ 64) :
    decodeInto room t t.blank (encode t m) = some (settle t m) := by
  induction room generalizing t m with
  | zero => exact decodeFields_encode (fun s part hNone => hNone.elim) hConforms hSize
  | succ room ih => exact decodeFields_encode (fun s part => ih) hConforms hSize

end Telemetry.Wire
