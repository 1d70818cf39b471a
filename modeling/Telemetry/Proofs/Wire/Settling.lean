import Telemetry.Proofs.Wire.Scalars

/-!
# What is left of a message that is written

A plain field is not written when it holds a zero of either sign, and is then read as the zero without a
sign. Nothing else is lost: a message settles to the one that is read from its binary form, and both are
written alike.
-/

namespace Telemetry.Wire

open Text (Bytes)

mutual

/-- The slots of a message without the signs of zeros in plain fields. -/
def settleSlots : List Field → List (List Value) → List (List Value)
  | f :: fields, vs :: slots =>
    let front := match f.type with
      | .scalar _ => if f.presence = .plain then vs.map Value.unsigned else vs
      | .message t => settleParts t vs
    front :: settleSlots fields slots
  | _, slots => slots

/-- Messages without the signs of zeros in plain fields. -/
def settleParts (t : MessageType) : List Value → List Value
  | [] => []
  | v :: vs => settlePart t v :: settleParts t vs

/-- One message without the signs of zeros in plain fields. -/
def settlePart (t : MessageType) : Value → Value
  | .message slots => .message (settleSlots t.fields slots)
  | v => v

end

/-- A message without the signs of zeros in plain fields. -/
def settle (t : MessageType) (m : Message) : Message := settleSlots t.fields m

-- Only doubles have a zero with a sign, and these are the plain fields that hold them.
example : ∀ t : MessageType, ∀ f ∈ t.fields, f.presence = .plain → f.type = .scalar .double →
    (t, f.number) ∈ [(.exponentialPoint, 14), (.summaryPoint, 5), (.quantile, 1), (.quantile, 2)] := by
  intro t
  cases t <;> decide

/-- The values of one field without the signs of zeros, if it is plain, and below. -/
def settleSlot (f : Field) (vs : List Value) : List Value :=
  match f.type with
  | .scalar _ => if f.presence = .plain then vs.map Value.unsigned else vs
  | .message t => settleParts t vs

/-- The binary form of one field. -/
def encodeSlot (f : Field) (vs : List Value) : Bytes :=
  match f.type with
  | .scalar t => encodeValues f t vs
  | .message t => encodeParts f.number t vs

section Fields

variable (f : Field) (fields : List Field) (vs : List Value) (slots : List (List Value)) (t : MessageType)

theorem settleSlots_cons :
    settleSlots (f :: fields) (vs :: slots) = settleSlot f vs :: settleSlots fields slots := rfl

@[simp] theorem settlePart_message (m : Message) : settlePart t (.message m) = .message (settle t m) := rfl

theorem encodeSlots_cons :
    encodeSlots (f :: fields) (vs :: slots) = encodeSlot f vs ++ encodeSlots fields slots := rfl

@[simp] theorem settleSlot_nil : settleSlot f [] = [] := by
  rw [settleSlot]
  cases f.type with
  | scalar u => simp
  | message s => rfl

theorem slot_settleSlots {i : Nat} {f : Field} (hAt : fields[i]? = some f) :
    Message.slot (settleSlots fields slots) i = settleSlot f (Message.slot slots i) := by
  induction fields generalizing slots i with
  | nil => cases hAt
  | cons g fields ih =>
      cases slots with
      | nil => exact (settleSlot_nil f).symm
      | cons vs slots =>
          rw [settleSlots_cons]
          cases i with
          | zero =>
              cases hAt
              rfl
          | succ i => exact ih slots hAt

theorem settleParts_eq_map : settleParts t vs = vs.map (settlePart t) := by
  induction vs with
  | nil => rfl
  | cons v vs ih => rw [settleParts, ih, List.map_cons]

theorem encodeParts_eq_flatMap (number : Nat) :
    encodeParts number t vs = vs.flatMap (encodePart number t) := by
  induction vs with
  | nil => rfl
  | cons v vs ih => rw [encodeParts, ih, List.flatMap_cons]

theorem length_encodePart (number : Nat) (part : Message) :
    (encodePart number t (.message part)).length = (encodeKey number .chunk).length +
      ((varintBytes 9 (encode t part).length).length + (encode t part).length) := by
  rw [encodePart, List.length_append, length_encodeChunk]
  rfl

theorem length_encode_le_of_mem {number : Nat} {part : Message} (hMem : .message part ∈ vs) :
    (encode t part).length ≤ (encodeParts number t vs).length := by
  obtain ⟨before, after, rfl⟩ := List.append_of_mem hMem
  rw [encodeParts_eq_flatMap, List.flatMap_append, List.flatMap_cons, List.length_append,
    List.length_append, length_encodePart]
  omega

end Fields

theorem encodeValues_of_ne_plain {f : Field} {t : ScalarType} (vs : List Value)
    (hNot : f.presence ≠ .plain) (hApart : ¬ (f.presence = .repeated ∧ t.packs = true)) :
    encodeValues f t vs = vs.flatMap fun v => encodeKey f.number t.layout ++ encodeScalar t.layout v := by
  rw [encodeValues, if_neg hApart, List.filter_eq_self.mpr]
  simp [hNot]

/-! ## A message and what it settles to are written alike -/

/-- The values of a plain field are written without default values. -/
theorem encodeValues_unsigned {f : Field} (t : ScalarType) (vs : List Value) (hPlain : f.presence = .plain) :
    encodeValues f t (vs.map Value.unsigned) = encodeValues f t vs := by
  have hSingle : ¬ (f.presence = .repeated ∧ t.packs = true) := by simp [hPlain]
  rw [encodeValues, encodeValues, if_neg hSingle, if_neg hSingle]
  induction vs with
  | nil => rfl
  | cons v vs ih =>
      rw [List.map_cons]
      cases hDefault : v.isDefault with
      | true =>
          rw [List.filter_cons_of_neg (by simp [hPlain, hDefault]),
            List.filter_cons_of_neg (by simp [hPlain, hDefault]), ih]
      | false =>
          rw [List.filter_cons_of_pos (by simp [hDefault]), List.filter_cons_of_pos (by simp [hDefault]),
            List.flatMap_cons, List.flatMap_cons, ih, unsigned_of_not_isDefault hDefault]

mutual

theorem encodeSlots_settleSlots : ∀ (fields : List Field) (slots : List (List Value)),
    encodeSlots fields (settleSlots fields slots) = encodeSlots fields slots
  | [], [] | [], _ :: _ | _ :: _, [] => rfl
  | f :: fields, vs :: slots => by
      rw [settleSlots_cons, encodeSlots_cons, encodeSlots_cons, encodeSlots_settleSlots fields slots,
        settleSlot, encodeSlot, encodeSlot]
      cases f.type with
      | scalar t =>
          simp only
          split
          · next hPlain => rw [encodeValues_unsigned t vs hPlain]
          · rfl
      | message t => simp only [encodeParts_settleParts f.number t vs]

theorem encodeParts_settleParts (number : Nat) (t : MessageType) : ∀ vs : List Value,
    encodeParts number t (settleParts t vs) = encodeParts number t vs
  | [] => rfl
  | v :: vs => by
      rw [settleParts, encodeParts, encodeParts, encodePart_settlePart number t v,
        encodeParts_settleParts number t vs]

theorem encodePart_settlePart (number : Nat) (t : MessageType) : ∀ v : Value,
    encodePart number t (settlePart t v) = encodePart number t v
  | .message slots => by
      rw [settlePart, encodePart, encodePart, encodeSlots_settleSlots t.fields slots]
  | .word _ | .double _ | .text _ | .bytes _ => rfl

end

theorem encode_settle (t : MessageType) (m : Message) : encode t (settle t m) = encode t m :=
  encodeSlots_settleSlots t.fields m

end Telemetry.Wire
