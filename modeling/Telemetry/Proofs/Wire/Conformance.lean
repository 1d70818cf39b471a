import Mathlib.Data.List.Forall2
import Mathlib.Data.List.Nodup
import Telemetry.Proofs.Wire.Scalars

/-!
# Messages that were read conform to the schema

Whatever is read has a slot for each field of its type, in the slot as many values as the field may have, and
values of its type that are read as they are written. Of a choice it has one member at most.
-/

namespace Telemetry.Wire

open Text (Bytes)

variable {α β : Type} {R : α → β → Prop} {as : List α} {bs : List β} {a : α} {b : β} {i j : Nat}

theorem forall₂_set (h : List.Forall₂ R as bs) (hAt : as[i]? = some a) (hHere : R a b) :
    List.Forall₂ R as (bs.set i b) := by
  induction h generalizing i with
  | nil => cases hAt
  | cons hHead hTail ih =>
      cases i with
      | zero =>
          cases hAt
          exact .cons hHere hTail
      | succ i => exact .cons hHead (ih hAt)

theorem forall₂_getElem? (h : List.Forall₂ R as bs) (hAt : as[i]? = some a) :
    ∃ b, bs[i]? = some b ∧ R a b := by
  induction h generalizing i with
  | nil => cases hAt
  | cons hHead hTail ih =>
      cases i with
      | zero =>
          cases hAt
          exact ⟨_, rfl, hHead⟩
      | succ i => exact ih hAt

theorem forall₂_zipWith {f : α → β → β} (h : List.Forall₂ R as bs) (hStep : ∀ a b, R a b → R a (f a b)) :
    List.Forall₂ R as (List.zipWith f as bs) := by
  induction h with
  | nil => exact .nil
  | cons hHead hTail ih => exact .cons (hStep _ _ hHead) ih

theorem eq_nil_or_singleton (h : as.length ≤ 1) : as = [] ∨ ∃ a, as = [a] := by
  cases as with
  | nil => exact .inl rfl
  | cons a as => exact .inr ⟨a, congrArg (a :: ·) (List.eq_nil_of_length_eq_zero (by simpa using h))⟩

/-! ## The schema -/

section Schema

variable {t s : MessageType} {f : Field}

theorem nodup_numbers (t : MessageType) : (t.fields.map Field.number).Nodup := by
  cases t <;> decide

theorem number_bounds (t : MessageType) : ∀ f ∈ t.fields, 0 < f.number ∧ f.number < 2 ^ 28 := by
  cases t <;> decide

/-- Whether the values of a field are messages. -/
def FieldType.isMessage : FieldType → Bool
  | .scalar _ => false
  | .message _ => true

theorem presence_ne_plain (hMem : f ∈ t.fields) (hType : f.type = .message s) : f.presence ≠ .plain := by
  have hAll : ∀ f ∈ t.fields, f.type.isMessage = true → f.presence ≠ .plain := by
    cases t <;> decide
  exact hAll f hMem (by rw [hType]; rfl)

theorem findIdx_number (hField : t.fields[i]? = some f) :
    (t.fields.findIdx fun g => g.number == f.number) = i := by
  obtain ⟨hLt, hEq⟩ := List.getElem?_eq_some_iff.mp hField
  rw [List.findIdx_eq hLt]
  refine ⟨by simp [hEq], fun j hj => ?_⟩
  have hNe : t.fields[j].number ≠ f.number := by
    intro hSame
    have hIndex := @List.Nodup.getElem_inj_iff _ _ (nodup_numbers t) j (by simp; omega) i (by simpa)
    simp only [List.getElem_map, hEq] at hIndex
    omega
  simpa using hNe

end Schema

/-! ## Conforming messages -/

/-- A value has the type of a field, given which messages do. -/
def FieldType.Holds (P : MessageType → Message → Prop) : FieldType → Value → Prop
  | .scalar t, v => ReadsBack t v
  | .message t, .message m => P t m
  | .message _, _ => False

/-- A slot has what its field may have. -/
structure Field.Allows (P : MessageType → Message → Prop) (f : Field) (vs : List Value) : Prop where
  holds : ∀ v ∈ vs, f.type.Holds P v
  plain : f.presence = .plain → vs ≠ []
  single : f.presence ≠ .repeated → vs.length ≤ 1

/-- A message has what its type allows, given which messages inside do. -/
structure MessageType.Allows (P : MessageType → Message → Prop) (t : MessageType) (m : Message) : Prop where
  slots : List.Forall₂ (Field.Allows P) t.fields m
  choice : ∀ i j f g, t.fields[i]? = some f → t.fields[j]? = some g → f.presence = .choice →
    g.presence = .choice → i ≠ j → m.slot i = [] ∨ m.slot j = []

/-- A message conforms to the schema and has at most so many levels below it. -/
def Conforms : Nat → MessageType → Message → Prop
  | 0 => MessageType.Allows fun _ _ => False
  | room + 1 => MessageType.Allows (Conforms room)

section Allowed

variable {P : MessageType → Message → Prop} {t s : MessageType} {m m' : Message} {f : Field}
  {vs : List Value} {v : Value}

theorem allows_nil (hNot : f.presence ≠ .plain) : f.Allows P [] :=
  ⟨by simp, fun hPlain => absurd hPlain hNot, by simp⟩

theorem allows_singleton (hHolds : f.type.Holds P v) : f.Allows P [v] :=
  ⟨by simpa using hHolds, by simp, by simp⟩

theorem Field.Allows.append (h : f.Allows P vs) (hRepeated : f.presence = .repeated) {ws : List Value}
    (hNew : ∀ v ∈ ws, f.type.Holds P v) : f.Allows P (vs ++ ws) :=
  ⟨List.forall_mem_append.mpr ⟨h.holds, hNew⟩, by simp [hRepeated], fun hNot => absurd hRepeated hNot⟩

theorem initial_of_ne_plain (hNot : f.presence ≠ .plain) : f.initial = [] := by
  rw [Field.initial]
  split
  · next hPlain _ => exact absurd hPlain hNot
  · rfl

theorem initial_of_message (hType : f.type = .message s) : f.initial = [] := by
  rw [Field.initial]
  split
  · next hScalar => simp [hType] at hScalar
  · rfl

theorem initial_of_plain {u : ScalarType} (hPlain : f.presence = .plain) (hType : f.type = .scalar u) :
    f.initial = [u.default] := by
  rw [Field.initial, hPlain, hType]

theorem allows_initial (hMem : f ∈ t.fields) : f.Allows P f.initial := by
  by_cases hPlain : f.presence = .plain
  · cases hType : f.type with
    | message s => exact absurd hPlain (presence_ne_plain hMem hType)
    | scalar u =>
        rw [initial_of_plain hPlain hType]
        refine allows_singleton ?_
        rw [hType]
        exact readsBack_default u
  · rw [initial_of_ne_plain hPlain]
    exact allows_nil hPlain

theorem slot_map_initial {fields : List Field} (hAt : fields[i]? = some f) :
    Message.slot (fields.map Field.initial) i = f.initial := by
  simp [Message.slot, hAt]

theorem allows_blank (t : MessageType) : t.Allows P t.blank where
  slots := by
    rw [MessageType.blank, List.forall₂_map_right_iff, List.forall₂_same]
    exact fun f hMem => allows_initial hMem
  choice i j f g hF hG hFirst hSecond hNe := by
    rw [MessageType.blank, slot_map_initial hF, initial_of_ne_plain (by simp [hFirst])]
    exact .inl rfl

theorem slot_withSlot (m : Message) (i j : Nat) (vs : List Value) (hLt : i < m.length) :
    (m.withSlot i vs).slot j = if j = i then vs else m.slot j := by
  rw [Message.slot, Message.withSlot, Message.slot, List.getD_eq_getElem?_getD, List.getElem?_set,
    List.getD_eq_getElem?_getD]
  split
  · next hSame =>
    subst hSame
    simp
  · next hNe => rw [if_neg (Ne.symm hNe)]

theorem slot_clearChoice (m : Message) (hAt : t.fields[i]? = some f) (hChoice : f.presence = .choice) :
    Message.slot (clearChoice t.fields m) i = [] := by
  rw [Message.slot, clearChoice, List.getD_eq_getElem?_getD, List.getElem?_zipWith, hAt]
  cases m[i]? <;> simp [hChoice]

namespace MessageType.Allows

theorem length_eq (h : t.Allows P m) : m.length = t.fields.length := h.slots.length_eq.symm

theorem slot (h : t.Allows P m) (hAt : t.fields[i]? = some f) : f.Allows P (m.slot i) := by
  obtain ⟨vs, hSlot, hAllows⟩ := forall₂_getElem? h.slots hAt
  rwa [Message.slot, List.getD_eq_getElem?_getD, hSlot]

theorem lt_length (h : t.Allows P m) (hAt : t.fields[i]? = some f) : i < m.length := by
  rw [h.length_eq]
  exact (List.getElem?_eq_some_iff.mp hAt).1

theorem withSlot (h : t.Allows P m) (hAt : t.fields[i]? = some f) (hNot : f.presence ≠ .choice)
    (hSlot : f.Allows P vs) : t.Allows P (m.withSlot i vs) where
  slots := forall₂_set h.slots hAt hSlot
  choice j k g g' hG hG' hFirst hSecond hNe := by
    have hNotFirst : j ≠ i := fun hSame => hNot (by rw [hSame, hAt] at hG; cases hG; exact hFirst)
    have hNotSecond : k ≠ i := fun hSame => hNot (by rw [hSame, hAt] at hG'; cases hG'; exact hSecond)
    rw [slot_withSlot m i j vs (h.lt_length hAt), slot_withSlot m i k vs (h.lt_length hAt),
      if_neg hNotFirst, if_neg hNotSecond]
    exact h.choice j k g g' hG hG' hFirst hSecond hNe

/-- A member of a choice is put into its slot, and the others are removed. -/
theorem choose (h : t.Allows P m) (hAt : t.fields[i]? = some f) (hSlot : f.Allows P vs) :
    t.Allows P (Message.withSlot (clearChoice t.fields m) i vs) where
  slots := by
    refine forall₂_set (forall₂_zipWith h.slots fun g ws hWs => ?_) hAt hSlot
    split
    · next hChoice => exact allows_nil (by simp [hChoice])
    · exact hWs
  choice j k g g' hG hG' hFirst hSecond hNe := by
    have hLt : i < (clearChoice t.fields m).length := by
      rw [clearChoice, List.length_zipWith, h.length_eq, Nat.min_self]
      exact (List.getElem?_eq_some_iff.mp hAt).1
    rw [slot_withSlot _ i j vs hLt, slot_withSlot _ i k vs hLt]
    by_cases hHere : j = i
    · refine .inr ?_
      rw [if_neg fun hSame => hNe (hHere.trans hSame.symm), slot_clearChoice m hG' hSecond]
    · refine .inl ?_
      rw [if_neg hHere, slot_clearChoice m hG hFirst]

theorem storeScalar (h : t.Allows P m) (hAt : t.fields[i]? = some f) (hHolds : f.type.Holds P v) :
    t.Allows P (storeScalar t m i f.presence v) := by
  cases hPresence : f.presence with
  | repeated =>
      exact h.withSlot hAt (by simp [hPresence])
        ((h.slot hAt).append hPresence (List.forall_mem_singleton.mpr hHolds))
  | choice => exact h.choose hAt (allows_singleton hHolds)
  | plain | optional => exact h.withSlot hAt (by simp [hPresence]) (allows_singleton hHolds)

end MessageType.Allows

/-! ## Reading -/

theorem holds_of_decodePacked {u : ScalarType} {fuel : Nat} {bytes : Bytes}
    (h : decodePacked u fuel bytes = some vs) : ∀ v ∈ vs, ReadsBack u v := by
  induction fuel generalizing bytes vs with
  | zero =>
      cases bytes with
      | nil =>
          cases h
          simp
      | cons b rest => cases h
  | succ fuel ih =>
      cases bytes with
      | nil =>
          cases h
          simp
      | cons b rest =>
          simp only [decodePacked, Option.bind_eq_bind, Option.bind_eq_some_iff] at h
          obtain ⟨⟨v, rest⟩, hValue, ws, hRest, hAll⟩ := h
          cases hAll
          exact List.forall_mem_cons.mpr ⟨(readsBack_of_decodeScalar hValue).1, ih hRest⟩

/-- What a reader of messages inside makes of a message that is allowed, or blank, is allowed. -/
def Preserves (nested : MessageType → Message → Bytes → Option Message)
    (P : MessageType → Message → Prop) : Prop :=
  ∀ s m bytes m', P s m ∨ m = s.blank → nested s m bytes = some m' → P s m'

variable {nested : MessageType → Message → Bytes → Option Message}
  {skip : Key → Bytes → Option Bytes} {bytes rest : Bytes} {code fuel : Nat}

theorem allows_decodeKnown (hNested : Preserves nested P) (h : t.Allows P m)
    (hAt : t.fields[i]? = some f)
    (hRead : decodeKnown nested t m i f code bytes = some (m', rest)) : t.Allows P m' := by
  rw [decodeKnown] at hRead
  cases hType : f.type with
  | scalar u =>
      simp only [hType] at hRead
      split at hRead
      · obtain ⟨⟨v, after⟩, hValue, hStore⟩ := Option.bind_eq_some_iff.mp hRead
        cases hStore
        refine h.storeScalar hAt ?_
        rw [hType]
        exact (readsBack_of_decodeScalar hValue).1
      · split at hRead
        · next hPacked =>
          obtain ⟨⟨body, after⟩, -, hBody⟩ := Option.bind_eq_some_iff.mp hRead
          obtain ⟨ws, hValues, hStore⟩ := Option.bind_eq_some_iff.mp hBody
          cases hStore
          refine h.withSlot hAt (by simp [hPacked.2.1]) ((h.slot hAt).append hPacked.2.1 ?_)
          rw [hType]
          exact holds_of_decodePacked hValues
        · cases hRead
  | message s =>
      have hParts : ∀ part, Message.messageAt? m i = some part → P s part := by
        intro part hPart
        have hMem := List.mem_filterMap.mp (List.mem_of_head? hPart)
        obtain ⟨v, hMem, hValue⟩ := hMem
        have hHolds := (h.slot hAt).holds v hMem
        cases v with
        | message slots =>
            cases hValue
            rwa [hType] at hHolds
        | _ => cases hValue
      simp only [hType] at hRead
      split at hRead
      · cases hRead
      · obtain ⟨⟨body, after⟩, -, hBody⟩ := Option.bind_eq_some_iff.mp hRead
        cases hPresence : f.presence with
        | repeated =>
            simp only [hPresence] at hBody
            obtain ⟨part, hPart, hStore⟩ := Option.bind_eq_some_iff.mp hBody
            cases hStore
            refine h.withSlot hAt (by simp [hPresence]) ((h.slot hAt).append hPresence ?_)
            rw [hType]
            exact List.forall_mem_singleton.mpr (hNested s _ body part (.inr rfl) hPart)
        | _ =>
            simp only [hPresence] at hBody
            obtain ⟨part, hPart, hStore⟩ := Option.bind_eq_some_iff.mp hBody
            cases hStore
            rw [← hPresence]
            refine h.storeScalar hAt ?_
            rw [hType]
            refine hNested s _ body part ?_ hPart
            cases hOld : Message.messageAt? m i with
            | none => exact .inr rfl
            | some old => exact .inl (hParts old hOld)

/-- How a reader of fields goes on: it is at the end, or it reads a field that it knows, or it skips one. -/
theorem decodeFields_eq_some (hRead : decodeFields nested skip t fuel m bytes = some m') :
    (bytes = [] ∧ m' = m) ∨ ∃ left key after, fuel = left + 1 ∧ decodeKey bytes = some (key, after) ∧
      ((∃ i f m₁ rest, t.fields[i]? = some f ∧ f.number = key.number ∧
          decodeKnown nested t m i f key.code after = some (m₁, rest) ∧
          decodeFields nested skip t left m₁ rest = some m') ∨
        ∃ rest, skip key after = some rest ∧ decodeFields nested skip t left m rest = some m') := by
  cases bytes with
  | nil =>
      refine .inl ⟨rfl, ?_⟩
      cases fuel <;> cases hRead <;> rfl
  | cons b tail =>
      cases fuel with
      | zero => cases hRead
      | succ left =>
          simp only [decodeFields, Option.bind_eq_bind] at hRead
          obtain ⟨⟨key, after⟩, hKey, hField⟩ := Option.bind_eq_some_iff.mp hRead
          refine .inr ⟨left, key, after, rfl, hKey, ?_⟩
          cases hAt : t.fields[t.fields.findIdx fun f => f.number == key.number]? with
          | some f =>
              simp only [hAt] at hField
              obtain ⟨⟨m₁, rest⟩, hKnown, hRest⟩ := Option.bind_eq_some_iff.mp hField
              refine .inl ⟨_, f, m₁, rest, hAt, ?_, hKnown, hRest⟩
              obtain ⟨hLt, hEq⟩ := List.getElem?_eq_some_iff.mp hAt
              have hFound := List.findIdx_getElem (w := hLt)
              rw [hEq] at hFound
              exact eq_of_beq hFound
          | none =>
              simp only [hAt] at hField
              exact .inr (Option.bind_eq_some_iff.mp hField)

theorem allows_decodeFields (hNested : Preserves nested P) (h : t.Allows P m)
    (hRead : decodeFields nested skip t fuel m bytes = some m') : t.Allows P m' := by
  induction fuel generalizing m bytes with
  | zero =>
      rcases decodeFields_eq_some hRead with ⟨-, rfl⟩ | ⟨left, key, after, hFuel, -⟩
      · exact h
      · cases hFuel
  | succ fuel ih =>
      rcases decodeFields_eq_some hRead with ⟨-, rfl⟩ | ⟨left, key, after, hFuel, -, hField⟩
      · exact h
      · cases hFuel
        rcases hField with ⟨i, f, m₁, rest, hAt, -, hKnown, hRest⟩ | ⟨rest, -, hRest⟩
        · exact ih (allows_decodeKnown hNested h hAt hKnown) hRest
        · exact ih h hRest

theorem preserves_decodeInto (room : Nat) : Preserves (decodeInto room) (Conforms room) := by
  induction room with
  | zero =>
      intro t m bytes m' hStart hRead
      have hAllows : t.Allows (fun _ _ => False) m :=
        hStart.elim id fun hBlank => hBlank ▸ allows_blank t
      exact allows_decodeFields (fun s m bytes m' _ hNone => by cases hNone) hAllows hRead
  | succ room ih =>
      intro t m bytes m' hStart hRead
      have hAllows : t.Allows (Conforms room) m := hStart.elim id fun hBlank => hBlank ▸ allows_blank t
      exact allows_decodeFields ih hAllows hRead

theorem conforms_of_decode? (hRead : decode? t bytes = some m) : Conforms maxNesting t m :=
  preserves_decodeInto maxNesting t t.blank bytes m (.inr rfl) hRead

end Allowed

end Telemetry.Wire
