import Mathlib.Data.Nat.Find
import Telemetry.Gzip.Member

/-!
# Unpacking under a limit

What is unpacked under a limit is the beginning of what comes out of a file, and there is as much of it as
the limit allows or the file holds. That a file is damaged shows as soon as the limit lies past the
damage, and not before.

A step of inflating is steady if it is so with the step: a lower limit cuts off what a higher one gives,
and high enough limits make no difference. Steps one after the other are steady if each of them is.
-/

namespace Telemetry.Gzip

open Text (Bytes littleEndian)

/-- What comes out of a file. -/
structure Inflation where
  /-- The bytes before its end, or before the first damage. -/
  bytes : Bytes
  /-- Whether it ends as it should. -/
  sound : Bool
deriving DecidableEq, Repr

/-- The first bytes that come out, at most so many. If there are fewer, the file must end soundly. -/
def Inflation.first? (limit : Nat) (x : Inflation) : Option Bytes :=
  if limit ≤ x.bytes.length then some (x.bytes.take limit)
  else if x.sound then some x.bytes else none

namespace Inflation

variable {limit : Nat} {x : Inflation}

theorem first?_of_le (h : limit ≤ x.bytes.length) : x.first? limit = some (x.bytes.take limit) := if_pos h

theorem first?_of_lt (h : x.bytes.length < limit) :
    x.first? limit = if x.sound then some x.bytes else none := if_neg (Nat.not_le.mpr h)

end Inflation

/-! ## Bytes of bits -/

theorem length_bytesOf (bits : Bits) : (bytesOf bits).length = bits.length / 8 := by
  fun_induction bytesOf bits with
  | case1 a b c d e f g h rest ih => simp only [List.length_cons, ih]; omega
  | case2 bits hShort =>
      rcases bits with
        _ | ⟨a, _ | ⟨b, _ | ⟨c, _ | ⟨d, _ | ⟨e, _ | ⟨f, _ | ⟨g, _ | ⟨h, rest⟩⟩⟩⟩⟩⟩⟩⟩
      case cons.cons.cons.cons.cons.cons.cons.cons => exact absurd rfl (hShort _ _ _ _ _ _ _ _ _)
      all_goals simp

theorem bytesOf_take (bits : Bits) (count : Nat) :
    bytesOf (bits.take (8 * count)) = (bytesOf bits).take count := by
  fun_induction bytesOf bits generalizing count with
  | case1 a b c d e f g h rest ih =>
      cases count with
      | zero => rfl
      | succ count => simp [Nat.mul_succ, bytesOf, ih]
  | case2 bits hShort =>
      have hNone : bytesOf bits = [] := by rw [bytesOf]; exact hShort
      have hLength := congrArg List.length hNone
      rw [length_bytesOf, List.length_nil] at hLength
      rw [List.take_nil, ← List.length_eq_zero_iff, length_bytesOf, List.length_take]
      omega

theorem length_bytesOf_take {bits : Bits} {count : Nat} (h : 8 * count ≤ bits.length) :
    (bytesOf (bits.take (8 * count))).length = count := by
  rw [length_bytesOf, List.length_take, Nat.min_eq_left h, Nat.mul_div_cancel_left count (by decide)]

/-! ## Steady steps -/

namespace Inflating

/-- What a step gives under a limit and under one that is not lower: the same, if there is room for more,
and else the first bytes of the other, as many as the limit. -/
def Cut (limit : Nat) (r r' : Option Inflating) : Prop :=
  (r' = r ∧ ∀ s ∈ r, s.full = false ∧ s.out.size < limit) ∨
    ∃ s, r = some s ∧ s.full = true ∧ s.out.size = limit ∧ ∀ t ∈ r', s.out.toList <+: t.out.toList

/-- A step from some bytes that depends on the limit only as it should. -/
structure Steady (out : Array UInt8) (r : Nat → Option Inflating) : Prop where
  cut : ∀ {low high}, low ≤ high → out.size < low → Cut low (r low) (r high)
  adds : ∀ {limit}, ∀ t ∈ r limit, out.toList <+: t.out.toList
  settles : ∃ enough, ∀ limit, enough ≤ limit →
    r limit = r enough ∧ ∀ t ∈ r enough, t.full = false

namespace Steady

variable {out : Array UInt8} {r : Nat → Option Inflating} {s : Inflating}

theorem fails (out : Array UInt8) : Steady out fun _ => none where
  cut _ _ := .inl (by simp)
  adds := by simp
  settles := ⟨0, by simp⟩

theorem stays (h : s.full = false) : Steady s.out fun _ => some s where
  cut _ hRoom := .inl (by simpa using ⟨h, hRoom⟩)
  adds := by simp
  settles := ⟨0, by simpa using h⟩

theorem push (s : Inflating) (b : UInt8) : Steady s.out fun limit => some (s.push limit b) where
  cut := by
    intro low high hLe hRoom
    by_cases hReached : low ≤ s.out.size + 1
    · refine .inr ⟨_, rfl, by simpa [Inflating.push] using hReached, ?_, by simp [Inflating.push]⟩
      rw [Inflating.push, Array.size_push]
      exact Nat.le_antisymm hRoom hReached
    · have hHigh : ¬high ≤ s.out.size + 1 := fun h => hReached (Nat.le_trans hLe h)
      have hLow := Nat.not_le.mp hReached
      exact .inl ⟨by simp [Inflating.push, hReached, hHigh], by simp [Inflating.push, hLow]⟩
  adds := by simp [Inflating.push]
  settles := by
    refine ⟨s.out.size + 2, fun limit hEnough => ?_⟩
    have hFull : ¬limit ≤ s.out.size + 1 := by omega
    simp [Inflating.push, hFull]

/-- What is read first does not depend on the limit. -/
theorem after {α : Type} {f : Nat → α → Option Inflating} (x : Option α)
    (h : ∀ a, Steady out fun limit => f limit a) : Steady out fun limit => x.bind (f limit) := by
  cases x with
  | none => exact .fails out
  | some a => exact h a

/-- Steady steps one after the other, where nothing is done once the limit is reached. -/
theorem bind {next : Nat → Inflating → Option Inflating} (h : Steady out r)
    (hNext : ∀ t, t.full = false → Steady t.out fun limit => next limit t)
    (hRest : (∀ limit t, t.full = true → next limit t = some t) ∨ ∀ limit t, next limit t = none) :
    Steady out fun limit => (r limit).bind (next limit) := by
  have hAdds : ∀ limit t, ∀ u ∈ next limit t, t.out.toList <+: u.out.toList := by
    intro limit t u hMem
    cases hFull : t.full with
    | false => exact (hNext t hFull).adds u hMem
    | true =>
        rcases hRest with hStop | hNone
        · rw [hStop limit t hFull, Option.mem_some] at hMem
          subst hMem
          exact List.prefix_rfl
        · simp [hNone] at hMem
  refine ⟨fun {low high} hLe hRoom => ?_, fun {limit} u hMem => ?_, ?_⟩
  · rcases h.cut hLe hRoom with ⟨hSame, hOpen⟩ | ⟨s, hLow, hFull, hSize, hFirst⟩
    · rw [hSame]
      cases hStep : r low with
      | none => exact .inl (by simp)
      | some t => exact (hNext t (hOpen t hStep).1).cut hLe (hOpen t hStep).2
    · rw [hLow, Option.bind_some]
      rcases hRest with hStop | hNone
      · refine .inr ⟨s, hStop low s hFull, hFull, hSize, fun u hMem => ?_⟩
        obtain ⟨t, hStep, hLast⟩ := Option.bind_eq_some_iff.mp hMem
        exact (hFirst t hStep).trans (hAdds high t u hLast)
      · exact .inl ⟨by simp [hNone], by simp [hNone]⟩
  · obtain ⟨t, hStep, hLast⟩ := Option.bind_eq_some_iff.mp hMem
    exact (h.adds t hStep).trans (hAdds limit t u hLast)
  · obtain ⟨enough, hEnough⟩ := h.settles
    cases hStep : r enough with
    | none =>
        refine ⟨enough, fun limit hLe => ?_⟩
        simp [(hEnough limit hLe).1, hStep]
    | some t =>
        obtain ⟨later, hLater⟩ := (hNext t ((hEnough enough (Nat.le_refl _)).2 t hStep)).settles
        refine ⟨max enough later, fun limit hLe => ?_⟩
        have hBoth := hLater (max enough later) (Nat.le_max_right _ _)
        have hLimit := hLater limit (Nat.le_trans (Nat.le_max_right _ _) hLe)
        rw [(hEnough limit (Nat.le_trans (Nat.le_max_left _ _) hLe)).1,
          (hEnough (max enough later) (Nat.le_max_left _ _)).1, hStep, Option.bind_some,
          Option.bind_some, hLimit.1, hBoth.1]
        exact ⟨rfl, hBoth.2⟩

end Steady

variable {s : Inflating}

theorem repeatBytes_of_full (h : s.full = true) (limit distance count : Nat) :
    repeatBytes limit distance count s = s := by
  cases count with
  | zero => rfl
  | succ count => rw [repeatBytes, if_pos h]

theorem steady_repeatBytes (distance count : Nat) (s : Inflating) (h : s.full = false) :
    Steady s.out fun limit => some (repeatBytes limit distance count s) := by
  induction count generalizing s with
  | zero => exact .stays h
  | succ count ih =>
      have hSteps : Steady s.out fun limit =>
          (some (s.push limit (s.out.getD (s.out.size - distance) 0))).bind fun t =>
            some (repeatBytes limit distance count t) :=
        (Steady.push s _).bind ih
          (.inl fun limit t hFull => congrArg some (repeatBytes_of_full hFull limit distance count))
      simpa only [Option.bind_some, repeatBytes, h, Bool.false_eq_true, if_false] using hSteps

theorem symbols_of_full {fuel : Nat} {literals distances : PrefixCode} :
    (∀ limit t, t.full = true → symbols limit literals distances fuel t = some t) ∨
      ∀ limit t, symbols limit literals distances fuel t = none := by
  cases fuel with
  | zero => exact .inr fun limit t => rfl
  | succ fuel => exact .inl fun limit t hFull => by rw [symbols, if_pos hFull]

theorem steady_symbols (literals distances : PrefixCode) (fuel : Nat) (s : Inflating)
    (h : s.full = false) : Steady s.out fun limit => symbols limit literals distances fuel s := by
  induction fuel generalizing s with
  | zero => exact .fails s.out
  | succ fuel ih =>
      obtain ⟨out, bits, full⟩ := s
      obtain rfl : full = false := h
      simp only [symbols, Bool.false_eq_true, if_false, Option.bind_eq_bind, Option.pure_def]
      refine .after _ fun (symbol, bits) => ?_
      dsimp only
      split
      · exact (Steady.push ⟨out, bits, false⟩ _).bind ih symbols_of_full
      split
      · exact Steady.stays (s := ⟨out, bits, false⟩) rfl
      refine .after _ fun (length, bits) => .after _ fun (code, bits) => .after _ fun (distance, bits) => ?_
      dsimp only
      split
      · exact .fails out
      · exact (steady_repeatBytes distance length ⟨out, bits, false⟩ rfl).bind ih symbols_of_full

/-- So many bytes as they are, as far as the limit allows. -/
theorem steady_copy (size : Nat) (out : Array UInt8) (bits : Bits) : Steady out fun limit =>
    let wanted := min size (limit - out.size)
    if bits.length < 8 * wanted then none
    else some ⟨out ++ (bytesOf (bits.take (8 * wanted))).toArray, bits.drop (8 * wanted),
      limit ≤ (out ++ (bytesOf (bits.take (8 * wanted))).toArray).size⟩ where
  cut := by
    intro low high hLe hRoom
    dsimp only
    by_cases hFits : size < low - out.size
    · rw [Nat.min_eq_left (by omega), Nat.min_eq_left (by omega)]
      split
      · exact .inl (by simp)
      · next hThere =>
          have hSize := length_bytesOf_take (Nat.not_lt.mp hThere)
          have hLow : ¬low ≤ out.size + size := by omega
          have hHigh : ¬high ≤ out.size + size := by omega
          exact .inl ⟨by simp [hSize, hLow, hHigh], by simp [hSize, hLow]; omega⟩
    · rw [Nat.min_eq_right (Nat.not_lt.mp hFits)]
      split
      · have hNone : bits.length < 8 * min size (high - out.size) := by omega
        rw [if_pos hNone]
        exact .inl (by simp)
      · next hThere =>
          have hSize := length_bytesOf_take (Nat.not_lt.mp hThere)
          have hLast : out.size + (low - out.size) = low := by omega
          refine .inr ⟨_, rfl, by simp [hSize, hLast], by simp [hSize, hLast], fun t hMem => ?_⟩
          split at hMem
          · simp at hMem
          · obtain rfl := Option.some.inj hMem
            simp only [Array.toList_append, List.prefix_append_right_inj, bytesOf_take]
            exact List.take_prefix_take_left (by omega)
  adds := by
    intro limit t hMem
    dsimp only at hMem
    split at hMem
    · simp at hMem
    · obtain rfl := Option.some.inj hMem
      simp
  settles := by
    refine ⟨out.size + size + 1, fun limit hEnough => ?_⟩
    dsimp only
    rw [Nat.min_eq_left (by omega), Nat.min_eq_left (by omega)]
    split
    · simp
    · next hThere =>
        have hSize := length_bytesOf_take (Nat.not_lt.mp hThere)
        have hFull : ¬limit ≤ out.size + size := by omega
        simp [hSize, hFull]

theorem steady_stored (s : Inflating) : Steady s.out fun limit => s.stored limit := by
  simp only [stored, Option.bind_eq_bind, Option.pure_def]
  refine .after _ fun (size, bits) => .after _ fun (check, bits) => ?_
  dsimp only
  split
  · exact .fails s.out
  · exact steady_copy size s.out bits

theorem blocks_of_full {fuel : Nat} (last : Prop) [Decidable last] :
    (∀ limit t, t.full = true → (if last then some t else blocks limit fuel t) = some t) ∨
      ∀ limit t, (if last then some t else blocks limit fuel t) = none := by
  by_cases hLast : last
  · exact .inl fun limit t _ => if_pos hLast
  simp only [if_neg hLast]
  cases fuel with
  | zero => exact .inr fun limit t => rfl
  | succ fuel => exact .inl fun limit t hFull => by rw [blocks, if_pos hFull]

theorem steady_blocks (fuel : Nat) (s : Inflating) (h : s.full = false) :
    Steady s.out fun limit => blocks limit fuel s := by
  induction fuel generalizing s with
  | zero => exact .fails s.out
  | succ fuel ih =>
      obtain ⟨out, bits, full⟩ := s
      obtain rfl : full = false := h
      simp only [blocks, block, Bool.false_eq_true, if_false, Option.bind_eq_bind, Option.pure_def,
        Option.bind_assoc]
      refine .after _ fun (last, bits) => .after _ fun (kind, bits) => ?_
      have hRest : ∀ {r}, Steady out r → Steady out fun limit =>
          (r limit).bind fun t => if last = 1 then some t else blocks limit fuel t := by
        intro r hFirst
        refine hFirst.bind (fun t hFull => ?_) (blocks_of_full (last = 1))
        split
        · exact .stays hFull
        · exact ih t hFull
      dsimp only
      split <;> simp only [Option.bind_assoc, Option.bind_some, decide_eq_true_eq]
      · exact hRest (steady_stored ⟨out, bits, false⟩)
      · exact .after _ fun literals => .after _ fun distances =>
          hRest (steady_symbols literals distances _ ⟨out, bits, false⟩ rfl)
      · exact .after _ fun (literals, distances, bits) =>
          hRest (steady_symbols literals distances _ ⟨out, bits, false⟩ rfl)
      · exact .fails out

/-- What an inflated member holds: as much as was asked for, or all of it if its checksum and its size are
right. -/
def content? (s : Inflating) : Option Bytes :=
  if s.full then some s.out.toList
  else if (bytesOf (alignToByte s.bits)).take 8 =
      littleEndian 4 (checksum s.out.toList).toNat ++ littleEndian 4 s.out.toList.length then
    some s.out.toList
  else none

theorem content?_of_full (h : s.full = true) : s.content? = some s.out.toList := if_pos h

theorem eq_of_content? {content : Bytes} (h : s.content? = some content) : content = s.out.toList := by
  rw [content?] at h
  split at h
  · exact (Option.some.inj h).symm
  split at h
  · exact (Option.some.inj h).symm
  · cases h

namespace Steady

variable {r : Nat → Option Inflating} {low high : Nat} {content : Bytes}

/-- What is there under a limit begins with what is there under a lower one. -/
theorem take (h : Steady #[] r) (hLow : 0 < low) (hLe : low ≤ high)
    (hHigh : (r high).bind content? = some content) :
    (r low).bind content? = some (content.take low) := by
  obtain ⟨t, hStep, hContent⟩ := Option.bind_eq_some_iff.mp hHigh
  have hOut := eq_of_content? hContent
  rcases h.cut hLe hLow with ⟨hSame, hOpen⟩ | ⟨s, hReached, hFull, hSize, hFirst⟩
  · have hRoom := (hOpen t (hSame ▸ hStep)).2
    rw [← hSame, hStep, Option.bind_some, hContent, List.take_of_length_le]
    rw [hOut, Array.length_toList]
    exact Nat.le_of_lt hRoom
  · have hPrefix := List.prefix_iff_eq_take.mp (hFirst t hStep)
    rw [Array.length_toList, hSize, ← hOut] at hPrefix
    rw [hReached, Option.bind_some, content?_of_full hFull, hPrefix]

/-- Where a limit leaves room, a higher one gives the same. -/
theorem of_room (h : Steady #[] r) (hLow : 0 < low) (hLe : low ≤ high)
    (hContent : (r low).bind content? = some content) (hRoom : content.length < low) :
    (r high).bind content? = some content := by
  obtain ⟨t, hStep, hOut⟩ := Option.bind_eq_some_iff.mp hContent
  rcases h.cut hLe hLow with ⟨hSame, -⟩ | ⟨s, hReached, -, hSize, -⟩
  · rw [hSame, hContent]
  · obtain rfl : s = t := Option.some.inj (hReached.symm.trans hStep)
    rw [eq_of_content? hOut, Array.length_toList, hSize] at hRoom
    exact absurd hRoom (Nat.lt_irrefl low)

theorem length_le (h : Steady #[] r) (hLow : 0 < low) (hContent : (r low).bind content? = some content) :
    content.length ≤ low := by
  have hTake := Option.some.inj (hContent.symm.trans (h.take hLow (Nat.le_refl low) hContent))
  rw [hTake]
  exact List.length_take_le low content

/-- Some limit leaves room for all that comes out. -/
theorem exists_room (h : Steady #[] r) : ∃ enough, 0 < enough ∧
    ∀ content, (r enough).bind content? = some content → content.length < enough := by
  obtain ⟨enough, hEnough⟩ := h.settles
  refine ⟨enough + 1, Nat.succ_pos enough, fun content hContent => ?_⟩
  obtain ⟨t, hStep, hOut⟩ := Option.bind_eq_some_iff.mp hContent
  rw [eq_of_content? hOut, Array.length_toList]
  rcases h.cut (Nat.le_refl (enough + 1)) (Nat.succ_pos enough) with
    ⟨-, hOpen⟩ | ⟨s, hReached, hFull, -, -⟩
  · exact (hOpen t hStep).2
  · obtain ⟨hSame, hNotFull⟩ := hEnough (enough + 1) (Nat.le_succ enough)
    exact absurd (hNotFull s (hSame ▸ hReached)) (by simp [hFull])

end Steady

end Inflating

open Inflating (Steady)

variable {bytes : Bytes}

theorem exists_steady (bytes : Bytes) : ∃ r, Steady #[] r ∧
    ∀ limit, 0 < limit → unpack? limit bytes = (r limit).bind Inflating.content? := by
  cases hHead : dropHead bytes with
  | none => exact ⟨fun _ => none, .fails _, fun limit _ => by rw [unpack?, hHead]; rfl⟩
  | some rest =>
      refine ⟨_, Inflating.steady_blocks ((bitsOf rest).length + 1) ⟨#[], bitsOf rest, false⟩ rfl, ?_⟩
      intro limit hLimit
      rw [unpack?, hHead]
      simp only [Option.bind_eq_bind, Option.bind_some, inflate?, Option.pure_def,
        decide_eq_false (Nat.ne_of_gt hLimit)]
      rfl

/-- Under every limit a file gives the first bytes of one and the same inflation. -/
theorem exists_inflation (bytes : Bytes) :
    ∃ x : Inflation, ∀ limit, 0 < limit → unpack? limit bytes = x.first? limit := by
  obtain ⟨r, hSteady, hUnpack⟩ := exists_steady bytes
  suffices hSome : ∃ x : Inflation, ∀ limit, 0 < limit →
      (r limit).bind Inflating.content? = x.first? limit by
    obtain ⟨x, hFirst⟩ := hSome
    exact ⟨x, fun limit hLimit => (hUnpack limit hLimit).trans (hFirst limit hLimit)⟩
  obtain ⟨enough, hEnough, hRoom⟩ := hSteady.exists_room
  cases hAll : (r enough).bind Inflating.content? with
  | some content =>
      have hLast := hRoom content hAll
      refine ⟨⟨content, true⟩, fun limit hLimit => ?_⟩
      rcases Nat.lt_or_ge content.length limit with hMany | hFew
      · rw [Inflation.first?_of_lt hMany, if_pos rfl]
        rcases Nat.le_total limit enough with hLe | hLe
        · rw [hSteady.take hLimit hLe hAll, List.take_of_length_le (Nat.le_of_lt hMany)]
        · exact hSteady.of_room hEnough hLe hAll hLast
      · rw [Inflation.first?_of_le hFew]
        exact hSteady.take hLimit (Nat.le_trans hFew (Nat.le_of_lt hLast)) hAll
  | none =>
      -- the damage is where the lowest limit lies that gives nothing
      have hDamaged : ∃ limit, 0 < limit ∧ (r limit).bind Inflating.content? = none :=
        ⟨enough, hEnough, hAll⟩
      obtain ⟨hPos, hNone⟩ := Nat.find_spec hDamaged
      have hBefore := fun limit => Nat.find_min hDamaged (m := limit)
      have hWithin := Nat.find_min' hDamaged ⟨hEnough, hAll⟩
      generalize Nat.find hDamaged = damage at hPos hNone hBefore hWithin
      have hPast : ∀ limit, damage ≤ limit → (r limit).bind Inflating.content? = none := by
        intro limit hLe
        cases hStep : (r limit).bind Inflating.content? with
        | none => rfl
        | some content => exact absurd (hNone.symm.trans (hSteady.take hPos hLe hStep)) (by simp)
      suffices hHeld : ∃ content : Bytes, content.length = damage - 1 ∧
          ∀ limit, 0 < limit → limit < damage →
            (r limit).bind Inflating.content? = some (content.take limit) by
        obtain ⟨content, hLength, hTake⟩ := hHeld
        refine ⟨⟨content, false⟩, fun limit hLimit => ?_⟩
        rcases Nat.lt_or_ge content.length limit with hMany | hFew
        · rw [Inflation.first?_of_lt hMany, hPast limit (by omega)]
          rfl
        · rw [Inflation.first?_of_le hFew, hTake limit hLimit (by omega)]
      obtain rfl | hLater : damage = 1 ∨ 1 < damage := by omega
      · exact ⟨[], rfl, fun limit hLimit hLess => by omega⟩
      cases hLast : (r (damage - 1)).bind Inflating.content? with
      | none => exact absurd ⟨by omega, hLast⟩ (hBefore (damage - 1) (by omega))
      | some content =>
          refine ⟨content, ?_, fun limit hLimit hLess => hSteady.take hLimit (by omega) hLast⟩
          refine Nat.le_antisymm (hSteady.length_le (by omega) hLast) (Nat.le_of_not_lt fun hShort => ?_)
          have hMore := hSteady.of_room (by omega) (Nat.le_trans (Nat.sub_le damage 1) hWithin) hLast hShort
          exact absurd (hAll.symm.trans hMore) (by simp)

/-- What comes out of a file as it is unpacked. -/
noncomputable def inflation (bytes : Bytes) : Inflation := (exists_inflation bytes).choose

theorem unpack?_eq_first? {limit : Nat} (h : 0 < limit) (bytes : Bytes) :
    unpack? limit bytes = (inflation bytes).first? limit :=
  (exists_inflation bytes).choose_spec limit h

end Telemetry.Gzip
