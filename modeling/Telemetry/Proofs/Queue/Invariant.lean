import Telemetry.Proofs.Queue.Balance

/-!
# What holds between two steps

Between two steps the running queue remembers what is stored, and the balance of the namespace holds.
What is listed as being sent is what workers hold, and what a shutdown held up.
-/

namespace Telemetry.Queue

open Storage (Access Space)
open Text (Bytes)

variable {β : Type} {codec : Codec β} {admits : β → Prop} {tears : Bool} {s t : Space}
  {q q' : PersistentQueue} {carried held : List (UInt64 × β)} {trace : List (Event β)}
  {w w' : World β Space} {e : Event β}

/-- A namespace by itself as storage. -/
abbrev Setup.ofSpace (codec : Codec β) (admits : β → Prop) (tears : Bool) : Setup β Space :=
  ⟨Space.client, codec, admits, tears⟩

/-- Those who hold batches of a queue: all of them are listed, and every worker has a reference. -/
structure Team (codec : Codec β) (s : Space) (q : PersistentQueue)
    (carried held : List (UInt64 × β)) : Prop where
  listed : q.dispatched.Perm (held.map Prod.fst)
  stored : ∀ c ∈ held, batchAt codec s c.1 = some c.2
  references : q.client.isSome = true → q.references = carried.length + 1
  parted : q.client.isSome = false → carried = []

namespace Team

theorem mem_dispatched (h : Team codec s q carried held) {c : UInt64 × β} (hMem : c ∈ held) :
    c.1 ∈ q.dispatched := h.listed.mem_iff.mpr (List.mem_map_of_mem hMem)

/-- What happens to other values does not matter. -/
theorem congr (h : Team codec s q carried held) (hListed : q'.dispatched = q.dispatched)
    (hClient : q'.client = q.client) (hReferences : q'.references = q.references)
    (hSame : ∀ i ∈ q.dispatched, t.get? (itemKey i) = s.get? (itemKey i)) :
    Team codec t q' carried held where
  listed := hListed ▸ h.listed
  stored := by
    intro c hMem
    rw [batchAt_congr (hSame c.1 (h.mem_dispatched hMem))]
    exact h.stored c hMem
  references := by
    rw [hClient, hReferences]
    exact h.references
  parted := by
    rw [hClient]
    exact h.parted

theorem client_isSome (h : Team codec s q carried held) (hSome : carried ≠ []) :
    q.client.isSome = true := by
  cases hClient : q.client.isSome with
  | true => rfl
  | false => exact absurd (h.parted hClient) hSome

/-- A worker that holds a batch does not hold the last reference. -/
theorem references_ge (h : Team codec s q carried held) (hSome : carried ≠ []) :
    2 ≤ q.references := by
  have hCount := h.references (h.client_isSome hSome)
  have hLength := List.length_pos_iff.mpr hSome
  omega

theorem claim {rest : List (UInt64 × β)} (h : Team codec s q carried (carried ++ rest))
    (hClient : q.client.isSome = true) {b : β} (hBatch : batchAt codec s q.readIndex = some b) :
    Team codec (afterClaim s q.readIndex q.dispatched)
      { q.advanced with references := q.references + 1 } (carried ++ [(q.readIndex, b)])
      (carried ++ [(q.readIndex, b)] ++ rest) where
  listed := by
    have hMoved : (q.dispatched ++ [q.readIndex]).Perm
        ((carried ++ rest).map Prod.fst ++ [q.readIndex]) := h.listed.append_right _
    refine hMoved.trans ?_
    rw [List.map_append, List.map_append, List.map_append, List.append_assoc, List.append_assoc]
    exact List.Perm.append_left _ List.perm_append_comm
  stored := by
    intro c hMem
    rw [batchAt_congr (get?_afterClaim s q.readIndex q.dispatched c.1)]
    rw [List.append_assoc, List.mem_append, List.mem_append, List.mem_singleton] at hMem
    rcases hMem with hOld | rfl | hRest
    · exact h.stored c (List.mem_append_left _ hOld)
    · exact hBatch
    · exact h.stored c (List.mem_append_right _ hRest)
  references := by
    intro _
    rw [List.length_append, List.length_singleton, ← h.references hClient]
  parted := fun hNone => absurd (hClient.symm.trans hNone) Bool.noConfusion

/-- What one worker holds, nobody else does. -/
theorem pick {before after rest : List (UInt64 × β)} {i : UInt64} {b : β}
    (h : Team codec s q (before ++ (i, b) :: after) (before ++ (i, b) :: after ++ rest))
    (hNodup : q.dispatched.Nodup) :
    q.dispatched.Perm (i :: (before ++ after ++ rest).map Prod.fst) ∧
      i ∉ (before ++ after ++ rest).map Prod.fst := by
  have hPerm : (before ++ (i, b) :: after ++ rest).Perm ((i, b) :: (before ++ after ++ rest)) := by
    rw [List.append_assoc, List.append_assoc]
    exact List.perm_middle
  have hIndices := h.listed.trans (hPerm.map Prod.fst)
  exact ⟨hIndices, (List.nodup_cons.mp (hIndices.nodup_iff.mp hNodup)).1⟩

theorem references_released {before after : List (UInt64 × β)} {i : UInt64} {b : β}
    (h : Team codec s q (before ++ (i, b) :: after) held) (hClient : q.client.isSome = true) :
    q.references - 1 = (before ++ after).length + 1 := by
  have hCount := h.references hClient
  rw [List.length_append, List.length_cons] at hCount
  rw [List.length_append]
  omega

/-- A batch whose sending is over leaves the list. -/
theorem remove {before after rest : List (UInt64 × β)} {i : UInt64} {b : β}
    (h : Team codec s q (before ++ (i, b) :: after) (before ++ (i, b) :: after ++ rest))
    (hNodup : q.dispatched.Nodup) :
    Team codec (afterRemoval s q.dispatched i) (q.struck i).released (before ++ after)
      (before ++ after ++ rest) where
  listed := by
    obtain ⟨hIndices, hFresh⟩ := h.pick hNodup
    refine (hIndices.filter (· != i)).trans ?_
    rw [List.filter_cons_of_neg (by simp), List.filter_eq_self.mpr]
    exact fun j hj => bne_iff_ne.mpr fun hEq => hFresh (hEq ▸ hj)
  stored := by
    intro c hMem
    have hNe : c.1 ≠ i := fun hEq => (h.pick hNodup).2 (hEq ▸ List.mem_map_of_mem hMem)
    have hSame : (afterRemoval s q.dispatched i).get? (itemKey c.1) = s.get? (itemKey c.1) := by
      rw [get?_afterRemoval, if_neg hNe]
    rw [batchAt_congr hSame]
    refine h.stored c ?_
    rw [List.append_assoc, List.mem_append] at hMem ⊢
    exact hMem.imp_right (List.mem_cons_of_mem _)
  references := fun hClient => h.references_released hClient
  parted := fun hNone => absurd (h.parted hNone) (by simp)

/-- A batch that a shutdown held up stays on the list. -/
theorem keep {before after rest : List (UInt64 × β)} {i : UInt64} {b : β}
    (h : Team codec s q (before ++ (i, b) :: after) (before ++ (i, b) :: after ++ rest)) :
    Team codec s q.released (before ++ after) (before ++ after ++ (i, b) :: rest) where
  listed := by
    refine h.listed.trans (List.Perm.map Prod.fst ?_)
    rw [List.append_assoc, List.append_assoc, List.cons_append]
    exact List.Perm.append_left before List.perm_middle.symm
  stored := by
    intro c hMem
    refine h.stored c ?_
    simp only [List.mem_append, List.mem_cons] at hMem ⊢
    rcases hMem with (hIn | hIn) | hIn | hIn
    · exact .inl (.inl hIn)
    · exact .inl (.inr (.inr hIn))
    · exact .inl (.inr (.inl hIn))
    · exact .inr hIn
  references := fun hClient => h.references_released hClient
  parted := fun hNone => absurd (h.parted hNone) (by simp)

end Team

/-- What holds of the queue that runs. -/
structure Served (codec : Codec β) (admits : β → Prop) (trace : List (Event β))
    (w : World β Space) (q : PersistentQueue) : Prop where
  books : Books codec admits w.storage q.readIndex q.writeIndex q.dispatched (stored trace)
    (settled trace) (lost trace)
  team : Team codec w.storage q w.carried (w.carried ++ interrupted trace)

/-- What holds of a world that a run has led to. -/
structure Balanced (codec : Codec β) (admits : β → Prop) (trace : List (Event β))
    (w : World β Space) : Prop where
  books : ∃ r wi ds, Books codec admits w.storage r wi ds (stored trace) (settled trace) (lost trace)
  served : ∀ q, w.running = some q → Served codec admits trace w q

theorem Served.balanced (h : Served codec admits trace w q) (hRunning : w.running = some q) :
    Balanced codec admits trace w where
  books := ⟨_, _, _, h.books⟩
  served := fun _ hSame => Option.some.inj (hRunning.symm.trans hSame) ▸ h

theorem Books.idle {r wi : UInt64} {ds : List UInt64}
    (h : Books codec admits s r wi ds (stored trace) (settled trace) (lost trace)) :
    Balanced codec admits trace (.idle s) where
  books := ⟨r, wi, ds, h⟩
  served := fun _ hNone => absurd hNone.symm (Option.some_ne_none _)

/-- A step that shows nothing of batches. -/
structure Event.IsSilent (e : Event β) : Prop where
  stored : e.stored = 0
  settled : e.settled = 0
  lost : e.lost = 0

theorem Books.silent {r wi : UInt64} {ds : List UInt64} (hSilent : e.IsSilent)
    (h : Books codec admits s r wi ds (stored trace) (settled trace) (lost trace)) :
    Books codec admits s r wi ds (stored (e :: trace)) (settled (e :: trace)) (lost (e :: trace)) := by
  rw [stored_cons, settled_cons, lost_cons, hSilent.stored, hSilent.settled, hSilent.lost, zero_add,
    zero_add, zero_add]
  exact h

/-- What two queues have in common of which only one uses other numbers for its workers. -/
structure PersistentQueue.Agrees (q' q : PersistentQueue) : Prop where
  readIndex : q'.readIndex = q.readIndex
  writeIndex : q'.writeIndex = q.writeIndex
  dispatched : q'.dispatched = q.dispatched
  client : q'.client = q.client
  references : q'.references = q.references

/-- Steps that only wake workers, or lead to a shutdown, leave everything else as it is. -/
theorem Served.adjust (h : Served codec admits trace w q) (hStorage : w'.storage = w.storage)
    (hCarried : w'.carried = w.carried) (hAgrees : q'.Agrees q) (hSilent : e.IsSilent)
    (hHeld : interrupted (e :: trace) = interrupted trace) :
    Served codec admits (e :: trace) w' q' where
  books := by
    rw [hStorage, hAgrees.readIndex, hAgrees.writeIndex, hAgrees.dispatched]
    exact h.books.silent hSilent
  team := by
    rw [hStorage, hCarried, hHeld]
    exact h.team.congr hAgrees.dispatched hAgrees.client hAgrees.references fun _ _ => rfl

theorem Balanced.adjust (h : Balanced codec admits trace w) (hBefore : w.running = some q)
    (hAfter : w'.running = some q') (hStorage : w'.storage = w.storage)
    (hCarried : w'.carried = w.carried) (hAgrees : q'.Agrees q) (hSilent : e.IsSilent)
    (hHeld : interrupted (e :: trace) = interrupted trace) : Balanced codec admits (e :: trace) w' :=
  ((h.served q hBefore).adjust hStorage hCarried hAgrees hSilent hHeld).balanced hAfter

theorem isSilent_quiet : (Event.quiet : Event β).IsSilent := ⟨rfl, rfl, rfl⟩

theorem takePermit_agrees (h : q.takePermit = some q') : q'.Agrees q := by
  rw [PersistentQueue.takePermit] at h
  split at h
  · cases h
    exact ⟨rfl, rfl, rfl, rfl, rfl⟩
  · exact absurd h.symm (Option.some_ne_none _)

section Steps

variable (hCodec : ∀ b, admits b → codec.unmarshal? (codec.marshal b) = some b)

include hCodec in
/-- A queue starts on what others have left. -/
theorem Books.begin {r wi wi' : UInt64} {ds : List UInt64}
    (h : Books codec admits s r wi ds (stored trace) (settled trace) (lost trace))
    (hNew : q.Unstarted) (hRecovered : Recovered codec s r wi ds t wi') (number count : Nat) :
    Served codec admits (.started (.ok ()) :: trace)
      ⟨t, some (q.begun number r wi wi' count), 0, 0, []⟩ (q.begun number r wi wi' count) where
  books := by
    have hAgain := (h.recover hCodec hRecovered).silent (e := .started (.ok ())) ⟨rfl, rfl, rfl⟩
    rw [← hNew.dispatched] at hAgain
    exact hAgain
  team := by
    constructor
    case listed =>
      change q.dispatched.Perm _
      rw [hNew.dispatched]
      exact List.Perm.refl []
    case stored => exact fun c hMem => absurd hMem List.not_mem_nil
    case references => exact fun _ => rfl
    case parted => exact fun _ => rfl

include hCodec in
/-- An offer stores its batch behind the others. -/
theorem Served.offer (h : Served codec admits trace w q) {b : β} (hAdmitted : admits b)
    (hWords : q.writeIndex.toNat + q.dispatched.length + 1 < 2 ^ 64) :
    Served codec admits (.accepted b :: trace)
      ⟨afterPut w.storage q.writeIndex (codec.marshal b), some (q.grown (q.writeIndex + 1) 1),
        w.owed + 1, w.called, w.carried⟩ (q.grown (q.writeIndex + 1) 1) where
  books := by
    rw [stored_cons, settled_cons, lost_cons]
    change Books _ _ _ _ _ _ ({b} + _) (0 + _) (0 + _)
    rw [zero_add, zero_add]
    exact h.books.put hCodec hAdmitted hWords
  team := by
    refine h.team.congr rfl rfl rfl fun i hi => ?_
    have hLt := UInt64.lt_of_lt_of_le (h.books.below i hi) h.books.ordered
    have hNe : i ≠ q.writeIndex := fun hEq => UInt64.lt_irrefl _ (hEq ▸ hLt)
    rw [get?_afterPut, if_neg hNe]

/-- A claim lists its batch. -/
theorem Served.claim (h : Served codec admits trace w q)
    (hOpen : (q.stopped || q.client.isNone) = false) (hWaiting : q.readIndex ≠ q.writeIndex)
    (hWords : q.writeIndex.toNat + q.dispatched.length + 1 < 2 ^ 64)
    (hCount : q.dispatched.length + 1 < 2 ^ 32) {b : β}
    (hBatch : batchAt codec w.storage q.readIndex = some b) {owed called : Nat} :
    Served codec admits (.claimed q.readIndex b :: trace)
      ⟨afterClaim w.storage q.readIndex q.dispatched,
        some { q.advanced with references := q.references + 1 }, owed, called,
        w.carried ++ [(q.readIndex, b)]⟩ { q.advanced with references := q.references + 1 } where
  books := (h.books.claim hWaiting hWords hCount).silent ⟨rfl, rfl, rfl⟩
  team := by
    have hClient : q.client.isSome = true := by
      rw [Bool.or_eq_false_iff, Option.isNone_eq_false_iff] at hOpen
      exact hOpen.2
    exact h.team.claim hClient hBatch

/-- A claim that finds no batch passes its index over. -/
theorem Served.pass (h : Served codec admits trace w q) (hWaiting : q.readIndex ≠ q.writeIndex)
    (hWords : q.writeIndex.toNat + q.dispatched.length + 1 < 2 ^ 64)
    (hCount : q.dispatched.length + 1 < 2 ^ 32)
    (hBatch : batchAt codec w.storage q.readIndex = none) {owed called : Nat} :
    Served codec admits (.quiet :: trace)
      ⟨afterRemoval (afterClaim w.storage q.readIndex q.dispatched)
          (q.dispatched ++ [q.readIndex]) q.readIndex,
        some (q.advanced.struck q.readIndex), owed, called, w.carried⟩
      (q.advanced.struck q.readIndex) where
  books := by
    have hMem : q.readIndex ∈ q.dispatched ++ [q.readIndex] :=
      List.mem_append_right _ (List.mem_singleton_self _)
    have hHole : batchAt codec (afterClaim w.storage q.readIndex q.dispatched) q.readIndex = none :=
      (batchAt_congr (get?_afterClaim w.storage q.readIndex q.dispatched _)).trans hBatch
    have hRemoved := (h.books.claim hWaiting hWords hCount).remove hMem
    rw [hHole, single, zero_add] at hRemoved
    exact hRemoved.silent isSilent_quiet
  team := by
    have hNot : q.readIndex ∉ q.dispatched := fun hIn =>
      UInt64.lt_irrefl _ (h.books.below _ hIn)
    refine h.team.congr (strike_append_self hNot) rfl rfl fun i hi => ?_
    have hNe : i ≠ q.readIndex := fun hEq => hNot (hEq ▸ hi)
    rw [get?_afterRemoval, if_neg hNe, get?_afterClaim]

/-- The sending of a batch is over. -/
theorem Served.settle (h : Served codec admits trace w q) {before after : List (UInt64 × β)}
    {i : UInt64} {b : β} (hCarried : w.carried = before ++ (i, b) :: after) {outcome : Outcome}
    (hOver : outcome.isShutdown = false) {owed called : Nat} :
    Served codec admits (.ended i b outcome :: trace)
      ⟨afterRemoval w.storage q.dispatched i, some (q.struck i).released, owed, called,
        before ++ after⟩ (q.struck i).released where
  books := by
    have hTeam := h.team
    rw [hCarried] at hTeam
    have hIn : (i, b) ∈ before ++ (i, b) :: after ++ interrupted trace := by simp
    have hRemoved := h.books.remove (hTeam.mem_dispatched hIn)
    rw [hTeam.stored _ hIn] at hRemoved
    rw [stored_cons, settled_cons, lost_cons, Event.settled, hOver]
    change Books _ _ _ _ _ _ (0 + _) ({b} + _) (0 + _)
    rw [zero_add, zero_add]
    exact hRemoved
  team := by
    have hTeam := h.team
    rw [hCarried] at hTeam
    rw [interrupted, hOver]
    exact hTeam.remove h.books.nodup

/-- The sending of a batch was held up by a shutdown. -/
theorem Served.keep (h : Served codec admits trace w q) {before after : List (UInt64 × β)}
    {i : UInt64} {b : β} (hCarried : w.carried = before ++ (i, b) :: after) {outcome : Outcome}
    (hKept : outcome.isShutdown = true) {owed called : Nat} :
    Served codec admits (.ended i b outcome :: trace)
      ⟨w.storage, some q.released, owed, called, before ++ after⟩ q.released where
  books := h.books.silent ⟨rfl, by rw [Event.settled, hKept]; rfl, rfl⟩
  team := by
    have hTeam := h.team
    rw [hCarried] at hTeam
    rw [interrupted, hKept]
    exact hTeam.keep

/-- A shutdown gives the client up once no worker holds a batch. -/
theorem Served.detach (h : Served codec admits trace w q) (hCarried : w.carried = []) :
    Served codec admits (.quiet :: trace)
      { w with running := some { q.released with client := none } }
      { q.released with client := none } where
  books := h.books.silent isSilent_quiet
  team := ⟨h.team.listed, h.team.stored, fun hSome => absurd hSome Bool.noConfusion,
    fun _ => hCarried⟩

end Steps

/-! ## Processes that die -/

section Deaths

variable {r wi : UInt64} {ds : List UInt64} {ins outs gone : Multiset β}

theorem Books.cutOffer (hCodec : ∀ b, admits b → codec.unmarshal? (codec.marshal b) = some b)
    (h : Books codec admits s q.readIndex q.writeIndex q.dispatched ins outs gone)
    (hRoom : q.refusal? = none) {b : β} (hAdmitted : admits b)
    (hWords : q.writeIndex.toNat + q.dispatched.length + 1 < 2 ^ 64) (count : Nat) :
    ∃ wi', Books codec admits ((q.offerLocked (codec.marshal b)).cut Space.client count s)
      q.readIndex wi' q.dispatched ((if 2 ≤ count then {b} else 0) + ins) outs gone := by
  rw [PersistentQueue.cut_offerLocked_of_room hRoom]
  match count with
  | 0 => exact ⟨q.writeIndex, by simpa using h⟩
  | 1 => exact ⟨q.writeIndex + 1, by simpa using h.putTorn hWords⟩
  | count + 2 => exact ⟨q.writeIndex + 1, by simpa using h.put hCodec hAdmitted hWords⟩

theorem Books.cutRemove (h : Books codec admits s r wi q.dispatched ins outs gone) {i : UInt64}
    (hMem : i ∈ q.dispatched) (count : Nat) :
    ∃ ds, Books codec admits ((q.remove i).cut Space.client count s) r wi ds ins
      ((if count = 0 then 0 else single (batchAt codec s i)) + outs) gone := by
  rw [PersistentQueue.cut_remove]
  match count with
  | 0 => exact ⟨q.dispatched, by simpa using h⟩
  | 1 => exact ⟨_, by simpa using h.strike hMem⟩
  | count + 2 => exact ⟨_, by simpa using h.remove hMem⟩

/-- A claim that is torn leaves its batch out, if the read index was moved and nothing else. -/
theorem Books.cutClaim (h : Books codec admits s q.readIndex q.writeIndex q.dispatched ins outs gone)
    (hWords : q.writeIndex.toNat + q.dispatched.length + 1 < 2 ^ 64)
    (hCount : q.dispatched.length + 1 < 2 ^ 32) (count : Nat) :
    ∃ r ds, Books codec admits ((q.claim codec).cut Space.client count s) r q.writeIndex ds ins outs
      ((Event.diedClaiming ((q.claim codec).run Space.client s).1.1 count).lost + gone) := by
  cases PersistentQueue.claim_cases codec q s with
  | idle found hFound hIdle hClaim =>
      have hNone : (Event.diedClaiming found count).lost = 0 := by
        cases found with
        | item i b => exact absurd rfl (hFound i b)
        | _ => rfl
      rw [hClaim, Access.cut_done, Access.run_done, hNone, zero_add]
      exact ⟨_, _, h⟩
  | item b hOpen hWaiting hBatch =>
      rw [PersistentQueue.cut_claim_of_waiting hOpen hWaiting,
        PersistentQueue.run_claim_of_item hOpen hWaiting hBatch, hBatch]
      match count with
      | 0 => exact ⟨_, _, by simpa [Event.lost] using h⟩
      | 1 =>
        have hTorn := h.claimTorn hWaiting
        rw [hBatch] at hTorn
        exact ⟨_, _, hTorn⟩
      | 2 | 3 | count + 4 =>
        exact ⟨_, _, by simpa [Event.lost] using h.claim hWaiting hWords hCount⟩
  | hole hOpen hWaiting hBatch =>
      have hNone : (Event.diedClaiming (.nothing : Found β) count).lost = 0 := rfl
      have hListed := h.claim hWaiting hWords hCount
      rw [PersistentQueue.cut_claim_of_waiting hOpen hWaiting,
        PersistentQueue.run_claim_of_hole hOpen hWaiting hBatch, hBatch, hNone, zero_add]
      match count with
      | 0 => exact ⟨_, _, h⟩
      | 1 =>
        have hTorn := h.claimTorn hWaiting
        rw [hBatch, single, zero_add] at hTorn
        exact ⟨_, _, hTorn⟩
      | 2 | 3 => exact ⟨_, _, hListed⟩
      | count + 4 =>
        have hMem : q.readIndex ∈ q.advanced.dispatched :=
          List.mem_append_right _ (List.mem_singleton_self _)
        have hHole : batchAt codec (afterClaim s q.readIndex q.dispatched) q.readIndex = none :=
          (batchAt_congr (get?_afterClaim s q.readIndex q.dispatched _)).trans hBatch
        obtain ⟨ds, hCut⟩ := Books.cutRemove (q := q.advanced) hListed hMem (count + 1)
        rw [hHole, single, ite_self, zero_add] at hCut
        exact ⟨_, ds, hCut⟩

end Deaths

/-! ## Runs -/

theorem balanced_empty (codec : Codec β) (admits : β → Prop) :
    Balanced codec admits [] (World.idle []) where
  books := ⟨0, 0, [], Books.empty codec admits⟩
  served := fun _ hNone => absurd hNone.symm (Option.some_ne_none _)

/-- What steps come to in a world that is balanced. Where a process dies no more is said than that. -/
inductive Effect (codec : Codec β) (admits : β → Prop) (tears : Bool) (w : World β Space) :
    Event β → World β Space → Prop
  | start {q : PersistentQueue} {r wi wi' : UInt64} {ds : List UInt64} {t : Space}
      (hNew : q.Unstarted) (number : Nat) (hLayout : Layout w.storage r wi ds)
      (hRecovered : Recovered codec w.storage r wi ds t wi') :
      Effect codec admits tears w (.started (.ok ()))
        ⟨t, some (q.begun number r wi wi' (ds.filterMap (batchAt codec w.storage)).length), 0, 0, []⟩
  | put {q : PersistentQueue} {b : β} (hRunning : w.running = some q) (hAdmitted : admits b)
      (hRoom : q.refusal? = none) :
      Effect codec admits tears w (.accepted b)
        ⟨afterPut w.storage q.writeIndex (codec.marshal b), some (q.grown (q.writeIndex + 1) 1),
          w.owed + 1, w.called, w.carried⟩
  | refuse {q : PersistentQueue} {b : β} {e : QueueError} (hRunning : w.running = some q) :
      Effect codec admits tears w (.refused b e) w
  | wake {q : PersistentQueue} (hRunning : w.running = some q) (hOwed : 0 < w.owed) :
      Effect codec admits tears w .quiet { w with running := some q.addPermit, owed := w.owed - 1 }
  | call {q q' : PersistentQueue} (hRunning : w.running = some q) (hOpen : q.closed = false)
      (hPermit : q.takePermit = some q') :
      Effect codec admits tears w .quiet { w with running := some q', called := w.called + 1 }
  | claim {q : PersistentQueue} {b : β} (hRunning : w.running = some q) (hCalled : 0 < w.called)
      (hOpen : (q.stopped || q.client.isNone) = false) (hWaiting : q.readIndex ≠ q.writeIndex)
      (hBatch : batchAt codec w.storage q.readIndex = some b) :
      Effect codec admits tears w (.claimed q.readIndex b)
        ⟨afterClaim w.storage q.readIndex q.dispatched,
          some { q.advanced with references := q.references + 1 }, w.owed, w.called - 1,
          w.carried ++ [(q.readIndex, b)]⟩
  | pass {q : PersistentQueue} (hRunning : w.running = some q) (hCalled : 0 < w.called)
      (hWaiting : q.readIndex ≠ q.writeIndex) (hBatch : batchAt codec w.storage q.readIndex = none) :
      Effect codec admits tears w .quiet
        ⟨afterRemoval (afterClaim w.storage q.readIndex q.dispatched)
            (q.dispatched ++ [q.readIndex]) q.readIndex,
          some (q.advanced.struck q.readIndex), w.owed, w.called - 1, w.carried⟩
  | miss {q : PersistentQueue} (hRunning : w.running = some q) (hCalled : 0 < w.called)
      (hIdle : (q.stopped || q.client.isNone) = true ∨ q.readIndex = q.writeIndex) :
      Effect codec admits tears w .quiet { w with running := some q, called := w.called - 1 }
  | settle {q : PersistentQueue} {before after : List (UInt64 × β)} {i : UInt64} {b : β}
      {outcome : Outcome} (hRunning : w.running = some q)
      (hCarried : w.carried = before ++ (i, b) :: after) (hMem : (i, b) ∈ w.carried)
      (hOver : outcome.isShutdown = false) :
      Effect codec admits tears w (.ended i b outcome)
        ⟨afterRemoval w.storage q.dispatched i, some (q.struck i).released, w.owed, w.called,
          before ++ after⟩
  | keep {q : PersistentQueue} {before after : List (UInt64 × β)} {i : UInt64} {b : β}
      {outcome : Outcome} (hRunning : w.running = some q)
      (hCarried : w.carried = before ++ (i, b) :: after) (hKept : outcome.isShutdown = true) :
      Effect codec admits tears w (.ended i b outcome)
        ⟨w.storage, some q.released, w.owed, w.called, before ++ after⟩
  | retire {q : PersistentQueue} (hRunning : w.running = some q) :
      Effect codec admits tears w .quiet { w with running := some q.retire }
  | stop {q : PersistentQueue} (hRunning : w.running = some q) :
      Effect codec admits tears w .quiet { w with running := some q.stop }
  | dismiss {q : PersistentQueue} (hRunning : w.running = some q) (hStopped : q.stopped = true) :
      Effect codec admits tears w .quiet { w with running := some q.dismiss }
  | detach {q : PersistentQueue} (hRunning : w.running = some q) (hClosed : q.closed = true)
      (hCarried : w.carried = []) :
      Effect codec admits tears w .quiet
        { w with running := some { q.released with client := none } }
  | rest {q : PersistentQueue} (hRunning : w.running = some q) :
      Effect codec admits tears w .quiet { w with running := some q }
  | death {e : Event β} {w' : World β Space} (hDeath : e.isDeath = true)
      (hStep : Step (Setup.ofSpace codec admits tears) w e w') : Effect codec admits tears w e w'

theorem Balanced.effect (h : Balanced codec admits trace w)
    (hStep : Step (Setup.ofSpace codec admits tears) w e w') : Effect codec admits tears w e w' := by
  cases hStep with
  | start hNew hFree number hRun =>
      obtain ⟨r, wi, ds, hBooks⟩ := h.books
      have hBelow : ∀ i ∈ ds, i < wi := fun i hi =>
        UInt64.lt_of_lt_of_le (hBooks.below i hi) hBooks.ordered
      obtain ⟨wi', t, hStart, hRecovered⟩ := PersistentQueue.run_start codec number _
        hBooks.toRecords hBooks.ordered hBelow hBooks.words
      cases hStart.symm.trans hRun
      exact .start hNew number hBooks.toLayout hRecovered
  | @offer q _ _ b hRunning hAdmitted hRun =>
      cases hRoom : q.refusal? with
      | some e =>
          rw [PersistentQueue.offerLocked_of_refusal hRoom] at hRun
          cases hRun
      | none =>
          rw [PersistentQueue.run_offerLocked_of_room hRoom] at hRun
          cases hRun
          exact .put hRunning hAdmitted hRoom
  | @refuse q _ b e hRunning hRun =>
      cases hRoom : q.refusal? with
      | some e =>
          rw [PersistentQueue.offerLocked_of_refusal hRoom] at hRun
          cases hRun
          exact .refuse hRunning
      | none =>
          rw [PersistentQueue.run_offerLocked_of_room hRoom] at hRun
          cases hRun
  | turnAway hRunning hRetired => exact .refuse hRunning
  | wake hRunning hOwed => exact .wake hRunning hOwed
  | retire hRunning => exact .retire hRunning
  | stop hRunning hRetired => exact .stop hRunning
  | dismiss hRunning hStopped => exact .dismiss hRunning hStopped
  | call hRunning hOpen hPermit => exact .call hRunning hOpen hPermit
  | @claim q _ _ i b hRunning hCalled hRun =>
      cases PersistentQueue.claim_cases codec q w.storage with
      | idle found hNone hIdle hClaim =>
          rw [hClaim] at hRun
          cases hRun
          exact absurd rfl (hNone _ _)
      | item b hOpen hWaiting hBatch =>
          rw [PersistentQueue.run_claim_of_item hOpen hWaiting hBatch] at hRun
          cases hRun
          exact .claim hRunning hCalled hOpen hWaiting hBatch
      | hole hOpen hWaiting hBatch =>
          rw [PersistentQueue.run_claim_of_hole hOpen hWaiting hBatch] at hRun
          cases hRun
  | @miss q _ _ found hRunning hCalled hRun hNone =>
      cases PersistentQueue.claim_cases codec q w.storage with
      | idle found hFound hIdle hClaim =>
          rw [hClaim] at hRun
          cases hRun
          exact .miss hRunning hCalled hIdle
      | item b hOpen hWaiting hBatch =>
          rw [PersistentQueue.run_claim_of_item hOpen hWaiting hBatch] at hRun
          cases hRun
          exact absurd rfl (hNone _ _)
      | hole hOpen hWaiting hBatch =>
          rw [PersistentQueue.run_claim_of_hole hOpen hWaiting hBatch] at hRun
          cases hRun
          exact .pass hRunning hCalled hWaiting hBatch
  | @finish q _ _ before after i b hRunning hCarried outcome hRun =>
      have hServed := h.served q hRunning
      have hMem : (i, b) ∈ w.carried := by rw [hCarried]; simp
      -- The worker has a reference beside that of the queue, so the client is still there.
      have hClient := hServed.team.client_isSome (List.ne_nil_of_mem hMem)
      have hMore := hServed.team.references_ge (List.ne_nil_of_mem hMem)
      cases hKept : outcome.isShutdown with
      | true =>
          rw [PersistentQueue.run_acknowledge_of_kept hKept hMore] at hRun
          cases hRun
          exact .keep hRunning hCarried hKept
      | false =>
          rw [PersistentQueue.run_acknowledge_of_over hKept hClient hMore] at hRun
          cases hRun
          exact .settle hRunning hCarried hMem hKept
  | @detach q _ _ hRunning hClosed hCalled hCarried hRun =>
      have hServed := h.served q hRunning
      cases hClient : q.client.isSome with
      | true =>
          have hLast : q.references = 1 := by
            rw [hServed.team.references hClient, hCarried, List.length_nil]
          rw [PersistentQueue.run_detach hClient hLast] at hRun
          cases hRun
          exact .detach hRunning hClosed hCarried
      | false =>
          rw [PersistentQueue.detach_of_none hClient] at hRun
          cases hRun
          exact .rest hRunning
  | die => exact .death rfl .die
  | dieOffering hRunning hAdmitted hRoom hCut =>
      exact .death rfl (.dieOffering hRunning hAdmitted hRoom hCut)
  | dieClaiming hRunning hCut => exact .death rfl (.dieClaiming hRunning hCut)
  | dieEnding hRunning hMem outcome hCut => exact .death rfl (.dieEnding hRunning hMem outcome hCut)

/-- A process that dies leaves the balance as it is, whatever it was on its way through. -/
theorem Balanced.death (hCodec : ∀ b, admits b → codec.unmarshal? (codec.marshal b) = some b)
    (h : Balanced codec admits trace w) (hWords : w.FitsWords) (hDeath : e.isDeath = true)
    (hStep : Step (Setup.ofSpace codec admits tears) w e w') :
    Balanced codec admits (e :: trace) w' := by
  cases hStep with
  | die =>
      obtain ⟨r, wi, ds, hBooks⟩ := h.books
      exact (hBooks.silent ⟨rfl, rfl, rfl⟩).idle
  | @dieOffering q b hRunning hAdmitted hRoom count hCut =>
      obtain ⟨wi, hBooks⟩ := (h.served q hRunning).books.cutOffer hCodec hRoom hAdmitted
        (hWords q hRunning).1 count
      exact Books.idle (by simpa [Event.stored, Event.settled, Event.lost] using hBooks)
  | @dieClaiming q hRunning count hCut =>
      obtain ⟨r, ds, hBooks⟩ := (h.served q hRunning).books.cutClaim (hWords q hRunning).1
        (hWords q hRunning).2 count
      exact Books.idle (by simpa [Event.stored, Event.settled] using hBooks)
  | @dieEnding q i b hRunning hMem outcome count hCut =>
      have hServed := h.served q hRunning
      have hSome : w.carried ≠ [] := List.ne_nil_of_mem hMem
      have hIn := List.mem_append_left (interrupted trace) hMem
      have hClient := hServed.team.client_isSome hSome
      have hMore := hServed.team.references_ge hSome
      cases hKept : outcome.isShutdown with
      | true =>
          rw [PersistentQueue.cut_acknowledge_of_kept hKept hMore]
          exact Books.idle (by
            simpa [Event.stored, Event.settled, Event.lost, hKept] using hServed.books)
      | false =>
          rw [PersistentQueue.cut_acknowledge_of_over hKept hClient hMore]
          obtain ⟨ds, hBooks⟩ := hServed.books.cutRemove (hServed.team.mem_dispatched hIn) count
          rw [hServed.team.stored _ hIn, single] at hBooks
          exact Books.idle (by
            simpa [Event.stored, Event.settled, Event.lost, hKept] using hBooks)
  | _ => exact absurd hDeath Bool.noConfusion

theorem Balanced.step (hCodec : ∀ b, admits b → codec.unmarshal? (codec.marshal b) = some b)
    (h : Balanced codec admits trace w) (hWords : w.FitsWords)
    (hStep : Step (Setup.ofSpace codec admits tears) w e w') :
    Balanced codec admits (e :: trace) w' := by
  cases h.effect hStep with
  | start hNew number hLayout hRecovered =>
      obtain ⟨r, wi, ds, hBooks⟩ := h.books
      obtain ⟨rfl, rfl, rfl⟩ := hLayout.toRecords.unique hBooks.toRecords
      exact (hBooks.begin hCodec hNew hRecovered number _).balanced rfl
  | @put q b hRunning hAdmitted hRoom =>
      exact ((h.served q hRunning).offer hCodec hAdmitted (hWords q hRunning).1).balanced rfl
  | @refuse q b e hRunning =>
      exact h.adjust hRunning hRunning rfl rfl ⟨rfl, rfl, rfl, rfl, rfl⟩ ⟨rfl, rfl, rfl⟩ rfl
  | @wake q hRunning | @miss q hRunning | @retire q hRunning | @stop q hRunning
  | @dismiss q hRunning | @rest q hRunning =>
      exact h.adjust hRunning rfl rfl rfl ⟨rfl, rfl, rfl, rfl, rfl⟩ isSilent_quiet rfl
  | @call q q' hRunning hOpen hPermit =>
      exact h.adjust hRunning rfl rfl rfl (takePermit_agrees hPermit) isSilent_quiet rfl
  | @claim q b hRunning hCalled hOpen hWaiting hBatch =>
      exact ((h.served q hRunning).claim hOpen hWaiting (hWords q hRunning).1 (hWords q hRunning).2
        hBatch).balanced rfl
  | @pass q hRunning hCalled hWaiting hBatch =>
      exact ((h.served q hRunning).pass hWaiting (hWords q hRunning).1 (hWords q hRunning).2
        hBatch).balanced rfl
  | @settle q before after i b outcome hRunning hCarried hMem hOver =>
      exact ((h.served q hRunning).settle hCarried hOver).balanced rfl
  | @keep q before after i b outcome hRunning hCarried hKept =>
      exact ((h.served q hRunning).keep hCarried hKept).balanced rfl
  | @detach q hRunning hClosed hCarried =>
      exact ((h.served q hRunning).detach hCarried).balanced rfl
  | death hDeath hStep => exact h.death hCodec hWords hDeath hStep

theorem Balanced.run {origin : World β Space} {earlier : List (Event β)}
    (hCodec : ∀ b, admits b → codec.unmarshal? (codec.marshal b) = some b)
    (h : Balanced codec admits earlier origin)
    (hRuns : Runs (Setup.ofSpace codec admits tears) World.FitsWords origin trace w) :
    Balanced codec admits (trace ++ earlier) w := by
  induction hRuns with
  | refl => exact h
  | step prior hWords last ih => exact ih.step hCodec hWords last

theorem Runs.balanced (hCodec : ∀ b, admits b → codec.unmarshal? (codec.marshal b) = some b)
    (hRuns : Runs (Setup.ofSpace codec admits tears) World.FitsWords (.idle []) trace w) :
    Balanced codec admits trace w := by
  have hBalanced := (balanced_empty codec admits).run hCodec hRuns
  rwa [List.append_nil] at hBalanced

end Telemetry.Queue
