import Telemetry.Proofs.Queue.Starts

/-!
# What a queue does under its lock when batches are refused

Storage may refuse any batch of operations, and then nothing of it is carried out. What a removal, a
claim, an offer and a start come to depends on which of their batches are refused.
-/

namespace Telemetry.Storage

/-- The fate of a batch that is refused with an error, or carried out. -/
def Fate.ofRefusal : Option StorageError → Fate
  | none => .carried
  | some e => .refused e

namespace FatedSpace

/-- A namespace as a client that refuses some batches, by their numbers. -/
abbrev refusing (refusals : Nat → Option StorageError) : Client FatedSpace :=
  client fun k => .ofRefusal (refusals k)

variable {refusals : Nat → Option StorageError} {k : Nat} {α : Type}

theorem batch_of_none (h : refusals k = none) (ops : List Operation) (s : Space) :
    (refusing refusals).batch ops ⟨s, k, false⟩ =
      (⟨.ok (), (s.run ops).1⟩, ⟨(s.run ops).2, k + 1, false⟩) :=
  batch_carried (by rw [h]; rfl) ops s

theorem batch_of_some {e : StorageError} (h : refusals k = some e) (ops : List Operation) (s : Space) :
    (refusing refusals).batch ops ⟨s, k, false⟩ = (.failed e ops, ⟨s, k + 1, false⟩) :=
  batch_refused (by rw [h]; rfl) ops s

theorem run_delete_snd (key : String) (s : Space) (k : Nat) :
    ((Access.delete key).run (refusing refusals) ⟨s, k, false⟩).2 =
      ⟨if refusals k = none then s.erase key else s, k + 1, false⟩ := by
  rw [Access.delete, Access.run_batch]
  cases h : refusals k with
  | none =>
      rw [batch_of_none h, if_pos rfl]
      rfl
  | some e =>
      rw [batch_of_some h, if_neg (Option.some_ne_none e)]
      rfl

theorem run_set_snd (key : String) (value : Text.Bytes) (s : Space) (k : Nat) :
    ((Access.set key value).run (refusing refusals) ⟨s, k, false⟩).2 =
      ⟨if refusals k = none then s.insert key value else s, k + 1, false⟩ := by
  rw [Access.set, Access.run_batch]
  cases h : refusals k with
  | none =>
      rw [batch_of_none h, if_pos rfl]
      rfl
  | some e =>
      rw [batch_of_some h, if_neg (Option.some_ne_none e)]
      rfl

/-- Nobody dies of a refusal. -/
theorem run_alive (refusals : Nat → Option StorageError) (p : Access α) {s : FatedSpace}
    (hAlive : s.dead = false) : (p.run (refusing refusals) s).2.dead = false := by
  induction p generalizing s with
  | done a => exact hAlive
  | batch ops next ih =>
      obtain ⟨space, k, dead⟩ := s
      obtain rfl : dead = false := hAlive
      rw [Access.run_batch]
      cases hRefusal : refusals k with
      | none =>
          rw [batch_of_none hRefusal]
          exact ih _ rfl
      | some e =>
          rw [batch_of_some hRefusal]
          exact ih _ rfl
  | close next ih | check holds next ih => exact ih hAlive

end FatedSpace

end Telemetry.Storage

namespace Telemetry.Queue

open Storage (Access Fate FatedSpace Operation Space)
open Text (Bytes)

variable {β : Type} {codec : Codec β} {refusals : Nat → Option StorageError} {s t : Space}
  {q q' : PersistentQueue} {k : Nat} {r wi : UInt64} {ds : List UInt64}

/-- What a removal leaves that began with the batch of a number. The value is gone if that batch or the
one after it was carried out; the list is the new one, or stays as it was. -/
structure Removed (refusals : Nat → Option StorageError) (k : Nat) (ds : List UInt64) (i : UInt64)
    (s t : Space) : Prop where
  read : t.get? readKey = s.get? readKey
  write : t.get? writeKey = s.get? writeKey
  listed : t.get? dispatchedKey = s.get? dispatchedKey ∨
    t.get? dispatchedKey = some (encodeIndices ds)
  item : t.get? (itemKey i) =
    if refusals k = none ∨ refusals (k + 1) = none then none else s.get? (itemKey i)
  others : ∀ j, j ≠ i → t.get? (itemKey j) = s.get? (itemKey j)

/-- A removal that is carried out as one batch. -/
theorem removed_afterRemoval (h : refusals k = none) (s : Space) (ds : List UInt64) (i : UInt64) :
    Removed refusals k (ds.filter (· != i)) i s (afterRemoval s ds i) where
  read := by simp [afterRemoval, Space.get?_erase, Space.get?_insert]
  write := by simp [afterRemoval, Space.get?_erase, Space.get?_insert]
  listed := .inr (by simp [afterRemoval, Space.get?_erase])
  item := by rw [get?_afterRemoval, if_pos rfl, if_pos (.inl h)]
  others := fun j hNe => by rw [get?_afterRemoval, if_neg hNe]

/-- What the second attempt at a removal leaves, which removes the value and writes the list, each by a
batch of its own. -/
def afterFallback (refusals : Nat → Option StorageError) (k : Nat) (s : Space) (ds : List UInt64)
    (i : UInt64) : Space :=
  let freed : Space := if refusals (k + 1) = none then s.erase (itemKey i) else s
  if refusals (k + 2) = none then freed.insert dispatchedKey (encodeIndices ds) else freed

theorem get?_afterFallback (s : Space) {key : String} (hKey : key ≠ dispatchedKey) (ds : List UInt64)
    (i : UInt64) : (afterFallback refusals k s ds i).get? key =
      if key = itemKey i ∧ refusals (k + 1) = none then none else s.get? key := by
  rw [afterFallback]
  by_cases hFreed : refusals (k + 1) = none <;> by_cases hListed : refusals (k + 2) = none <;>
    simp [hFreed, hListed, hKey, Space.get?_insert, Space.get?_erase]

theorem removed_afterFallback {e : StorageError} (h : refusals k = some e) (s : Space)
    (ds : List UInt64) (i : UInt64) :
    Removed refusals k ds i s (afterFallback refusals k s ds i) where
  read := by
    rw [get?_afterFallback s readKey_ne_dispatchedKey, if_neg fun hEq => readKey_ne_itemKey i hEq.1]
  write := by
    rw [get?_afterFallback s writeKey_ne_dispatchedKey, if_neg fun hEq => writeKey_ne_itemKey i hEq.1]
  listed := by
    rw [afterFallback]
    by_cases hFreed : refusals (k + 1) = none <;> by_cases hListed : refusals (k + 2) = none <;>
      simp [hFreed, hListed, Space.get?_erase]
  item := by
    rw [get?_afterFallback s (itemKey_ne_dispatchedKey i)]
    simp [h]
  others := by
    intro j hNe
    rw [get?_afterFallback s (itemKey_ne_dispatchedKey j),
      if_neg fun hEq => hNe (itemKey_injective hEq.1)]

namespace PersistentQueue

theorem run_remove_refusing (refusals : Nat → Option StorageError) (q : PersistentQueue)
    (i : UInt64) (s : Space) (k : Nat) :
    ∃ t next, (q.remove i).run (FatedSpace.refusing refusals) ⟨s, k, false⟩ =
        (q.struck i, ⟨t, next, false⟩) ∧ k < next ∧
      Removed refusals k (q.struck i).dispatched i s t := by
  cases hFirst : refusals k with
  | none =>
      refine ⟨_, k + 1, ?_, Nat.lt_succ_self k, removed_afterRemoval hFirst s q.dispatched i⟩
      rw [remove, Access.run_bind, Access.run_perform, FatedSpace.batch_of_none hFirst]
      rfl
  | some e =>
      refine ⟨_, k + 3, ?_, by omega, removed_afterFallback hFirst s _ i⟩
      rw [remove, Access.run_bind, Access.run_perform, FatedSpace.batch_of_some hFirst]
      simp only [Storage.Reply.failed, Except.map, Access.run_bind, FatedSpace.run_delete_snd,
        FatedSpace.run_set_snd, Access.run_pure, afterFallback]
      rfl

/-! ## Claims -/

theorem run_claiming (s : Space) (i : UInt64) (ds : List UInt64) :
    s.run [.set readKey (encodeIndex (i + 1)), .set dispatchedKey (encodeIndices (ds ++ [i])),
      .get (itemKey i)] = ([s.get? (itemKey i)], afterClaim s i ds) := by
  rw [← get?_afterClaim s i ds i]
  rfl

/-- What a claim comes to that has an index to hand out, by the batch of a number. -/
inductive Tried (codec : Codec β) (refusals : Nat → Option StorageError) (q : PersistentQueue)
    (s : Space) (k : Nat) : Found β → PersistentQueue → Space → Nat → Prop
  | item (b : β) (hCarried : refusals k = none) (hBatch : batchAt codec s q.readIndex = some b) :
      Tried codec refusals q s k (.item (some q.readIndex) b)
        { q.advanced with references := q.references + 1 } (afterClaim s q.readIndex q.dispatched)
        (k + 1)
  | hole {t : Space} {next : Nat} (hCarried : refusals k = none)
      (hBatch : batchAt codec s q.readIndex = none) (hNext : k < next)
      (hRemoved : Removed refusals (k + 1) (q.advanced.struck q.readIndex).dispatched q.readIndex
        (afterClaim s q.readIndex q.dispatched) t) :
      Tried codec refusals q s k .nothing (q.advanced.struck q.readIndex) t next
  | refused {t : Space} {next : Nat} (hRefused : refusals k ≠ none) (hNext : k < next)
      (hRemoved : Removed refusals (k + 1) (q.advanced.struck q.readIndex).dispatched q.readIndex
        s t) :
      Tried codec refusals q s k .nothing (q.advanced.struck q.readIndex) t next

theorem run_claim_refusing (codec : Codec β) (refusals : Nat → Option StorageError)
    (hOpen : (q.stopped || q.client.isNone) = false)
    (hWaiting : q.readIndex ≠ q.writeIndex) (s : Space) (k : Nat) :
    ∃ found q' t next, (q.claim codec).run (FatedSpace.refusing refusals) ⟨s, k, false⟩ =
        ((found, q'), ⟨t, next, false⟩) ∧ Tried codec refusals q s k found q' t next := by
  rw [claim_of_waiting hOpen hWaiting, Access.run_check, Access.run_batch]
  cases hFate : refusals k with
  | some e =>
      have hHole : (none : Option Bytes).bind codec.unmarshal? = none := rfl
      obtain ⟨t, next, hRun, hNext, hRemoved⟩ :=
        q.advanced.run_remove_refusing refusals q.readIndex s (k + 1)
      refine ⟨_, _, t, next, ?_, .refused (by simp [hFate]) (by omega) hRemoved⟩
      rw [FatedSpace.batch_of_some hFate]
      change ((q.claimAnswer codec none).run _ _) = _
      rw [claimAnswer_of_hole hHole, Access.run_bind, hRun]
      rfl
  | none =>
      rw [FatedSpace.batch_of_none hFate, run_claiming]
      simp only [Except.map, Except.toOption, Option.bind_some, List.head?_cons, Option.join_some]
      cases hBatch : batchAt codec s q.readIndex with
      | some b =>
          refine ⟨_, _, _, _, ?_, .item b hFate hBatch⟩
          rw [claimAnswer_of_item hBatch, Access.run_done]
      | none =>
          obtain ⟨t, next, hRun, hNext, hRemoved⟩ :=
            q.advanced.run_remove_refusing refusals q.readIndex
              (afterClaim s q.readIndex q.dispatched) (k + 1)
          refine ⟨_, _, t, next, ?_, .hole hFate hBatch (by omega) hRemoved⟩
          rw [claimAnswer_of_hole hBatch, Access.run_bind, hRun]
          rfl

/-! ## Offers and ends of sendings -/

/-- An offer is stored exactly if its batch is carried out. -/
theorem run_offerLocked_refusing (hRoom : q.refusal? = none) (value : Bytes) (s : Space) (k : Nat) :
    (q.offerLocked value).run (FatedSpace.refusing refusals) ⟨s, k, false⟩ =
      match refusals k with
      | none => (.ok (q.grown (q.writeIndex + 1) 1), ⟨afterPut s q.writeIndex value, k + 1, false⟩)
      | some e => (.error (.storage e), ⟨s, k + 1, false⟩) := by
  rw [offerLocked_of_room hRoom, Access.run_check, Access.run_check, Access.run_batch]
  cases hFate : refusals k with
  | none =>
      rw [FatedSpace.batch_of_none hFate]
      rfl
  | some e =>
      rw [FatedSpace.batch_of_some hFate]
      rfl

/-- To give a reference up changes neither the indices nor what is stored. -/
theorem run_unref_refusing (q : PersistentQueue) (s : FatedSpace) :
    ∃ q', q.unref.run (FatedSpace.refusing refusals) s = (q', s) ∧ q'.readIndex = q.readIndex ∧
      q'.writeIndex = q.writeIndex ∧ q'.dispatched = q.dispatched := by
  rw [unref]
  dsimp only
  split
  · exact ⟨_, rfl, rfl, rfl, rfl⟩
  · exact ⟨_, rfl, rfl, rfl, rfl⟩

/-- Without a client nothing is removed. -/
theorem acknowledge_of_none (hClient : q.client.isSome = false) (i : UInt64) (outcome : Outcome) :
    q.acknowledge i outcome = q.unref := by
  have hNone : q.client.isNone = true := by rw [← Option.not_isSome, hClient]; rfl
  unfold acknowledge
  simp only [hNone, Bool.or_true, if_true]
  rfl

/-- The end of a sending leaves what is stored, or removes the item. -/
theorem run_acknowledge_refusing (refusals : Nat → Option StorageError) (q : PersistentQueue)
    (i : UInt64) (outcome : Outcome) (s : Space) (k : Nat) :
    ∃ q' t next, (q.acknowledge i outcome).run (FatedSpace.refusing refusals) ⟨s, k, false⟩ =
        (q', ⟨t, next, false⟩) ∧ k ≤ next ∧ q'.readIndex = q.readIndex ∧
      q'.writeIndex = q.writeIndex ∧
      ((t = s ∧ q'.dispatched = q.dispatched) ∨
        ∃ first, q'.dispatched = (q.struck i).dispatched ∧
          Removed refusals first (q.struck i).dispatched i s t) := by
  by_cases hLeft : outcome.isShutdown = true ∨ q.client.isSome = false
  · obtain ⟨q', hUnref, hRead, hWrite, hListed⟩ := q.run_unref_refusing ⟨s, k, false⟩
    have hAcknowledge : q.acknowledge i outcome = q.unref :=
      hLeft.elim (acknowledge_of_kept · i) (acknowledge_of_none · i outcome)
    rw [hAcknowledge]
    exact ⟨q', s, k, hUnref, Nat.le_refl k, hRead, hWrite, .inl ⟨rfl, hListed⟩⟩
  · obtain ⟨hOver, hClient⟩ := not_or.mp hLeft
    obtain ⟨t, next, hRemove, hNext, hRemoved⟩ := q.run_remove_refusing refusals i s k
    obtain ⟨q', hUnref, hRead, hWrite, hListed⟩ := (q.struck i).run_unref_refusing ⟨t, next, false⟩
    refine ⟨q', t, next, ?_, Nat.le_of_lt hNext, hRead, hWrite, .inr ⟨k, hListed, hRemoved⟩⟩
    rw [acknowledge_of_over (Bool.eq_false_iff.mpr hOver) (Bool.ne_false_iff.mp hClient),
      Access.run_bind, hRemove]
    exact hUnref

/-! ## Starts -/

theorem exists_of_takeOver {read write : Option Bytes}
    (h : q.takeOver read write = (.ok (), q')) :
    ∃ r wi, storedIndex read = .ok r ∧ storedIndex write = .ok wi ∧ r ≤ wi ∧ q' = q.loaded r wi := by
  rw [takeOver] at h
  cases hRead : storedIndex read with
  | error e =>
      rw [hRead] at h
      cases congrArg Prod.fst h
  | ok r =>
      rw [hRead] at h
      cases hWrite : storedIndex write with
      | error e =>
          rw [hWrite] at h
          cases congrArg Prod.fst h
      | ok wi =>
          rw [hWrite] at h
          dsimp only at h
          by_cases hPast : wi < r
          · rw [if_pos hPast] at h
            cases congrArg Prod.fst h
          · rw [if_neg hPast] at h
            exact ⟨r, wi, rfl, rfl, UInt64.not_lt.mp hPast, (congrArg Prod.snd h).symm⟩

theorem exists_of_load {t : FatedSpace}
    (hRun : q.load.run (FatedSpace.refusing refusals) ⟨s, k, false⟩ = ((.ok (), q'), t)) :
    ∃ r wi, storedIndex (s.get? readKey) = .ok r ∧ storedIndex (s.get? writeKey) = .ok wi ∧ r ≤ wi ∧
      q' = q.loaded r wi ∧ t = ⟨s, k + 1, false⟩ := by
  rw [load, Access.run_bind, Access.run_perform] at hRun
  cases hFate : refusals k with
  | some e =>
      rw [FatedSpace.batch_of_some hFate] at hRun
      cases congrArg (fun result => result.1.1) hRun
  | none =>
      rw [FatedSpace.batch_of_none hFate] at hRun
      obtain ⟨hTaken, hLeft⟩ := Prod.mk.inj hRun
      obtain ⟨r, wi, hRead, hWrite, hOrdered, hLoaded⟩ := exists_of_takeOver hTaken
      exact ⟨r, wi, hRead, hWrite, hOrdered, hLoaded, hLeft.symm⟩

/-- Where the list is emptied, whatever of it can be stored again waits. -/
theorem run_resend_refusing (codec : Codec β) (hFate : refusals k = none) (q : PersistentQueue)
    (h : Records s r q.writeIndex ds) (hRoom : q.writeIndex.toNat + ds.length < 2 ^ 64) :
    ∃ w' count t next, (q.resend codec ds).run (FatedSpace.refusing refusals) ⟨s, k, false⟩ =
        ((.ok (), q.grown w' count), ⟨t, next, false⟩) ∧ q.writeIndex ≤ w' ∧ Records t r w' [] := by
  have hFew : (ds.filterMap (batchAt codec s)).length ≤ ds.length := List.length_filterMap_le _ _
  obtain ⟨w', q', t, hRun, hAppended, hQueue⟩ :=
    putAll_run codec (fun k => Fate.ofRefusal (refusals k)) (ds.map fun i => s.get? (itemKey i)) q
      (afterClearing s) (k + 1) (by rw [found_values]; omega)
  have hAlive : t.dead = false := by
    have hSame := FatedSpace.run_alive refusals
      (putAll codec q (ds.map fun i => s.get? (itemKey i))) (s := ⟨afterClearing s, k + 1, false⟩) rfl
    rwa [hRun] at hSame
  obtain ⟨t, next, dead⟩ := t
  obtain rfl : dead = false := hAlive
  obtain rfl := hQueue rfl
  have hCleared : Records (afterClearing s) r q.writeIndex [] := h.insert_dispatchedKey (by decide)
  have hRecords : Records t r w' [] := hAppended.records hCleared
  rw [resend, Access.run_bind, Access.run_perform, FatedSpace.batch_of_none hFate, run_clearing]
  simp only [Except.map, Access.run_bind, hRun, Access.run_perform]
  cases hFreed : refusals next with
  | none =>
      rw [FatedSpace.batch_of_none hFreed]
      exact ⟨w', _, _, _, rfl, hAppended.le, hRecords.afterFreeing ds⟩
  | some e =>
      rw [FatedSpace.batch_of_some hFreed]
      exact ⟨w', _, _, _, rfl, hAppended.le, hRecords⟩

theorem run_recover_unreadable (hFate : refusals k = none) (q : PersistentQueue) {e : QueueError}
    (h : storedIndices (s.get? dispatchedKey) = .error e) :
    (q.recover codec).run (FatedSpace.refusing refusals) ⟨s, k, false⟩ =
      ((.error e, q), ⟨s, k + 1, false⟩) := by
  rw [recover, Access.run_bind, Access.get, Access.run_batch, FatedSpace.batch_of_none hFate]
  cases hValue : s.get? dispatchedKey with
  | none =>
      rw [hValue] at h
      cases h
  | some bytes =>
      rw [hValue] at h
      have hDecoded : decodeIndices bytes = .error e := h
      simp [hValue, Except.map, hDecoded]

theorem exists_of_recover {t : FatedSpace} (hRun : (q.recover codec).run
      (FatedSpace.refusing refusals) ⟨s, k, false⟩ = ((.ok (), q'), t)) :
    ∃ ds, storedIndices (s.get? dispatchedKey) = .ok ds ∧ ∀ r, Records s r q.writeIndex ds →
      q.writeIndex.toNat + ds.length < 2 ^ 64 →
      ∃ w' count, q' = q.grown w' count ∧ q.writeIndex ≤ w' ∧ Records t.space r w' [] ∧
        t.dead = false := by
  cases hFate : refusals k with
  | some e =>
      rw [recover, Access.run_bind, Access.get, Access.run_batch,
        FatedSpace.batch_of_some hFate] at hRun
      cases congrArg (fun result => result.1.1) hRun
  | none =>
      have hCarried : Fate.ofRefusal (refusals k) = .carried := by rw [hFate]; rfl
      cases hListed : storedIndices (s.get? dispatchedKey) with
      | error e =>
          rw [run_recover_unreadable hFate q hListed] at hRun
          cases congrArg (fun result => result.1.1) hRun
      | ok ds =>
          refine ⟨ds, rfl, fun r hRecords hRoom => ?_⟩
          by_cases hNone : ds = []
          · subst hNone
            rw [run_recover_nil hCarried q hRecords] at hRun
            cases hRun
            exact ⟨q.writeIndex, 0, rfl, UInt64.le_refl _, hRecords, rfl⟩
          · rw [run_recover_cons hCarried q hRecords hNone] at hRun
            cases hCleared : refusals (k + 1) with
            | some e =>
                have hRefused : Fate.ofRefusal (refusals (k + 1)) = .refused e := by rw [hCleared]; rfl
                rw [run_resend_refused hRefused] at hRun
                cases congrArg (fun result => result.1.1) hRun
            | none =>
                obtain ⟨w', count, t, next, hResent, hLe, hLeft⟩ :=
                  q.run_resend_refusing codec hCleared hRecords hRoom
                rw [hResent] at hRun
                cases hRun
                exact ⟨w', count, rfl, hLe, hLeft, rfl⟩

/-- A queue whose start was answered well has taken over what was stored, and lists nothing as being
sent. -/
theorem exists_of_start {number : Nat} {t : FatedSpace} (hRun : (q.start codec number).run
      (FatedSpace.refusing refusals) ⟨s, k, false⟩ = ((.ok (), q'), t)) :
    ∃ r wi ds, Records s r wi ds ∧ (wi.toNat + ds.length < 2 ^ 64 →
      q'.dispatched = q.dispatched ∧ q'.readIndex ≤ q'.writeIndex ∧
        Records t.space q'.readIndex q'.writeIndex [] ∧ t.dead = false) := by
  rw [start, Access.run_bind] at hRun
  obtain ⟨⟨answer, q₁⟩, left, hLoad⟩ : ∃ loaded left, (q.opened number).load.run
      (FatedSpace.refusing refusals) ⟨s, k, false⟩ = (loaded, left) := ⟨_, _, rfl⟩
  rw [opened] at hLoad
  rw [hLoad] at hRun
  cases answer with
  | error e => cases congrArg (fun result => result.1.1) hRun
  | ok u =>
    obtain ⟨r, wi, hRead, hWrite, hOrdered, rfl, rfl⟩ := exists_of_load hLoad
    obtain ⟨⟨answer, q₂⟩, left, hRecover⟩ : ∃ recovered left,
      (((q.opened number).loaded r wi).recover codec).run (FatedSpace.refusing refusals)
        ⟨s, k + 1, false⟩ = (recovered, left) := ⟨_, _, rfl⟩
    rw [opened] at hRecover
    dsimp only at hRun
    rw [Access.run_bind, hRecover] at hRun
    cases answer with
    | error e => cases congrArg (fun result => result.1.1) hRun
    | ok u =>
      obtain ⟨ds, hListed, hLeft⟩ := exists_of_recover hRecover
      have hRecords : Records s r wi ds := ⟨hRead, hWrite, hListed⟩
      refine ⟨r, wi, ds, hRecords, fun hRoom => ?_⟩
      obtain ⟨w', count, rfl, hLe, hRecords', hAlive⟩ := hLeft r hRecords hRoom
      cases hRun
      exact ⟨rfl, UInt64.le_trans hOrdered hLe, hRecords', hAlive⟩

end PersistentQueue

end Telemetry.Queue
