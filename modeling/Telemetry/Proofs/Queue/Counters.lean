import Telemetry.Proofs.Queue.Redelivery
import Telemetry.Proofs.Queue.Representation

/-!
# The counters of a persistent queue

A persistent queue counts what waits in it three times: by its two indices, by the size it reports, and
by the permits for its workers. Each is changed at a moment of its own. Here storage may answer
whatever it likes: it may refuse any batch, lose values or give back others. The counters agree all the
same, so no worker is called for nothing and no item waits without a worker, a permit or an offer that
is about to add one.
-/

namespace Telemetry.Queue

open Storage (Access Client FatedSpace)
open Text (Bytes)

variable {β σ : Type} {codec : Codec β} {client : Client σ}

theorem toNat_sub_succ {r w : UInt64} (h : r ≠ w) : (w - r).toNat = (w - (r + 1)).toNat + 1 := by
  have hNe : r.toNat ≠ w.toNat := fun hEq => h (UInt64.toNat_inj.mp hEq)
  have hLow := r.toNat_lt
  have hHigh := w.toNat_lt
  rw [UInt64.toNat_sub, UInt64.toNat_sub, UInt64.toNat_add, UInt64.toNat_one]
  omega

theorem toNat_add_ofNat_sub (r w : UInt64) (k : Nat) :
    (w + UInt64.ofNat k - r).toNat = ((w - r).toNat + k) % 2 ^ 64 := by
  have hLow := r.toNat_lt
  have hHigh := w.toNat_lt
  rw [UInt64.toNat_sub, UInt64.toNat_sub, UInt64.toNat_add, UInt64.toNat_ofNat']
  omega

namespace PersistentQueue

variable {q q' : PersistentQueue}

/-! ## What can come of what a queue does, whatever storage answers -/

theorem run_remove_fst (q : PersistentQueue) (i : UInt64) (s : σ) :
    ((q.remove i).run client s).1 = q.struck i := by
  rw [remove, Access.run_bind, Access.run_perform]
  cases (client.batch _ s).1.outcome with
  | ok u => rfl
  | error e => rfl

/-- What a claim finds, with the queue it leaves. -/
inductive Claimed (q : PersistentQueue) : Found β → PersistentQueue → Prop
  | shut (hShut : (q.stopped || q.client.isNone) = true) : Claimed q .over q
  | caughtUp (hOpen : (q.stopped || q.client.isNone) = false) (hSame : q.readIndex = q.writeIndex) :
      Claimed q .nothing q
  | item (hOpen : (q.stopped || q.client.isNone) = false) (hWaiting : q.readIndex ≠ q.writeIndex)
      (b : β) :
      Claimed q (.item (some q.readIndex) b) { q.advanced with references := q.references + 1 }
  | dropped (hWaiting : q.readIndex ≠ q.writeIndex) :
      Claimed q .nothing (q.advanced.struck q.readIndex)

theorem claimed_of_run {found : Found β} {s t : σ}
    (hRun : (q.claim codec).run client s = ((found, q'), t)) : Claimed q found q' := by
  cases hOpen : q.stopped || q.client.isNone with
  | true =>
      rw [claim_of_shut hOpen] at hRun
      cases hRun
      exact .shut hOpen
  | false =>
      by_cases hWaiting : q.readIndex = q.writeIndex
      · rw [claim_of_caught_up hOpen hWaiting] at hRun
        cases hRun
        exact .caughtUp hOpen hWaiting
      · rw [claim_of_waiting hOpen hWaiting, Access.run_check, Access.run_batch] at hRun
        generalize (client.batch _ s).2 = s' at hRun
        generalize ((client.batch _ s).1.outcome.map _).toOption.bind _ = value at hRun
        cases hBatch : value.bind codec.unmarshal? with
        | some b =>
            rw [claimAnswer_of_item hBatch] at hRun
            cases hRun
            exact .item hOpen hWaiting b
        | none =>
            rw [claimAnswer_of_hole hBatch, Access.run_bind, run_remove_fst] at hRun
            cases hRun
            exact .dropped hWaiting

theorem stored_of_run {value : Bytes} {s t : σ}
    (hRun : (q.offerLocked value).run client s = (.ok q', t)) :
    q.refusal? = none ∧ q' = q.grown (q.writeIndex + 1) 1 := by
  cases hRoom : q.refusal? with
  | some e =>
      rw [offerLocked_of_refusal hRoom] at hRun
      cases hRun
  | none =>
      refine ⟨rfl, ?_⟩
      rw [offerLocked_of_room hRoom, Access.run_check, Access.run_check, Access.run_batch] at hRun
      cases hReply : (client.batch _ s).1.outcome with
      | ok u =>
          rw [hReply] at hRun
          cases hRun
          rfl
      | error e =>
          rw [hReply] at hRun
          cases hRun

/-- Storing batches again makes a queue longer, by as many as were stored. -/
theorem putAll_grown (client : Client σ) (codec : Codec β) (values : List (Option Bytes))
    (q : PersistentQueue) (s : σ) :
    ∃ k, ((putAll codec q values).run client s).1 = q.grown (q.writeIndex + UInt64.ofNat k) k := by
  induction values generalizing q s with
  | nil => exact ⟨0, by simp [putAll, grown]⟩
  | cons v rest ih =>
      cases hv : v.bind codec.unmarshal? with
      | none =>
          rw [putAll_cons_none hv]
          exact ih q s
      | some b =>
          rw [putAll_cons_some hv, Access.run_bind, put_eq, Access.run_check, Access.run_batch]
          cases hReply : (client.batch _ s).1.outcome with
          | error e => exact ih q _
          | ok u =>
              obtain ⟨k, hk⟩ := ih (q.grown (q.writeIndex + 1) 1) (client.batch _ s).2
              refine ⟨k + 1, hk.trans ?_⟩
              simp only [grown]
              congr 1
              · rw [UInt64.ofNat_add, UInt64.add_assoc, UInt64.add_comm 1]
                rfl
              · omega

theorem recover_grown (client : Client σ) (codec : Codec β) (q : PersistentQueue) (s : σ) :
    ∃ k, ((q.recover codec).run client s).1.2 = q.grown (q.writeIndex + UInt64.ofNat k) k := by
  have hSame : ∃ k, q = q.grown (q.writeIndex + UInt64.ofNat k) k := ⟨0, by simp [grown]⟩
  rw [recover, Access.run_bind]
  generalize ((Access.get dispatchedKey).run client s) = listed
  obtain ⟨answer, t⟩ := listed
  cases answer with
  | error e => exact hSame
  | ok value =>
      cases value with
      | none => exact hSame
      | some bytes =>
          cases hDecoded : decodeIndices bytes with
          | error e =>
              simp only [hDecoded, Access.run_pure]
              exact hSame
          | ok indices =>
              cases indices with
              | nil =>
                  simp only [hDecoded, Access.run_pure]
                  exact hSame
              | cons i rest =>
                  simp only [hDecoded, Access.run_bind]
                  generalize ((Access.perform _).run client t) = reads
                  obtain ⟨answer, t⟩ := reads
                  cases answer with
                  | error e => exact hSame
                  | ok values =>
                      simp only [Access.run_bind, Access.run_pure]
                      exact putAll_grown client codec values q t

theorem loaded_of_takeOver {read write : Option Bytes} (h : q.takeOver read write = (.ok (), q')) :
    ∃ r w, q' = q.loaded r w := by
  rw [takeOver] at h
  cases hRead : storedIndex read with
  | error e => simp [hRead] at h
  | ok r =>
      cases hWrite : storedIndex write with
      | error e => simp [hRead, hWrite] at h
      | ok w =>
          simp only [hRead, hWrite] at h
          split at h
          · cases h
          · cases h
            exact ⟨r, w, rfl⟩

theorem loaded_of_run {s t : σ} (hRun : q.load.run client s = ((.ok (), q'), t)) :
    ∃ r w, q' = q.loaded r w := by
  rw [load, Access.run_bind, Access.run_perform] at hRun
  cases hReply : (client.batch [.get readKey, .get writeKey] s).1.outcome with
  | error e =>
      rw [hReply] at hRun
      cases hRun
  | ok u =>
      rw [hReply] at hRun
      exact loaded_of_takeOver (congrArg Prod.fst hRun)

/-- A queue whose start has succeeded has taken over two indices and has stored some batches again. -/
theorem begun_of_run {number : Nat} {s t : σ}
    (hRun : (q.start codec number).run client s = ((.ok (), q'), t)) :
    ∃ r w k, q' = q.begun number r w (w + UInt64.ofNat k) k := by
  rw [start, Access.run_bind] at hRun
  cases hLoad : (q.opened number).load.run client s with
  | mk loading t₁ =>
      obtain ⟨answer, q₁⟩ := loading
      rw [opened] at hLoad
      rw [hLoad] at hRun
      cases answer with
      | error e => cases hRun
      | ok u =>
          obtain ⟨r, w, rfl⟩ := loaded_of_run hLoad
          obtain ⟨k, hGrown⟩ := recover_grown client codec ((q.opened number).loaded r w) t₁
          simp only [Access.run_bind] at hRun
          cases hRecover : (((q.opened number).loaded r w).recover codec).run client t₁ with
          | mk recovering t₂ =>
              obtain ⟨answer, q₂⟩ := recovering
              rw [hRecover] at hGrown
              rw [opened] at hRecover
              rw [hRecover] at hRun
              cases answer with
              | error e => cases hRun
              | ok u =>
                  cases hRun
                  change q₂ = _ at hGrown
                  subst hGrown
                  exact ⟨r, w, k, rfl⟩

theorem ended_of_run {i : UInt64} {outcome : Outcome} {s t : σ} (hClient : q.client.isSome = true)
    (hMore : 2 ≤ q.references) (hRun : (q.acknowledge i outcome).run client s = (q', t)) :
    q' = q.released ∨ q' = (q.struck i).released := by
  cases hKept : outcome.isShutdown with
  | true =>
      rw [acknowledge_of_kept hKept, unref_of_more hMore, Access.run_done] at hRun
      cases hRun
      exact .inl rfl
  | false =>
      have hStruck : 2 ≤ (q.struck i).references := hMore
      rw [acknowledge_of_over hKept hClient, Access.run_bind, run_remove_fst, unref_of_more hStruck,
        Access.run_done] at hRun
      cases hRun
      exact .inr rfl

theorem detached_of_run {s t : σ} (hLast : q.client.isSome = true → q.references = 1)
    (hRun : q.detach.run client s = (q', t)) :
    q' = q ∨ q' = { q.released with client := none } := by
  cases hClient : q.client.isSome with
  | true =>
      rw [detach, if_pos hClient, unref_of_last (hLast hClient) hClient, Access.run_close,
        Access.run_done] at hRun
      cases hRun
      exact .inr rfl
  | false =>
      rw [detach_of_none hClient, Access.run_done] at hRun
      cases hRun
      exact .inl rfl

end PersistentQueue

/-! ## Steps -/

/-- The counters of the running queue fit together, and what waits keeps to a bound. The size is a word
of the machine. Every worker that holds a batch has a reference, so the client stays until the queue is
shut down. -/
structure Counted (bound : Nat) (w : World β σ) (q : PersistentQueue) : Prop where
  size : q.size % 2 ^ 64 = q.backlog
  within : q.backlog ≤ bound
  capacity : q.capacity ≤ bound
  words : q.capacity < 2 ^ 64
  shut : q.closed = true → q.stopped = true
  client : q.stopped = false → q.client.isSome = true
  references : q.client.isSome = true → q.references = w.carried.length + 1
  parted : q.client.isSome = false → w.carried = []
  matched : q.stopped = false → q.backlog = q.permits + w.called + w.owed

variable {setup : Setup β σ} {w w' : World β σ} {q q' : PersistentQueue} {e : Event β} {bound : Nat}
  {trace : List (Event β)}

namespace Counted

/-- A step after which the queue has the same items waiting, the same client and the same batches on
their way, and that keeps count of its workers if the queue is not stopped. -/
theorem adjust (h : Counted bound w q) (hSame : q'.backlog = q.backlog) (hSize : q'.size = q.size)
    (hCapacity : q'.capacity = q.capacity) (hShut : q'.closed = true → q'.stopped = true)
    (hStopped : q'.stopped = false → q.stopped = false) (hClient : q'.client = q.client)
    (hReferences : q'.references = q.references) (hCarried : w'.carried = w.carried)
    (hMatched : q.backlog = q.permits + w.called + w.owed → q'.stopped = false →
      q.backlog = q'.permits + w'.called + w'.owed) :
    Counted bound w' q' where
  size := by rw [hSize, hSame, h.size]
  within := hSame ▸ h.within
  capacity := hCapacity ▸ h.capacity
  words := hCapacity ▸ h.words
  shut := hShut
  client := fun hOpen => hClient ▸ h.client (hStopped hOpen)
  references := by rw [hClient, hReferences, hCarried]; exact h.references
  parted := by rw [hClient, hCarried]; exact h.parted
  matched := fun hOpen => hSame ▸ hMatched (h.matched (hStopped hOpen)) hOpen

theorem begun {r i : UInt64} {k number : Nat} {s : σ} (hNew : q.Unstarted)
    (hBound : (q.begun number r i (i + UInt64.ofNat k) k).backlog ≤ bound)
    (hCapacity : q.capacity ≤ bound) (hWords : q.capacity < 2 ^ 64) :
    Counted bound (⟨s, some (q.begun number r i (i + UInt64.ofNat k) k), 0, 0, []⟩ : World β σ)
      (q.begun number r i (i + UInt64.ofNat k) k) := by
  constructor
  case size => exact (toNat_add_ofNat_sub r i k).symm
  case within => exact hBound
  case capacity => exact hCapacity
  case words => exact hWords
  case shut => exact hNew.shut
  case client => exact fun _ => rfl
  case references => exact fun _ => rfl
  case parted => exact fun _ => rfl
  case matched =>
    intro _
    change (i + UInt64.ofNat k - r).toNat = q.permits + (i + UInt64.ofNat k - r).toNat + 0 + 0
    rw [hNew.permits]
    omega

/-- An offer is stored only where the capacity has room for it. -/
theorem offer {s : σ} (h : Counted bound w q) (hRoom : q.refusal? = none) :
    Counted bound ⟨s, some (q.grown (q.writeIndex + 1) 1), w.owed + 1, w.called, w.carried⟩
      (q.grown (q.writeIndex + 1) 1) := by
  have hFree : q.backlog < q.capacity := by
    simp only [PersistentQueue.refusal?] at hRoom
    split at hRoom
    · cases hRoom
    · split at hRoom
      · cases hRoom
      · next hNot => simpa using (by simpa using hNot : _ ∧ _).2
  have hCapacity := h.capacity
  have hBacklog : (q.grown (q.writeIndex + 1) 1).backlog = q.backlog + 1 := by
    have hWords := h.words
    refine (toNat_add_ofNat_sub q.readIndex q.writeIndex 1).trans (Nat.mod_eq_of_lt ?_)
    change q.backlog + 1 < _
    omega
  constructor
  case size =>
    have hSize := h.size
    rw [hBacklog, ← hSize]
    change (q.size + 1) % 2 ^ 64 = _
    have hWords := h.words
    omega
  case within => omega
  case capacity => exact hCapacity
  case words => exact h.words
  case shut => exact h.shut
  case client => exact h.client
  case references => exact h.references
  case parted => exact h.parted
  case matched =>
    intro hOpen
    have hMatched := h.matched hOpen
    change _ = q.permits + w.called + (w.owed + 1)
    omega

/-- A claim takes an index out, whether or not there is a batch under it. -/
theorem advance {carried : List (UInt64 × β)} {s : σ} {ds : List UInt64} {references : Nat}
    (h : Counted bound w q) (hWaiting : q.readIndex ≠ q.writeIndex) (hCalled : 0 < w.called)
    (hReferences : q.client.isSome = true → references = carried.length + 1)
    (hParted : q.client.isSome = false → carried = []) :
    Counted bound
      ⟨s, some { q.advanced with dispatched := ds, references := references }, w.owed, w.called - 1,
        carried⟩
      { q.advanced with dispatched := ds, references := references } := by
  have hBacklog : q.backlog = q.advanced.backlog + 1 := toNat_sub_succ hWaiting
  have hWithin := h.within
  constructor
  case size =>
    have hSize := h.size
    change (q.size - 1) % 2 ^ 64 = q.advanced.backlog
    omega
  case within =>
    change q.advanced.backlog ≤ bound
    omega
  case capacity => exact h.capacity
  case words => exact h.words
  case shut => exact h.shut
  case client => exact h.client
  case references => exact hReferences
  case parted => exact hParted
  case matched =>
    intro hOpen
    have hMatched := h.matched hOpen
    change q.advanced.backlog = q.permits + (w.called - 1) + w.owed
    omega

/-- The end of a sending gives up the reference of its worker. -/
theorem finish {before after : List (UInt64 × β)} {i : UInt64} {b : β} {s : σ} {ds : List UInt64}
    (h : Counted bound w q) (hCarried : w.carried = before ++ (i, b) :: after)
    (hClient : q.client.isSome = true) :
    Counted bound
      ⟨s, some { q with dispatched := ds, references := q.references - 1 }, w.owed, w.called,
        before ++ after⟩
      { q with dispatched := ds, references := q.references - 1 } where
  size := h.size
  within := h.within
  capacity := h.capacity
  words := h.words
  shut := h.shut
  client := h.client
  references := by
    intro _
    have hCount := h.references hClient
    rw [hCarried, List.length_append, List.length_cons] at hCount
    change q.references - 1 = _
    rw [List.length_append]
    omega
  parted := fun hNone => absurd (hClient.symm.trans hNone) Bool.noConfusion
  matched := h.matched

end Counted

theorem Step.counted (hStep : Step setup w e w') (hLocal : e.isLocal = true)
    (hPast : ∀ q, w.running = some q → Counted bound w q) :
    ∀ q, w'.running = some q → Counted bound w' q := by
  cases hStep with
  | start | die | dieOffering | dieClaiming | dieEnding => exact absurd hLocal Bool.noConfusion
  | @offer q q' s b hRunning hAdmitted hRun =>
      rintro _ ⟨⟩
      obtain ⟨hRoom, rfl⟩ := PersistentQueue.stored_of_run hRun
      exact (hPast q hRunning).offer hRoom
  | refuse hRunning hRun =>
      intro q hSame
      have h := hPast q hSame
      exact ⟨h.size, h.within, h.capacity, h.words, h.shut, h.client, h.references, h.parted, h.matched⟩
  | turnAway hRunning hRetired => exact hPast
  | @wake q hRunning hOwed =>
      rintro _ ⟨⟩
      have h := hPast q hRunning
      refine h.adjust rfl rfl rfl h.shut id rfl rfl rfl fun hMatched _ => ?_
      change _ = q.permits + 1 + w.called + (w.owed - 1)
      omega
  | @call q q' hRunning hOpen hPermit =>
      rintro _ ⟨⟩
      rw [PersistentQueue.takePermit] at hPermit
      split at hPermit
      · next hSome =>
        cases hPermit
        have h := hPast q hRunning
        refine h.adjust rfl rfl rfl h.shut id rfl rfl rfl fun hMatched _ => ?_
        change _ = q.permits - 1 + (w.called + 1) + w.owed
        omega
      · cases hPermit
  | @claim q q' s i b hRunning hCalled hRun =>
      rintro _ ⟨⟩
      have h := hPast q hRunning
      cases PersistentQueue.claimed_of_run hRun with
      | item hOpen hWaiting =>
          have hClient : q.client.isSome = true := by
            rw [Bool.or_eq_false_iff] at hOpen
            rw [← Option.not_isNone, hOpen.2]
            rfl
          refine h.advance hWaiting hCalled (fun _ => ?_) fun hNone =>
            absurd (hClient.symm.trans hNone) Bool.noConfusion
          rw [h.references hClient, List.length_append, List.length_singleton]
  | @miss q q' s found hRunning hCalled hRun hNone =>
      rintro _ ⟨⟩
      have h := hPast q hRunning
      cases PersistentQueue.claimed_of_run hRun with
      | item hOpen hWaiting b => exact absurd rfl (hNone _ _)
      | dropped hWaiting => exact h.advance hWaiting hCalled h.references h.parted
      | shut hShut =>
          refine h.adjust rfl rfl rfl h.shut id rfl rfl rfl fun hMatched hOpen => ?_
          rw [hOpen, ← Option.not_isSome, h.client hOpen] at hShut
          exact absurd hShut Bool.false_ne_true
      | caughtUp hOpen hSame =>
          -- A worker was called, so something waits.
          refine h.adjust rfl rfl rfl h.shut id rfl rfl rfl fun hMatched _ => ?_
          rw [PersistentQueue.backlog, hSame, UInt64.sub_self, UInt64.toNat_zero] at hMatched
          omega
  | @finish q q' s before after i b hRunning hCarried outcome hRun =>
      rintro _ ⟨⟩
      have h := hPast q hRunning
      have hClient : q.client.isSome = true := by
        cases hNone : q.client.isSome with
        | true => rfl
        | false => exact absurd ((h.parted hNone).symm.trans hCarried) (by simp)
      have hMore : 2 ≤ q.references := by
        rw [h.references hClient, hCarried, List.length_append, List.length_cons]
        omega
      rcases PersistentQueue.ended_of_run hClient hMore hRun with rfl | rfl
      · exact h.finish hCarried hClient
      · exact h.finish hCarried hClient
  | @retire q hRunning =>
      rintro _ ⟨⟩
      have h := hPast q hRunning
      exact h.adjust rfl rfl rfl h.shut id rfl rfl rfl fun hMatched _ => hMatched
  | @stop q hRunning hRetired =>
      rintro _ ⟨⟩
      have h := hPast q hRunning
      exact h.adjust rfl rfl rfl (fun _ => rfl) (fun hOpen => absurd hOpen.symm Bool.noConfusion) rfl
        rfl rfl fun _ hOpen => absurd hOpen.symm Bool.noConfusion
  | @dismiss q hRunning hStopped =>
      rintro _ ⟨⟩
      have h := hPast q hRunning
      exact h.adjust rfl rfl rfl (fun _ => hStopped) id rfl rfl rfl fun hMatched _ => hMatched
  | @detach q q' s hRunning hClosed hCalled hCarried hRun =>
      rintro _ ⟨⟩
      have h := hPast q hRunning
      have hLast : q.client.isSome = true → q.references = 1 := fun hClient => by
        rw [h.references hClient, hCarried, List.length_nil]
      have hOpen : ∀ {P : Prop}, q.stopped = false → P := fun hOpen =>
        absurd ((h.shut hClosed).symm.trans hOpen) Bool.noConfusion
      rcases PersistentQueue.detached_of_run hLast hRun with rfl | rfl
      · exact ⟨h.size, h.within, h.capacity, h.words, h.shut, h.client, h.references, h.parted, h.matched⟩
      · exact ⟨h.size, h.within, h.capacity, h.words, h.shut, hOpen,
          fun hNone => absurd hNone Bool.false_ne_true, fun _ => hCarried, hOpen⟩

theorem Runs.counted {within : World β σ → Prop} {origin : World β σ}
    (hRuns : Runs setup within origin trace w) (hLocal : ∀ e ∈ trace, e.isLocal = true)
    (hPast : ∀ q, origin.running = some q → Counted bound origin q) :
    ∀ q, w.running = some q → Counted bound w q := by
  induction hRuns with
  | refl => exact hPast
  | @step trace w w' e prior hWithin last ih =>
      have hEarlier := ih fun e hMem => hLocal e (List.mem_cons_of_mem _ hMem)
      exact last.counted (hLocal e List.mem_cons_self) hEarlier

/-- Once a start has succeeded, the counters of the queue agree in every run of it, whatever storage
answers to any batch: the size it reports is the number of indices between the two, which exceeds the
capacity only if it did when the queue had started. Until a shutdown has stopped the queue, each of
these indices is matched by a permit, by a worker that was called, or by an offer that has yet to add
its permit; so no worker that looks for a batch finds that all were handed out. The capacity is a word
of the machine. -/
theorem counters_agree_under_faults {within : World β σ → Prop} {s : σ} {w₀ : World β σ}
    {q₀ : PersistentQueue} (hStart : Step setup (.idle s) (.started (.ok ())) w₀)
    (hFirst : w₀.running = some q₀) (hWords : q₀.capacity < 2 ^ 64)
    (hRuns : Runs setup within w₀ trace w) (hLocal : ∀ e ∈ trace, e.isLocal = true)
    (hRunning : w.running = some q) :
    UInt64.ofNat q.size = q.writeIndex - q.readIndex ∧
      q.backlog ≤ max q₀.capacity q₀.backlog ∧
      (q.stopped = false → q.backlog = q.permits + w.called + w.owed) ∧
      (0 < w.called → (q.stopped || q.client.isNone) = false → q.readIndex ≠ q.writeIndex) := by
  have hBegun : Counted (max q₀.capacity q₀.backlog) w₀ q₀ := by
    cases hStart with
    | start hNew hFree number hRun =>
        obtain ⟨r, i, k, rfl⟩ := PersistentQueue.begun_of_run hRun
        cases hFirst
        exact .begun hNew (Nat.le_max_right _ _) (Nat.le_max_left _ _) hWords
  have hCounted := hRuns.counted hLocal (fun q hSame => by
    cases hFirst.symm.trans hSame
    exact hBegun) q hRunning
  refine ⟨?_, hCounted.within, hCounted.matched, fun hCalled hOpen hSame => ?_⟩
  · rw [← UInt64.toNat_inj, UInt64.toNat_ofNat']
    exact hCounted.size
  · rw [Bool.or_eq_false_iff] at hOpen
    have hMatched := hCounted.matched hOpen.1
    rw [PersistentQueue.backlog, hSame, UInt64.sub_self, UInt64.toNat_zero] at hMatched
    omega

/-! ## A claim that storage refuses -/

/-- The fifth batch of operations and the sixth are refused. -/
def Setup.unsteady : Setup Bytes FatedSpace :=
  ⟨FatedSpace.client fun k => if k = 4 ∨ k = 5 then .refused .closed else .carried, Codec.plain,
    fun _ => True, false⟩

/-- A queue that started on nothing, of whose two batches the first was given up by its claim. -/
def bereftQueue : PersistentQueue :=
  { firstQueue with
    readIndex := 1
    writeIndex := 2
    size := 1 }

/-- A worker was called for the second batch. -/
def oneGivenUp : World Bytes FatedSpace :=
  ⟨⟨[("1", [8]), (dispatchedKey, encodeIndices []), (writeKey, encodeIndex 2)], 8, false⟩,
    some bereftQueue, 0, 1, []⟩

theorem runs_oneGivenUp : Runs Setup.unsteady (fun _ => True)
    ⟨⟨[], 2, false⟩, some firstQueue, 0, 0, []⟩
    [.quiet, .quiet, .quiet, .quiet, .quiet, .accepted [8], .accepted [7]] oneGivenUp := by
  have hStored : Runs Setup.unsteady (fun _ => True) ⟨⟨[], 2, false⟩, some firstQueue, 0, 0, []⟩
      [.accepted [8], .accepted [7]]
      ⟨⟨afterPut (afterPut [] 0 [7]) 1 [8], 4, false⟩, some (firstQueue.grown 2 2), 2, 0, []⟩ :=
    .step (.step .refl trivial (.offer rfl trivial rfl)) trivial (.offer rfl trivial rfl)
  have hCalled : Runs Setup.unsteady (fun _ => True) ⟨⟨[], 2, false⟩, some firstQueue, 0, 0, []⟩
      [.quiet, .quiet, .quiet, .accepted [8], .accepted [7]]
      ⟨⟨afterPut (afterPut [] 0 [7]) 1 [8], 4, false⟩,
        some { firstQueue.grown 2 2 with permits := 1 }, 0, 1, []⟩ :=
    .step (.step (.step hStored trivial (.wake rfl (by decide))) trivial (.wake rfl (by decide)))
      trivial (.call rfl rfl rfl)
  exact .step (.step hCalled trivial (.miss rfl (by decide) rfl fun _ _ hEq => nomatch hEq)) trivial
    (.call rfl rfl rfl)

/-- The claim was refused, and so was the removal that followed it, yet the counters agree, and what the
worker that was called last looks for is there. -/
theorem counters_agree_after_refusal :
    Step Setup.unsteady (.idle ⟨[], 0, false⟩) (.started (.ok ()))
      ⟨⟨[], 2, false⟩, some firstQueue, 0, 0, []⟩ ∧
    oneGivenUp.called = 1 ∧
    UInt64.ofNat bereftQueue.size = bereftQueue.writeIndex - bereftQueue.readIndex ∧
    bereftQueue.backlog ≤ 5 ∧ bereftQueue.readIndex ≠ bereftQueue.writeIndex := by
  have hStart : Step Setup.unsteady (.idle ⟨[], 0, false⟩) (.started (.ok ()))
      ⟨⟨[], 2, false⟩, some firstQueue, 0, 0, []⟩ :=
    .start (PersistentQueue.unstarted_empty 5) (by rintro q ⟨⟩) 0 rfl
  obtain ⟨hSize, hBound, -, hFound⟩ := counters_agree_under_faults hStart rfl (by decide)
    runs_oneGivenUp (by decide) rfl
  exact ⟨hStart, rfl, hSize, hBound, hFound (by decide) rfl⟩

end Telemetry.Queue
