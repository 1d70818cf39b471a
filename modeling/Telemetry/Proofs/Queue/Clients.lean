import Telemetry.Proofs.Queue.Counters
import Telemetry.Proofs.Storage.Footprints

/-!
# The client of a persistent queue

What a persistent queue does under its lock is a program that is run against its storage client. Most of
these programs leave the client open, whatever storage answers; only the last one to hold the client
gives it up.
-/

namespace Telemetry.Storage.Access

variable {α β σ : Type} {client : Client σ}

/-- What a program does to the client that it is run against, in order. -/
def uses (client : Client σ) : Access α → σ → List Use
  | done _, _ => []
  | batch ops next, s =>
    let (reply, s) := client.batch ops s
    .batch ops :: (next (reply.outcome.map fun _ => reply.reads)).uses client s
  | close next, s => .close :: next.uses client (client.close s)
  | check _ next, s => next.uses client s

theorem uses_bind (p : Access α) (f : α → Access β) (s : σ) :
    (p >>= f).uses client s = p.uses client s ++ (f (p.run client s).1).uses client (p.run client s).2 := by
  change (p.bind f).uses client s = _
  induction p generalizing s with
  | done a => rfl
  | batch ops next ih => exact congrArg (Use.batch ops :: ·) (ih _ _)
  | close next ih => exact congrArg (Use.close :: ·) (ih _)
  | check holds next ih => exact ih s

/-- A program that does not give its client up, whatever it is answered. -/
inductive Keeps : Access α → Prop
  | done (a : α) : Keeps (done a)
  | batch {ops : List Operation} {next : Except StorageError Reads → Access α}
      (hNext : ∀ answer, Keeps (next answer)) : Keeps (batch ops next)
  | check {holds : Bool} {next : Access α} (hNext : Keeps next) : Keeps (check holds next)

namespace Keeps

theorem bind {p : Access α} {f : α → Access β} (h : p.Keeps) (hNext : ∀ a, (f a).Keeps) :
    (p >>= f).Keeps := by
  change (p.bind f).Keeps
  induction h with
  | done a => exact hNext a
  | batch _ ih => exact .batch ih
  | check _ ih => exact .check ih

theorem perform (ops : List Operation) : (Access.perform ops).Keeps := .batch fun r => .done r

theorem ne_close {p : Access α} (h : p.Keeps) (s : σ) : ∀ u ∈ p.uses client s, u ≠ .close := by
  induction h generalizing s with
  | done a => exact List.forall_mem_nil _
  | batch _ ih => exact List.forall_mem_cons.mpr ⟨Use.noConfusion, ih _ _⟩
  | check _ ih => exact ih s

end Keeps

end Telemetry.Storage.Access

namespace Telemetry.Queue

open Storage (Access Client Use)
open Text (Bytes)

namespace PersistentQueue

variable {β σ : Type} {codec : Codec β} {client : Client σ} {q q' : PersistentQueue}

/-! ## What a queue does without giving its client up -/

theorem keeps_put (q : PersistentQueue) (value : Bytes) : (q.put value).Keeps :=
  .check (.batch fun _ => .done _)

theorem keeps_offerLocked (q : PersistentQueue) (value : Bytes) : (q.offerLocked value).Keeps := by
  cases hRoom : q.refusal? with
  | some e =>
      rw [offerLocked_of_refusal hRoom]
      exact .check (.done _)
  | none =>
      rw [offerLocked_of_room hRoom]
      exact .check (.check (.batch fun _ => .done _))

theorem keeps_remove (q : PersistentQueue) (i : UInt64) : (q.remove i).Keeps := by
  refine (Access.Keeps.perform _).bind fun answer => ?_
  rcases answer with e | reads
  · exact .batch fun _ => .batch fun _ => .done _
  · exact .done _

theorem keeps_claim (q : PersistentQueue) : (q.claim codec).Keeps := by
  cases hOpen : q.stopped || q.client.isNone with
  | true =>
      rw [claim_of_shut hOpen]
      exact .done _
  | false =>
      by_cases hWaiting : q.readIndex = q.writeIndex
      · rw [claim_of_caught_up hOpen hWaiting]
        exact .done _
      · rw [claim_of_waiting hOpen hWaiting]
        refine .check (.batch fun answer => ?_)
        rw [claimAnswer]
        split
        · exact .done _
        · exact (q.advanced.keeps_remove _).bind fun _ => .done _

theorem keeps_putAll (q : PersistentQueue) (values : List (Option Bytes)) :
    (putAll codec q values).Keeps := by
  induction values generalizing q with
  | nil => exact .done _
  | cons v rest ih =>
      cases hv : v.bind codec.unmarshal? with
      | none =>
          rw [putAll_cons_none hv]
          exact ih q
      | some b =>
          rw [putAll_cons_some hv]
          exact (q.keeps_put _).bind fun _ => ih _

theorem keeps_load (q : PersistentQueue) : q.load.Keeps :=
  (Access.Keeps.perform _).bind fun answer => by
    rcases answer with e | reads
    · exact .done _
    · exact .done _

theorem keeps_recover (q : PersistentQueue) : (q.recover codec).Keeps := by
  refine Access.Keeps.bind (.batch fun _ => .done _) fun answer => ?_
  rcases answer with e | _ | bytes
  · exact .done _
  · exact .done _
  · cases hDecoded : decodeIndices bytes with
    | error e =>
        simp only [hDecoded]
        exact .done _
    | ok indices =>
        rcases indices with _ | ⟨i, rest⟩
        · simp only [hDecoded]
          exact .done _
        · simp only [hDecoded]
          refine (Access.Keeps.perform _).bind fun answer => ?_
          rcases answer with e | values
          · exact .done _
          · exact (keeps_putAll _ _).bind fun _ => (Access.Keeps.perform _).bind fun _ => .done _

theorem keeps_start (codec : Codec β) (q : PersistentQueue) (number : Nat) :
    (q.start codec number).Keeps := by
  refine (keeps_load _).bind fun answer => ?_
  obtain ⟨e | _, q⟩ := answer
  · exact .done _
  · refine (keeps_recover _).bind fun answer => ?_
    obtain ⟨e | _, q⟩ := answer
    · exact .done _
    · exact .check (.done _)

/-- What is not turned away finds a client. -/
theorem isSome_of_room (hRoom : q.refusal? = none) : q.client.isSome = true := by
  cases hClient : q.client with
  | some client => rfl
  | none => simp [refusal?, hClient] at hRoom

/-- Whoever is not the last to hold the client leaves it to the others. -/
theorem ne_close_of_mem_uses_acknowledge (hClient : q.client.isSome = true) (hMore : 2 ≤ q.references)
    (i : UInt64) (outcome : Outcome) (s : σ) :
    ∀ u ∈ (q.acknowledge i outcome).uses client s, u ≠ .close := by
  cases hKept : outcome.isShutdown with
  | true =>
      rw [acknowledge_of_kept hKept, unref_of_more hMore]
      exact List.forall_mem_nil _
  | false =>
      have hStruck : 2 ≤ (q.struck i).references := hMore
      rw [acknowledge_of_over hKept hClient, Access.uses_bind, run_remove_fst, unref_of_more hStruck]
      refine List.forall_mem_append.mpr ⟨(q.keeps_remove i).ne_close s, ?_⟩
      exact List.forall_mem_nil _

/-- The last one to hold the client gives it up. -/
theorem uses_detach (hLast : q.client.isSome = true → q.references = 1) (s : σ) :
    q.detach.uses client s = if q.client.isSome then [.close] else [] := by
  cases hClient : q.client.isSome with
  | true =>
      rw [detach, if_pos hClient, unref_of_last (hLast hClient) hClient]
      rfl
  | false =>
      rw [detach_of_none hClient]
      rfl

theorem client_of_detach {s t : σ} (hLast : q.client.isSome = true → q.references = 1)
    (hRun : q.detach.run client s = (q', t)) : q'.client = none := by
  cases hClient : q.client.isSome with
  | true =>
      rw [detach, if_pos hClient, unref_of_last (hLast hClient) hClient] at hRun
      cases hRun
      rfl
  | false =>
      rw [detach_of_none hClient] at hRun
      cases hRun
      exact Option.not_isSome_iff_eq_none.mp (by simp [hClient])

/-- Two states of a queue in which the client is held alike and a shutdown has come equally far. -/
structure HeldAlike (q q' : PersistentQueue) : Prop where
  client : q'.client = q.client
  references : q'.references = q.references
  stopped : q'.stopped = q.stopped
  closed : q'.closed = q.closed
  retired : q'.retired = q.retired

theorem HeldAlike.refl (q : PersistentQueue) : HeldAlike q q := ⟨rfl, rfl, rfl, rfl, rfl⟩

theorem HeldAlike.trans {q₁ q₂ q₃ : PersistentQueue} (h : HeldAlike q₁ q₂) (h' : HeldAlike q₂ q₃) :
    HeldAlike q₁ q₃ :=
  ⟨h'.client.trans h.client, h'.references.trans h.references, h'.stopped.trans h.stopped,
    h'.closed.trans h.closed, h'.retired.trans h.retired⟩

theorem heldAlike_takeOver (q : PersistentQueue) (read write : Option Bytes) :
    HeldAlike q (q.takeOver read write).2 := by
  rw [takeOver]
  rcases storedIndex read with e | r
  · exact .refl q
  · rcases storedIndex write with e | w
    · exact ⟨rfl, rfl, rfl, rfl, rfl⟩
    · simp only
      split
      · exact ⟨rfl, rfl, rfl, rfl, rfl⟩
      · exact ⟨rfl, rfl, rfl, rfl, rfl⟩

theorem heldAlike_load (client : Client σ) (q : PersistentQueue) (s : σ) :
    HeldAlike q (q.load.run client s).1.2 := by
  rw [load, Access.run_bind, Access.run_perform]
  rcases (client.batch [.get readKey, .get writeKey] s).1.outcome with e | _
  · exact .refl q
  · exact heldAlike_takeOver q _ _

theorem heldAlike_recover (client : Client σ) (codec : Codec β) (q : PersistentQueue) (s : σ) :
    HeldAlike q ((q.recover codec).run client s).1.2 := by
  obtain ⟨k, hGrown⟩ := recover_grown client codec q s
  rw [hGrown]
  exact ⟨rfl, rfl, rfl, rfl, rfl⟩

/-- A start that fails holds the client as one that succeeds does. -/
theorem heldAlike_of_start {number : Nat} {answer : Except QueueError Unit} {s t : σ}
    (hRun : (q.start codec number).run client s = ((answer, q'), t)) :
    HeldAlike (q.opened number) q' := by
  suffices hAlike : HeldAlike (q.opened number) ((q.start codec number).run client s).1.2 by
    rwa [hRun] at hAlike
  have hLoad := heldAlike_load client (q.opened number) s
  rw [opened] at hLoad ⊢
  rw [start, Access.run_bind]
  generalize (PersistentQueue.load _).run client s = loading at hLoad ⊢
  obtain ⟨⟨e | _, q₁⟩, s₁⟩ := loading
  · exact hLoad
  · refine hLoad.trans ?_
    have hRecover := heldAlike_recover client codec q₁ s₁
    simp only [Access.run_bind]
    generalize (q₁.recover codec).run client s₁ = recovering at hRecover ⊢
    obtain ⟨⟨e | _, q₂⟩, s₂⟩ := recovering
    · exact hRecover
    · exact hRecover.trans ⟨rfl, rfl, rfl, rfl, rfl⟩

end PersistentQueue

end Telemetry.Queue
