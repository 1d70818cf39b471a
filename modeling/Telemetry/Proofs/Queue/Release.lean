import Telemetry.Proofs.Queue.Tenure

/-!
# How a storage client is given up

What shows of the steps of those who share a queue says when its client is opened, used and given up.
However the steps interleave, the client is there for as long as anybody may need it, and then it is given
up once.
-/

namespace Telemetry.Queue

open Storage (Access Client Use)
open Text (Bytes)

namespace Tenure

variable {β σ : Type} {d : Depot σ} {codec : Codec β} {storage : ComponentId} {w w' : Tenure β σ}
  {events : List Event} {q : PersistentQueue} {s : σ} {before after : List (Post β)} {x y : Post β}

/-! ## What shows of a step -/

/-- Whether an event may come before another one: a shutdown that has returned is the end, nobody uses a
client that was given up, and nothing is handed out once the queue is stopped. -/
structure Event.Precedes (e e' : Event) : Prop where
  close : e.closes ≠ [] → e' = .returned
  halt : e = .halted → e'.claims = []
  last : e ≠ .returned

/-- Batches of operations, as they show. -/
def batches (client : Nat) (ops : List (List Storage.Operation)) : List Event :=
  ops.map fun op => .used (some client) (.batch op)

/-- What shows of a worker that has used the client. -/
inductive Marks (w w' : Tenure β σ) : List Event → Prop
  | none (hSending : w'.sending = w.sending) : Marks w w' []
  | claimed {i : UInt64} (hOpen : w.queue.stopped = false) (hSending : w'.sending.Perm (i :: w.sending)) :
      Marks w w' [.claimed i]
  | acknowledged {i : UInt64} (hSending : w.sending.Perm (i :: w'.sending)) :
      Marks w w' [.acknowledged i]

/-- What comes of a step for the client, and what shows of it. -/
inductive Effect (w w' : Tenure β σ) : List Event → Prop
  | quiet (hClient : w'.launch.client? = w.launch.client?) (hSending : w'.sending = w.sending)
      (hReturned : w.closing = .returned → w'.launch = w.launch)
      (hClosing : w'.closing = .returned ↔ w.closing = .returned)
      (hStopped : w.queue.stopped = true → w'.queue.stopped = true) : Effect w w' []
  | opens {client : Nat} (hNone : w.launch.client? = none) (hOpened : w'.launch.client? = some client)
      (hSending : w'.sending = w.sending) (hRunning : w.closing = .none) (hClosing : w'.closing = .none)
      (hOpen : w.queue.stopped = false) : Effect w w' [.opened client]
  | works {client : Nat} {marks : List Event} (ops : List (List Storage.Operation))
      (hClient : w.launch.client? = some client) (hSame : w'.launch.client? = w.launch.client?)
      (hRunning : w.closing ≠ .returned) (hClosing : w'.closing = w.closing)
      (hStopped : w'.queue.stopped = w.queue.stopped) (hMarks : Marks w w' marks) :
      Effect w w' (batches client ops ++ marks)
  | halts (hLaunch : w'.launch = w.launch) (hSending : w'.sending = w.sending)
      (hRunning : w.closing = .retired) (hClosing : w'.closing = .stopped)
      (hStopped : w'.queue.stopped = true) : Effect w w' [.halted]
  | ends (hLaunch : w'.launch = w.launch) (hSending : w.sending = []) (hSame : w'.sending = [])
      (hRunning : w.closing = .dismissed) (hClosing : w'.closing = .returned)
      (hStopped : w'.queue.stopped = true)
      (hClient : w.launch.client? = w.launch.attached?) :
      Effect w w'
        ((w.launch.attached?.toList.map fun client => .used (some client) .close) ++ [.returned])

theorem exists_batches {α : Type} {client : Nat} {p : Access α}
    (hKeeps : ∀ u ∈ p.uses (d.client client) s, u ≠ .close) :
    ∃ ops, shown d (some client) p s = batches client ops := by
  have hAll : ∀ uses : List Use, (∀ u ∈ uses, u ≠ .close) →
      ∃ ops, uses.map (Event.used (some client)) = batches client ops := by
    intro uses
    induction uses with
    | nil => exact fun _ => ⟨[], rfl⟩
    | cons u rest ih =>
        intro hOnly
        obtain ⟨hFirst, hRest⟩ := List.forall_mem_cons.mp hOnly
        obtain ⟨ops, hOps⟩ := ih hRest
        cases u with
        | batch op => exact ⟨op :: ops, by rw [List.map_cons, hOps]; rfl⟩
        | close => exact absurd rfl hFirst
  exact hAll _ hKeeps

namespace Sound

theorem client?_of_some {client : Nat} (h : Sound w) (hClient : w.queue.client = some client) :
    w.closing ≠ .returned ∧ w.launch.client? = some client := by
  have hSame := h.client
  rw [hClient] at hSame
  split at hSame
  · cases hSame
  · next hRunning =>
    refine ⟨hRunning, ?_⟩
    cases hLaunch : w.launch <;> rw [hLaunch] at hSame <;> first | cases hSame; rfl | cases hSame

theorem effect_load {client : Nat} {launch : Launch} (h : Sound w) (hOpened : w.launch = .opened client)
    (hLaunch : launch.client? = some client) (hStopped : q.stopped = w.queue.stopped) :
    Effect w { w with store := s, queue := q, launch := launch }
      (shown d (some client) (w.queue.start codec client) w.store) := by
  have hRunning := h.running_of_launch (by simp [hOpened]) (by simp [hOpened])
  have hClient : w.launch.client? = some client := by rw [hOpened]; rfl
  obtain ⟨ops, hOps⟩ := exists_batches ((w.queue.keeps_start codec client).ne_close w.store)
  rw [hOps, ← List.append_nil (batches client ops)]
  exact .works ops hClient (hLaunch.trans hClient.symm) (by simp [hRunning]) rfl hStopped (.none rfl)

/-- Whoever uses the client does so while it is open. -/
theorem works {α : Type} {p : Access α} {marks : List Event} (h : Sound w)
    (hSome : w.queue.client.isSome = true)
    (hKeeps : ∀ client, ∀ u ∈ p.uses (d.client client) w.store, u ≠ .close)
    (hLaunch : w'.launch = w.launch) (hClosing : w'.closing = w.closing)
    (hStopped : w'.queue.stopped = w.queue.stopped) (hMarks : Marks w w' marks) :
    Effect w w' (shown d w.queue.client p w.store ++ marks) := by
  obtain ⟨client, hClient⟩ := Option.isSome_iff_exists.mp hSome
  obtain ⟨hRunning, hSame⟩ := h.client?_of_some hClient
  obtain ⟨ops, hOps⟩ := exists_batches (hKeeps client)
  rw [hClient, hOps]
  exact .works ops hSame (by rw [hLaunch]) hRunning hClosing hStopped hMarks

end Sound

theorem sending_of_index?_eq (hWorkers : w.workers = before ++ x :: after) (hIndex : y.index? = x.index?) :
    (before ++ y :: after).filterMap Post.index? = w.sending := by
  rw [sending, hWorkers, filterMap_index?_middle, filterMap_index?_middle, hIndex]

theorem perm_sending {i : UInt64} {b : β} (hNone : y.index? = none) :
    ((before ++ .sending i b :: after).filterMap Post.index?).Perm
      (i :: (before ++ y :: after).filterMap Post.index?) := by
  rw [filterMap_index?_middle, filterMap_index?_middle, hNone]
  exact List.perm_middle

/-- A claim that hands out nothing. -/
theorem Sound.effect_claim {found : Found β} (h : Sound w) (hWorkers : w.workers = before ++ .called :: after)
    (hIndex : y.index? = none) (hNone : ∀ i b, found ≠ .item i b)
    (hClaimed : PersistentQueue.Claimed w.queue found q) :
    Effect w { w with store := s, queue := q, workers := before ++ y :: after }
      (shown d w.queue.client (w.queue.claim codec) w.store) := by
  have hSome := h.isSome_of_mem (x := .called) (by simp [hWorkers]) (by simp)
  have hStopped : q.stopped = w.queue.stopped := by
    cases hClaimed with
    | item hOpen hWaiting b => exact absurd rfl (hNone _ _)
    | _ => rfl
  rw [← List.append_nil (shown _ _ _ _)]
  exact h.works hSome (fun _ => w.queue.keeps_claim.ne_close _) rfl rfl hStopped
    (.none (sending_of_index?_eq hWorkers hIndex))

theorem Step.effect (hStep : Step d codec storage w events w') (h : Sound w) : Effect w w' events := by
  cases hStep with
  | drift s => exact .quiet rfl rfl (fun _ => rfl) .rfl id
  | openClient hLaunch hRunning hOpen =>
      refine .opens (by rw [hLaunch]; rfl) rfl rfl hRunning hRunning ?_
      rw [h.stopped, hRunning]
      rfl
  | openNone hLaunch hRunning hOpen =>
      exact .quiet (by rw [hLaunch]; rfl) rfl (fun hReturned => by cases hRunning.symm.trans hReturned)
        .rfl id
  | load hOpened hRun =>
      exact h.effect_load hOpened rfl (PersistentQueue.heldAlike_of_start hRun).stopped
  | loadNone hOpened hRun =>
      exact h.effect_load hOpened rfl (PersistentQueue.heldAlike_of_start hRun).stopped
  | @staff client hLoaded count =>
      have hRunning := h.running_of_launch (by simp [hLoaded]) (by simp [hLoaded])
      have hNone : w.workers = [] := h.staffed fun client' => by simp [hLoaded]
      refine .quiet (by rw [hLoaded]; rfl) ?_ (fun hReturned => by cases hRunning.symm.trans hReturned)
        .rfl id
      rw [sending, sending, hNone, List.filterMap_replicate_of_none rfl]
      rfl
  | enter value hOpen => exact .quiet rfl rfl (fun _ => rfl) .rfl id
  | @store before after value q s hOffers hRun =>
      obtain ⟨hRoom, rfl⟩ := PersistentQueue.stored_of_run hRun
      have hSome : w.queue.client.isSome = true := PersistentQueue.isSome_of_room hRoom
      rw [← List.append_nil (shown _ _ _ _)]
      exact h.works hSome (fun _ => (w.queue.keeps_offerLocked value).ne_close _) rfl rfl rfl (.none rfl)
  | @refuse before after value e s hOffers hRun =>
      cases hSome : w.queue.client.isSome with
      | true =>
          rw [← List.append_nil (shown _ _ _ _)]
          exact h.works hSome (fun _ => (w.queue.keeps_offerLocked value).ne_close _) rfl rfl rfl
            (.none rfl)
      | false =>
          -- A queue without a client turns the offer away before it comes to storage.
          have hRefusal : w.queue.refusal? = some .notStarted := by
            rw [PersistentQueue.refusal?, ← Option.not_isSome, hSome]
            rfl
          rw [PersistentQueue.offerLocked_of_refusal hRefusal]
          exact .quiet rfl rfl (fun _ => rfl) .rfl id
  | wake hOwed => exact .quiet rfl rfl (fun _ => rfl) .rfl id
  | call hWorkers hOpen hPermit =>
      rw [PersistentQueue.takePermit] at hPermit
      split at hPermit
      · cases hPermit
        exact .quiet rfl (sending_of_index?_eq hWorkers rfl) (fun _ => rfl) .rfl id
      · cases hPermit
  | leave hWorkers hClosed =>
      exact .quiet rfl (sending_of_index?_eq hWorkers rfl) (fun _ => rfl) .rfl id
  | @claim before after i b q s hWorkers hRun =>
      have hSome := h.isSome_of_mem (x := .called) (by simp [hWorkers]) (by simp)
      cases PersistentQueue.claimed_of_run hRun with
      | item hOpen hWaiting =>
          refine h.works hSome (fun _ => w.queue.keeps_claim.ne_close _) rfl rfl rfl
            (.claimed (Bool.or_eq_false_iff.mp hOpen).1 ?_)
          rw [← sending_of_index?_eq hWorkers (y := .called) rfl]
          exact perm_sending rfl
  | miss hWorkers hRun => exact h.effect_claim hWorkers rfl (by simp) (PersistentQueue.claimed_of_run hRun)
  | give hWorkers hRun => exact h.effect_claim hWorkers rfl (by simp) (PersistentQueue.claimed_of_run hRun)
  | @acknowledge before after i b q s hWorkers outcome hRun =>
      obtain ⟨hClient, hMore⟩ := h.holds hWorkers
      have hPerm : w.sending.Perm (i :: (before ++ .free :: after).filterMap Post.index?) := by
        rw [sending, hWorkers]
        exact perm_sending rfl
      have hStopped : q.stopped = w.queue.stopped := by
        rcases PersistentQueue.ended_of_run hClient hMore hRun with rfl | rfl <;> rfl
      exact h.works hClient (fun _ => PersistentQueue.ne_close_of_mem_uses_acknowledge hClient hMore i
        outcome _) rfl rfl hStopped (.acknowledged hPerm)
  | retire hFirst hStarted =>
      have hRunning : w.closing = .none := by simpa [h.retired] using hFirst
      exact .quiet rfl rfl (fun _ => rfl) (by simp [hRunning]) id
  | retireAgain hLater => exact .quiet rfl rfl (fun _ => rfl) .rfl id
  | stop hRetired => exact .halts rfl rfl hRetired rfl rfl
  | dismiss hStopped => exact .quiet rfl rfl (fun _ => rfl) (by simp [hStopped]) id
  | @detach q s hDismissed hLeft hRun =>
      have hLast := h.eq_one_of_left hLeft
      have hNone : w.sending = [] :=
        List.filterMap_eq_nil_iff.mpr fun x hx => by rw [hLeft x hx]; rfl
      have hClient : w.queue.client = w.launch.attached? := by
        rw [h.client, if_neg (by simp [hDismissed])]
      have hStopped : q.stopped = true := by
        have hBefore : w.queue.stopped = true := by rw [h.stopped, hDismissed]; rfl
        rcases PersistentQueue.detached_of_run hLast hRun with rfl | rfl <;> exact hBefore
      have hShown : shown d w.queue.client w.queue.detach w.store =
          w.launch.attached?.toList.map fun client => .used (some client) .close := by
        rw [shown, PersistentQueue.uses_detach hLast, ← hClient]
        cases w.queue.client <;> rfl
      rw [hShown]
      refine .ends rfl hNone hNone hDismissed rfl hStopped ?_
      rcases h.settled (by simp [hDismissed]) with hLaunch | ⟨client, hLaunch⟩ <;> rw [hLaunch] <;> rfl

/-- What shows of a step goes with what the step does, if the shutdown has not returned before. -/
structure Tells (w w' : Tenure β σ) (events : List Event) : Prop where
  opens : w.launch.client?.toList ++ events.flatMap Event.opens = w'.launch.client?.toList
  claims : (events.flatMap Event.claims ++ w.sending).Perm
    (events.flatMap Event.acknowledges ++ w'.sending)
  closes : events.flatMap Event.closes =
    if w'.closing = .returned then w'.launch.attached?.toList.map some else []
  uses : ∀ client use, .used client use ∈ events → client.isSome = true ∧ client = w'.launch.client?
  halted : .halted ∈ events → w'.queue.stopped = true
  stopped : w.queue.stopped = true → w'.queue.stopped = true ∧ ∀ e ∈ events, e.claims = []
  returned : .returned ∈ events ↔ w'.closing = .returned
  order : events.Pairwise Event.Precedes

/-- Batches of operations that come before tell nothing more. -/
theorem Tells.prepend {client : Nat} (h : Tells w w' events) (hClient : w'.launch.client? = some client)
    (ops : List (List Storage.Operation)) : Tells w w' (batches client ops ++ events) := by
  have hBatch : ∀ e ∈ batches client ops, ∃ op, e = .used (some client) (.batch op) := by
    intro e he
    obtain ⟨op, -, rfl⟩ := List.mem_map.mp he
    exact ⟨op, rfl⟩
  have hNone : ∀ {α : Type} (f : Event → List α), (∀ op, f (.used (some client) (.batch op)) = []) →
      (batches client ops ++ events).flatMap f = events.flatMap f := by
    intro α f hf
    rw [List.flatMap_append, List.append_left_eq_self, List.flatMap_eq_nil_iff]
    intro e he
    obtain ⟨op, rfl⟩ := hBatch e he
    exact hf op
  have hMem : ∀ e, (∀ op, e ≠ .used (some client) (.batch op)) →
      (e ∈ batches client ops ++ events ↔ e ∈ events) := by
    intro e hOther
    rw [List.mem_append, or_iff_right]
    intro he
    obtain ⟨op, rfl⟩ := hBatch e he
    exact hOther op rfl
  constructor
  case opens => rw [hNone _ fun _ => rfl, h.opens]
  case claims =>
    rw [hNone _ fun _ => rfl, hNone _ fun _ => rfl]
    exact h.claims
  case closes => rw [hNone _ fun _ => rfl, h.closes]
  case uses =>
    intro client' use he
    rcases List.mem_append.mp he with hOld | hNew
    · obtain ⟨op, hSame⟩ := hBatch _ hOld
      cases hSame
      exact ⟨rfl, hClient.symm⟩
    · exact h.uses client' use hNew
  case halted => exact fun he => h.halted ((hMem _ (by simp)).mp he)
  case stopped =>
    refine fun hStopped => ⟨(h.stopped hStopped).1, fun e he => ?_⟩
    rcases List.mem_append.mp he with hOld | hNew
    · obtain ⟨op, rfl⟩ := hBatch e hOld
      rfl
    · exact (h.stopped hStopped).2 e hNew
  case returned => rw [hMem _ (by simp), h.returned]
  case order =>
    have hFirst : ∀ e ∈ batches client ops, ∀ e', e.Precedes e' := by
      intro e he e'
      obtain ⟨op, rfl⟩ := hBatch e he
      exact ⟨by simp, by simp, by simp⟩
    refine List.pairwise_append.mpr ⟨?_, h.order, fun e he e' _ => hFirst e he e'⟩
    exact List.pairwise_of_forall_mem_list fun e he e' _ => hFirst e he e'

theorem Effect.tells (h : Effect w w' events) (hRunning : w.closing ≠ .returned) :
    Tells w w' events := by
  cases h with
  | quiet hClient hSending hReturned hClosing hStopped =>
      have hAfter : w'.closing ≠ .returned := fun hAfter => hRunning (hClosing.mp hAfter)
      constructor <;> simp_all
  | opens hNone hOpened hSending hBefore hClosing hOpen =>
      constructor <;> simp [hNone, hOpened, hSending, hClosing, hOpen]
  | works ops hClient hSame hBefore hClosing hStopped hMarks =>
      refine Tells.prepend ?_ (hSame.trans hClient) ops
      rw [← hClosing] at hRunning
      cases hMarks with
      | none hSending => constructor <;> simp [hSame, hSending, hRunning, hStopped]
      | claimed hOpen hSending =>
          constructor
          case claims => exact hSending.symm
          all_goals simp [hSame, hRunning, hStopped, hOpen]
      | acknowledged hSending =>
          constructor
          case claims => exact hSending
          all_goals simp [hSame, hRunning, hStopped]
  | halts hLaunch hSending hBefore hClosing hStopped =>
      constructor <;> simp [hLaunch, hSending, hClosing, hStopped]
  | ends hLaunch hSending hSame hBefore hClosing hStopped hClient =>
      have hClose : ∀ client, Event.Precedes (.used client .close) .returned := fun client =>
        ⟨fun _ => rfl, by simp, by simp⟩
      cases hAttached : w.launch.attached? <;> constructor <;>
        simp [hLaunch, hSending, hSame, hClosing, hStopped, hClient, hAttached, hClose]

/-! ## What shows of a run -/

/-- What has shown of a run says who holds the client. -/
structure Recorded (trace : List Event) (w : Tenure β σ) : Prop where
  opens : trace.flatMap Event.opens = w.launch.client?.toList
  claims : (trace.flatMap Event.claims).Perm (trace.flatMap Event.acknowledges ++ w.sending)
  closes : trace.flatMap Event.closes =
    if w.closing = .returned then w.launch.attached?.toList.map some else []
  uses : ∀ client use, .used client use ∈ trace → client.isSome = true ∧ client = w.launch.client?
  halted : .halted ∈ trace → w.queue.stopped = true
  returned : .returned ∈ trace ↔ w.closing = .returned
  order : trace.Pairwise Event.Precedes

theorem recorded_fresh (capacity : Nat) (s : σ) : Recorded [] (fresh capacity s : Tenure β σ) where
  opens := rfl
  claims := .refl _
  closes := rfl
  uses := by simp
  halted := by simp
  returned := by simp [fresh]
  order := .nil

namespace Recorded

variable {trace : List Event}

/-- What has shown before the shutdown returns may come before whatever is to come. -/
theorem precedes {e : Event} (h : Recorded trace w) (hRunning : w.closing ≠ .returned)
    (hClaims : w.queue.stopped = true → e.claims = []) : ∀ a ∈ trace, a.Precedes e := by
  intro a ha
  refine ⟨fun hClose => ?_, fun hHalted => hClaims (h.halted (hHalted ▸ ha)), ?_⟩
  · have hNone := h.closes
    rw [if_neg hRunning] at hNone
    exact absurd (List.flatMap_eq_nil_iff.mp hNone a ha) hClose
  · rintro rfl
    exact hRunning (h.returned.mp ha)

theorem append (h : Recorded trace w) (hRunning : w.closing ≠ .returned) (hTells : Tells w w' events) :
    Recorded (trace ++ events) w' where
  opens := by rw [List.flatMap_append, h.opens, hTells.opens]
  claims := by
    rw [List.flatMap_append, List.flatMap_append, List.append_assoc]
    refine (h.claims.append_right _).trans ?_
    rw [List.append_assoc]
    exact (List.perm_append_comm.trans hTells.claims).append_left _
  closes := by rw [List.flatMap_append, h.closes, if_neg hRunning, List.nil_append, hTells.closes]
  uses := by
    intro client use hMem
    rcases List.mem_append.mp hMem with hOld | hNew
    · obtain ⟨hSome, hSame⟩ := h.uses client use hOld
      obtain ⟨number, rfl⟩ := Option.isSome_iff_exists.mp hSome
      have hKept := hTells.opens
      rw [← hSame] at hKept
      cases hAfter : w'.launch.client? with
      | none =>
          rw [hAfter] at hKept
          cases hKept
      | some number' =>
          rw [hAfter] at hKept
          exact ⟨rfl, congrArg some (List.cons.inj hKept).1⟩
    · exact hTells.uses client use hNew
  halted := by
    intro hMem
    rcases List.mem_append.mp hMem with hOld | hNew
    · exact (hTells.stopped (h.halted hOld)).1
    · exact hTells.halted hNew
  returned := by
    rw [List.mem_append, h.returned, hTells.returned]
    simp [hRunning]
  order := List.pairwise_append.mpr ⟨h.order, hTells.order, fun a ha e he =>
    h.precedes hRunning (fun hStopped => (hTells.stopped hStopped).2 e he) a ha⟩

end Recorded

/-- Once the shutdown has returned nothing shows any more. -/
theorem Recorded.step {trace : List Event} (h : Recorded trace w)
    (hStep : Step d codec storage w events w') (hSound : Sound w) : Recorded (trace ++ events) w' := by
  have hEffect := hStep.effect hSound
  by_cases hReturned : w.closing = .returned
  · cases hEffect with
    | quiet hClient hSending hSame hClosing hStopped =>
        rw [List.append_nil]
        refine ⟨hClient ▸ h.opens, hSending ▸ h.claims, ?_, hClient ▸ h.uses,
          fun hMem => hStopped (h.halted hMem), h.returned.trans hClosing.symm, h.order⟩
        rw [h.closes, if_pos hReturned, if_pos (hClosing.mpr hReturned), hSame hReturned]
    | opens hNone hOpened hSending hRunning => cases hRunning.symm.trans hReturned
    | works ops hClient hSame hRunning => exact absurd hReturned hRunning
    | halts hLaunch hSending hRunning => cases hRunning.symm.trans hReturned
    | ends hLaunch hSending hSame hRunning => cases hRunning.symm.trans hReturned
  · exact h.append hReturned (hEffect.tells hReturned)

variable {trace : List Event}

theorem Runs.recorded {capacity : Nat} {s₀ : σ} (hRuns : Runs d codec storage (fresh capacity s₀) trace w) :
    Recorded trace w := by
  induction hRuns with
  | refl => exact recorded_fresh capacity s₀
  | step prior last ih => exact ih.step last (prior.sound (sound_fresh capacity s₀))

/-- However offers, workers, calls that shut the queue down and failures of storage interleave: while the
queue has a client, it counts one reference, and one for each batch that was handed out and whose
sending is not over. Every use is one of the client that was opened. After a client is given up nothing
is used; after the queue is stopped nothing is handed out. No client is given up before the first
shutdown returns, and when it does the client that was opened has been given up once, and the sending of
all that was handed out is over. -/
theorem client_is_given_up_once {capacity : Nat} {s₀ : σ}
    (hRuns : Runs d codec storage (fresh capacity s₀) trace w) :
    (∀ client, w.launch.attached? = some client → w.closing ≠ .returned →
      w.queue.client = some client ∧ w.queue.references + (trace.flatMap Event.acknowledges).length =
        1 + (trace.flatMap Event.claims).length) ∧
    (∀ client use, .used client use ∈ trace →
      ∃ number, client = some number ∧ trace.flatMap Event.opens = [number]) ∧
    (trace.Pairwise fun e e' => e.closes ≠ [] → e' = .returned) ∧
    (trace.Pairwise fun e e' => e = .halted → e'.claims = []) ∧
    (trace.Pairwise fun e _ => e ≠ .returned) ∧
    (.returned ∉ trace → trace.flatMap Event.closes = []) ∧
    (.returned ∈ trace →
      trace.flatMap Event.closes = (trace.flatMap Event.opens).map some ∧
      (trace.flatMap Event.opens).length ≤ 1 ∧
      (trace.flatMap Event.claims).Perm (trace.flatMap Event.acknowledges)) := by
  have hSound := hRuns.sound (sound_fresh capacity s₀)
  have h := hRuns.recorded
  refine ⟨?held, ?uses, h.order.imp Event.Precedes.close, h.order.imp Event.Precedes.halt,
    h.order.imp Event.Precedes.last, ?before, ?after⟩
  case held =>
    intro client hAttached hRunning
    have hClient : w.queue.client = some client := by
      rw [hSound.client, if_neg hRunning, hAttached]
    have hCount := h.claims.length_eq
    rw [List.length_append] at hCount
    have hReferences := hSound.references (by rw [hClient]; rfl)
    exact ⟨hClient, by omega⟩
  case uses =>
    intro client use hMem
    obtain ⟨hSome, hSame⟩ := h.uses client use hMem
    obtain ⟨number, rfl⟩ := Option.isSome_iff_exists.mp hSome
    exact ⟨number, rfl, by rw [h.opens, ← hSame]; rfl⟩
  case before =>
    intro hNot
    rw [h.closes, if_neg fun hReturned => hNot (h.returned.mpr hReturned)]
  case after =>
    intro hMem
    have hReturned := h.returned.mp hMem
    have hSame : w.launch.attached? = w.launch.client? := by
      rcases hSound.settled (by simp [hReturned]) with hLaunch | ⟨client, hLaunch⟩ <;>
        rw [hLaunch] <;> rfl
    have hNone : w.sending = [] :=
      List.filterMap_eq_nil_iff.mpr fun x hx => by rw [hSound.left hReturned x hx]; rfl
    refine ⟨by rw [h.closes, if_pos hReturned, h.opens, hSame], ?_, ?_⟩
    · rw [h.opens]
      exact Option.length_toList_le
    · have hClaims := h.claims
      rwa [hNone, List.append_nil] at hClaims

/-! ## A removal that storage refuses -/

/-- Clients of one space, of which the fifth batch of operations and the sixth are refused. -/
def unsteady : Depot Storage.FatedSpace := ⟨fun _ => Setup.unsteady.client, fun _ s => (.ok 0, s)⟩

def disk : ComponentId := ⟨⟨"disk", by decide⟩, none⟩

/-- A worker is sending the first batch that was offered. -/
def busy : Tenure Bytes Storage.FatedSpace :=
  ⟨⟨afterClaim (afterPut [] 0 [7]) 0 [], 4, false⟩,
    { PersistentQueue.empty 5 with
      client := some 0
      references := 2
      readIndex := 1
      writeIndex := 1
      dispatched := [0] },
    .over (some 0), [], 0, [.sending 0 [7]], .none⟩

/-- The removal was refused as one batch, and so was the removal of the value. -/
def parted : Tenure Bytes Storage.FatedSpace :=
  ⟨⟨(afterClaim (afterPut [] 0 [7]) 0 []).insert dispatchedKey (encodeIndices []), 7, false⟩,
    { PersistentQueue.empty 5 with
      readIndex := 1
      writeIndex := 1
      stopped := true
      closed := true
      retired := true },
    .over (some 0), [], 0, [.left], .returned⟩

theorem runs_parted : ∃ trace, Runs unsteady Codec.plain disk (fresh 5 ⟨[], 0, false⟩) trace parted ∧
    .returned ∈ trace ∧ trace.flatMap Event.opens = [0] ∧ trace.flatMap Event.claims = [0] := by
  have hOne : ∀ x : Post Bytes, [x] = [] ++ x :: [] := fun _ => rfl
  have hStarted : Runs unsteady Codec.plain disk (fresh 5 ⟨[], 0, false⟩) _
      ⟨⟨[], 2, false⟩, { PersistentQueue.empty 5 with client := some 0, references := 1 },
        .over (some 0), [], 0, [.free], .none⟩ :=
    ((Runs.single (.openClient rfl rfl rfl)).step (.load rfl rfl)).step (.staff rfl 1)
  have hStored : Runs unsteady Codec.plain disk (fresh 5 ⟨[], 0, false⟩) _
      ⟨⟨afterPut [] 0 [7], 3, false⟩,
        { PersistentQueue.empty 5 with
          client := some 0, references := 1, writeIndex := 1, size := 1, permits := 1 },
        .over (some 0), [], 0, [.free], .none⟩ :=
    ((hStarted.step (.enter [7] rfl)).step (.store rfl rfl)).step (.wake (by decide))
  have hClaimed := (hStored.step (.call (hOne _) rfl rfl)).step (.claim (hOne _) rfl)
  have hBusy : Runs unsteady Codec.plain disk (fresh 5 ⟨[], 0, false⟩) _ busy := hClaimed
  have hStopped := ((hBusy.step (.retire rfl (.inr ⟨_, rfl⟩))).step (.stop rfl)).step (.retireAgain rfl)
  have hLeft := ((hStopped.step (.acknowledge (hOne _) (.ok ()) rfl)).step (.dismiss rfl)).step
    (.leave (hOne _) rfl)
  have hParted : Runs unsteady Codec.plain disk (fresh 5 ⟨[], 0, false⟩) _ parted :=
    hLeft.step (.detach rfl (by simp) rfl)
  exact ⟨_, hParted, by simp, rfl, rfl⟩

/-- A worker is sending when the shutdown begins, and storage refuses to remove what it sent. The client
is given up once all the same. -/
theorem client_is_given_up_once_unsteady :
    ∃ trace, Runs unsteady Codec.plain disk (fresh 5 ⟨[], 0, false⟩) trace parted ∧
      .returned ∈ trace ∧ trace.flatMap Event.closes = [some 0] ∧
      (trace.flatMap Event.acknowledges).Perm [0] := by
  obtain ⟨trace, hRuns, hReturned, hOpens, hClaims⟩ := runs_parted
  obtain ⟨-, -, -, -, -, -, hEnd⟩ := client_is_given_up_once hRuns
  obtain ⟨hCloses, -, hPerm⟩ := hEnd hReturned
  refine ⟨trace, hRuns, hReturned, ?_, ?_⟩
  · rw [hCloses, hOpens]
    rfl
  · rw [← hClaims]
    exact hPerm.symm

end Tenure

end Telemetry.Queue
