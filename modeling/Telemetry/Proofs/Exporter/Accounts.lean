import Telemetry.Proofs.Exporter.Parcels

/-!
# Every item is entered once

What callers hand to an exporter is delivered, given up after an attempt, dropped by the queue, or held up
by a shutdown, and each batch meets one of these ends. The accounts are the items of the first three.
-/

namespace Telemetry.Accounting

open Queue (Passage Ticket Traffic WorkerStage)
open Queue.Passage (drops during sends)
open Sending (Move)

variable {ε χ : Type} {dest : Destination ε χ} {w w' : World ε χ} {e : Event} {trace : List Event}
  {x x' : Exporters ε} {n : Nat}

/-! ## Items -/

/-- The number of items of some batches. -/
def items (cs : List (Ticket Request)) : Nat := (cs.map fun c => c.2.itemCount).sum

@[simp] theorem items_nil : items [] = 0 := rfl

@[simp] theorem items_cons (c : Ticket Request) (cs : List (Ticket Request)) :
    items (c :: cs) = c.2.itemCount + items cs := by
  rw [items, List.map_cons, List.sum_cons]
  rfl

@[simp] theorem items_append (cs ds : List (Ticket Request)) : items (cs ++ ds) = items cs + items ds := by
  rw [items, List.map_append, List.sum_append]
  rfl

theorem items_perm {cs ds : List (Ticket Request)} (h : cs.Perm ds) : items cs = items ds :=
  (h.map _).sum_nat

/-- The batches of the parcels of a kind. -/
def tickets (kind : Parcel χ → Bool) (ps : List (Parcel χ)) : List (Ticket Request) :=
  (ps.filter kind).map Parcel.ticket

theorem tickets_append (kind : Parcel χ → Bool) (ps qs : List (Parcel χ)) :
    tickets kind (ps ++ qs) = tickets kind ps ++ tickets kind qs := by
  rw [tickets, List.filter_append, List.map_append]
  rfl

theorem tickets_cons (kind : Parcel χ → Bool) (p : Parcel χ) (ps : List (Parcel χ)) :
    tickets kind (p :: ps) = (if kind p then [p.ticket] else []) ++ tickets kind ps := by
  rw [tickets, List.filter_cons]
  split <;> rfl

/-- What the accounts are after so many parcels, and with so much dropped by the queue. -/
def accountsOf (ps : List (Parcel χ)) (gone : List (Ticket Request)) : ExportAccounts :=
  ⟨items (tickets Parcel.isDelivered ps), items (tickets Parcel.isFailed ps), items gone⟩

theorem accountsOf_middle (before after : List (Parcel χ)) (p : Parcel χ) (gone : List (Ticket Request)) :
    accountsOf (before ++ p :: after) gone =
      ⟨items (tickets Parcel.isDelivered [p]) + (accountsOf (before ++ after) gone).sent,
        items (tickets Parcel.isFailed [p]) + (accountsOf (before ++ after) gone).failed,
        items gone⟩ := by
  have hMiddle : ∀ kind : Parcel χ → Bool, items (tickets kind (before ++ p :: after)) =
      items (tickets kind [p]) + items (tickets kind (before ++ after)) := by
    intro kind
    rw [tickets_append, ← List.singleton_append, tickets_append, tickets_append, items_append,
      items_append, items_append]
    omega
  rw [accountsOf, hMiddle, hMiddle]
  rfl

/-- A parcel that is not over is in none of the accounts. -/
theorem accountsOf_inl (before after : List (Parcel χ)) {p : Parcel χ} {s : Sending χ}
    (hState : p.state = .inl s) (gone : List (Ticket Request)) :
    accountsOf (before ++ p :: after) gone = accountsOf (before ++ after) gone := by
  have hNone : p.isDelivered = false ∧ p.isFailed = false := by
    simp [Parcel.isDelivered, Parcel.isFailed, hState]
  rw [accountsOf_middle]
  simp [tickets, hNone, accountsOf]

/-- A parcel that is over is entered with its outcome. -/
theorem accountsOf_inr (before after : List (Parcel χ)) {p : Parcel χ} {outcome : Outcome}
    (hState : p.state = .inr outcome) (gone : List (Ticket Request)) :
    accountsOf (before ++ p :: after) gone =
      (accountsOf (before ++ after) gone).enter p.ticket.2.itemCount outcome := by
  rw [accountsOf_middle]
  cases outcome with
  | ok u =>
      have hKind : p.isDelivered = true ∧ p.isFailed = false := by
        simp [Parcel.isDelivered, Parcel.isFailed, hState]
      simp [tickets, hKind, accountsOf, ExportAccounts.enter, Nat.add_comm]
  | error e =>
      have hKind : p.isDelivered = false ∧ p.isFailed = !e.isShutdown := by
        simp [Parcel.isDelivered, Parcel.isFailed, hState]
      cases hShutdown : e.isShutdown <;>
        simp [tickets, hKind, hShutdown, accountsOf, ExportAccounts.enter, Nat.add_comm]

theorem accountsOf_reject (ps : List (Parcel χ)) (gone : List (Ticket Request)) (c : Ticket Request) :
    accountsOf ps (gone ++ [c]) = (accountsOf ps gone).reject c.2.itemCount := by
  simp [accountsOf, ExportAccounts.reject]

/-! ## The accounts of an exporter -/

/-- The accounts of the exporter with a number. -/
def accounts? (x : Exporters ε) (n : Nat) : Option ExportAccounts := x.exporters[n]?.map Exporter.accounts

theorem accounts?_account (x : Exporters ε) (n : Nat) (f : ExportAccounts → ExportAccounts) :
    accounts? (x.account n f) n = (accounts? x n).map f := by
  rw [accounts?, Exporters.account, List.getElem?_modify_eq, accounts?]
  cases x.exporters[n]? <;> rfl

theorem accounts?_stop (x : Exporters ε) (n : Nat) : accounts? (x.stop n) n = accounts? x n := by
  rw [accounts?, Exporters.stop, List.getElem?_modify_eq, accounts?]
  cases x.exporters[n]? <;> rfl

theorem accounts?_add (x : Exporters ε) (settings : ExportSettings) :
    accounts? (x.add settings) x.exporters.length = some .zero := by
  rw [accounts?, Exporters.add, List.getElem?_concat_length]
  rfl

/-- What the queue drops is entered as rejected. -/
theorem accounts?_dropped (dest : Destination ε χ) (ps : List (Parcel χ)) (more : List (Ticket Request))
    {gone : List (Ticket Request)} (h : accounts? x n = some (accountsOf ps gone)) :
    accounts? (more.foldl (fun x c => (Sending.rules dest).dropped n c.2 x) x) n =
      some (accountsOf ps (gone ++ more)) := by
  induction more generalizing x gone with
  | nil => rwa [List.append_nil]
  | cons c more ih =>
      rw [List.foldl_cons, List.append_cons]
      apply ih
      rw [accountsOf_reject]
      change accounts? (x.account n fun a => a.reject c.2.itemCount) n = _
      rw [accounts?_account, h]
      rfl

/-! ## What a step keeps -/

/-- A parcel of an exporter, with what its attempts tell. -/
structure Parcel.IsGenuine (n : Nat) (p : Parcel χ) : Prop where
  tells : Tells p.answers p.state
  exporter : ∀ s, p.state = .inl s → s.exporter = n
  request : ∀ s, p.state = .inl s → s.request = p.ticket.2

/-- How the parcels come from the queue, or from the callers. -/
def Fed (capacity : Option Nat) (trace : List Event) (w : World ε χ) : Prop :=
  match capacity with
  | none => w.queue = none ∧ queueTrace trace = [] ∧
      w.parcels.map (fun p => p.ticket.1) = List.range w.parcels.length
  | some capacity => ∃ t, w.queue = some t ∧ Traffic.Runs (.empty capacity) (queueTrace trace) t ∧
      during sends (queueTrace trace) = w.parcels.map Parcel.ticket ∧
      ∀ p ∈ w.parcels, (∃ outcome, p.state = .inr outcome) ∨ p.ticket ∈ underway t

/-- What is the case after every run of a new exporter. -/
structure Sound (capacity : Option Nat) (trace : List Event) (w : World ε χ) : Prop where
  accounts : accounts? w.exporters w.number = some (accountsOf w.parcels (dropped trace))
  genuine : ∀ p ∈ w.parcels, p.IsGenuine w.number
  fed : Fed capacity trace w

/-! ### Batches under way -/

section Underway

variable {t t' : Traffic Request} {c : Ticket Request}

theorem mem_underway : c ∈ underway t ↔ .sending c ∈ t.workers := by
  rw [underway, List.mem_flatMap]
  constructor
  · rintro ⟨worker, hMem, hSending⟩
    cases worker with
    | sending d =>
        obtain rfl := List.mem_singleton.mp hSending
        exact hMem
    | _ => exact absurd hSending List.not_mem_nil
  · exact fun hMem => ⟨_, hMem, List.mem_singleton_self c⟩

/-- A worker that begins to send is one more. -/
theorem mem_underway_of_sent (hStep : Traffic.Step t (.sent c) t') :
    c ∈ underway t' ∧ ∀ d ∈ underway t, d ∈ underway t' := by
  cases hStep with
  | send hWorkers =>
      refine ⟨mem_underway.mpr (by simp), fun d hMem => mem_underway.mpr ?_⟩
      have hBusy := mem_underway.mp hMem
      rw [hWorkers] at hBusy
      simp only [List.mem_append, List.mem_cons, reduceCtorEq, false_or] at hBusy ⊢
      exact hBusy.imp_right .inr

/-- Where no worker begins or ends a sending, no sending begins to show. -/
theorem sends_eq_nil {e : Passage Request} (hStep : Traffic.Step t e t')
    (hSame : underway t' = underway t) : e.sends = [] := by
  cases hStep with
  | send hWorkers =>
      have hLength := congrArg List.length hSame
      simp [underway, hWorkers] at hLength
  | _ => rfl

end Underway

/-- No batch is sent twice. -/
theorem nodup_sends {capacity : Nat} {queueTrace : List (Passage Request)} {t : Traffic Request}
    (hRuns : Traffic.Runs (.empty capacity) queueTrace t) : (during sends queueTrace).Nodup := by
  classical
  have hSound := hRuns.sound
  rw [List.nodup_iff_count_le_one]
  intro c
  have hLe := hSound.sends_add_discards_le (c := c)
  rw [hSound.ended.accepted c] at hLe
  split at hLe <;> omega

namespace Parcel.IsGenuine

variable {p : Parcel χ}

theorem fresh (n context : Nat) (c : Ticket Request) :
    (⟨c, [], .inl (.fresh n context c.2)⟩ : Parcel χ).IsGenuine n where
  tells := nofun
  exporter := by
    rintro _ ⟨⟩
    rfl
  request := by
    rintro _ ⟨⟩
    rfl

theorem move (h : p.IsGenuine n) {s : Sending χ} (hState : p.state = .inl s) {now : Nat}
    {progress : Progress} {state : Sending χ ⊕ Outcome}
    (hMove : Move dest now s x progress (state, x')) :
    (⟨p.ticket, progress.enter p.answers, state⟩ : Parcel χ).IsGenuine n := by
  have hLast : p.answers.head? ≠ some (.ok ()) := by
    have hTells := h.tells
    rw [hState] at hTells
    exact hTells
  refine ⟨tells_of_move hMove hLast, ?_, ?_⟩
  · rintro s' rfl
    rw [(same_of_move hMove).1, h.exporter s hState]
  · rintro s' rfl
    rw [(same_of_move hMove).2, h.request s hState]

end Parcel.IsGenuine

/-- A move enters what the accounts have to be afterwards. -/
theorem accounts?_move {before after : List (Parcel χ)} {p : Parcel χ} {s : Sending χ}
    {gone : List (Ticket Request)} (h : accounts? x n = some (accountsOf (before ++ p :: after) gone))
    (hGenuine : p.IsGenuine n) (hState : p.state = .inl s) {now : Nat} {progress : Progress}
    {state : Sending χ ⊕ Outcome} (hMove : Move dest now s x progress (state, x'))
    (answers : List Outcome) :
    accounts? x' n = some (accountsOf (before ++ ⟨p.ticket, answers, state⟩ :: after) gone) := by
  rw [accountsOf_inl before after hState] at h
  rw [accounts?, exporters_of_move hMove]
  cases state with
  | inl s' =>
      rw [accountsOf_inl before after (p := ⟨p.ticket, answers, .inl s'⟩) rfl]
      exact h
  | inr outcome =>
      rw [accountsOf_inr before after (p := ⟨p.ticket, answers, .inr outcome⟩) rfl]
      change accounts? (x.account s.exporter _) n = _
      rw [hGenuine.exporter s hState, accounts?_account, h, hGenuine.request s hState]
      rfl

/-- What holds of each parcel still does when another takes the place of one. -/
theorem forall_mem_middle {P : Parcel χ → Prop} {before after : List (Parcel χ)} {p q : Parcel χ}
    (h : ∀ r ∈ before ++ p :: after, P r) (hNew : P q) : ∀ r ∈ before ++ q :: after, P r := by
  simp only [List.forall_mem_append, List.forall_mem_cons] at h ⊢
  exact ⟨h.1, hNew, h.2.2⟩

namespace Fed

variable {capacity : Option Nat} (h : Fed capacity trace w)
include h

/-- An exporter with a queue has its run, and its parcels are what that run has sent. -/
theorem exists_runs {t : Traffic Request} (hQueue : w.queue = some t) :
    ∃ slots, capacity = some slots ∧ Traffic.Runs (.empty slots) (queueTrace trace) t ∧
      during sends (queueTrace trace) = w.parcels.map Parcel.ticket ∧
      ∀ p ∈ w.parcels, (∃ outcome, p.state = .inr outcome) ∨ p.ticket ∈ underway t := by
  cases capacity with
  | none => exact nomatch h.1.symm.trans hQueue
  | some slots =>
      obtain ⟨t', hOwn, hRest⟩ := h
      obtain rfl : t = t' := Option.some.inj (hQueue.symm.trans hOwn)
      exact ⟨slots, rfl, hRest⟩

/-- How a parcel whose sending goes on changes. -/
theorem move {before after : List (Parcel χ)} {p : Parcel χ}
    (hParcels : w.parcels = before ++ p :: after) {s : Sending χ} (hState : p.state = .inl s)
    (progress : Progress) (answers : List Outcome) (state : Sending χ ⊕ Outcome) (x : Exporters ε) :
    Fed capacity (.moved p.ticket progress :: trace)
      { w with exporters := x, parcels := before ++ ⟨p.ticket, answers, state⟩ :: after } := by
  cases capacity with
  | none =>
      obtain ⟨hDirect, hNone, hNumbers⟩ := h
      refine ⟨hDirect, hNone, ?_⟩
      rw [hParcels] at hNumbers
      simpa using hNumbers
  | some capacity =>
      obtain ⟨t, hQueue, hRuns, hSends, hUnderway⟩ := h
      rw [hParcels] at hSends hUnderway
      have hBusy : p.ticket ∈ underway t := by
        refine (hUnderway p (by simp)).resolve_left ?_
        rintro ⟨outcome, hOver⟩
        exact nomatch hState.symm.trans hOver
      exact ⟨t, hQueue, hRuns, hSends.trans (by simp), forall_mem_middle hUnderway (.inr hBusy)⟩

end Fed

namespace Sound

variable {capacity : Option Nat} (h : Sound capacity trace w)
include h

theorem call (hDirect : w.queue = none) (context : Nat) (r : Request) :
    Sound capacity (.called (w.parcels.length, r) :: trace)
      { w with
        parcels := w.parcels ++ [⟨(w.parcels.length, r), [], .inl (.fresh w.number context r)⟩] } where
  accounts := by
    rw [accountsOf_inl w.parcels [] rfl, List.append_nil]
    exact h.accounts
  genuine := List.forall_mem_append.mpr
    ⟨h.genuine, List.forall_mem_singleton.mpr (.fresh w.number context (w.parcels.length, r))⟩
  fed := by
    have hFed := h.fed
    cases capacity with
    | none =>
        obtain ⟨-, hNone, hNumbers⟩ := hFed
        refine ⟨hDirect, hNone, ?_⟩
        rw [List.map_append, hNumbers, List.length_append, List.length_singleton, List.range_succ]
        rfl
    | some capacity =>
        obtain ⟨t, hQueue, -⟩ := hFed
        exact nomatch hDirect.symm.trans hQueue

section Queued

variable {t t' : Traffic Request} (hQueue : w.queue = some t)
include hQueue

/-- The queue goes on while no worker begins to send or frees itself. -/
theorem tend {e : Passage Request} (hStep : Traffic.Step t e t') (hSame : underway t' = underway t) :
    Sound capacity (.queue e :: trace)
      { w with
        queue := some t'
        exporters := e.drops.foldl (fun x c => (Sending.rules dest).dropped w.number c.2 x)
          w.exporters } := by
  obtain ⟨slots, rfl, hRuns, hSends, hUnderway⟩ := h.fed.exists_runs hQueue
  refine ⟨accounts?_dropped dest w.parcels e.drops h.accounts, h.genuine, t', rfl, hRuns.step hStep, ?_,
    ?_⟩
  · change during sends (queueTrace trace) ++ e.sends = _
    rw [sends_eq_nil hStep hSame, List.append_nil, hSends]
  · rw [hSame]
    exact hUnderway

theorem send {c : Ticket Request} {s : Sending χ} (now : Nat) (hStep : Traffic.Step t (.sent c) t')
    (hBegin : (Sending.rules dest).begin now w.number c.2 w.exporters = (s, x)) :
    Sound capacity (.queue (.sent c) :: trace)
      { w with exporters := x, queue := some t', parcels := w.parcels ++ [⟨c, [], .inl s⟩] } := by
  cases hBegin
  obtain ⟨slots, rfl, hRuns, hSends, hUnderway⟩ := h.fed.exists_runs hQueue
  obtain ⟨hNew, hOld⟩ := mem_underway_of_sent hStep
  have hDropped : dropped (.queue (.sent c) :: trace) = dropped trace := List.append_nil _
  refine ⟨?_, ?_, t', rfl, hRuns.step hStep, ?_, ?_⟩
  · rw [accountsOf_inl w.parcels [] rfl, List.append_nil, hDropped]
    exact h.accounts
  · exact List.forall_mem_append.mpr
      ⟨h.genuine, List.forall_mem_singleton.mpr (.fresh w.number _ c)⟩
  · rw [List.map_append, ← hSends]
    rfl
  · exact List.forall_mem_append.mpr
      ⟨fun p hMem => (hUnderway p hMem).imp_right (hOld _), List.forall_mem_singleton.mpr (.inr hNew)⟩

/-- A worker frees itself. No other parcel is that of its batch, which no other worker has sent. -/
theorem finish {before after : List (WorkerStage Request)} {p : Parcel χ} {outcome : Outcome}
    (hWorkers : t.workers = before ++ .sending p.ticket :: after) (hMem : p ∈ w.parcels)
    (hOver : p.state = .inr outcome) :
    Sound capacity (.queue .quiet :: trace)
      { w with queue := some { t with workers := before ++ .sent p.ticket :: after } } := by
  obtain ⟨slots, rfl, hRuns, hSends, hUnderway⟩ := h.fed.exists_runs hQueue
  have hDropped : dropped (.queue .quiet :: trace) = dropped trace := List.append_nil _
  have hNodup := nodup_sends hRuns
  rw [hSends] at hNodup
  refine ⟨?_, h.genuine, _, rfl, hRuns.step (.finish hWorkers outcome),
    (List.append_nil _).trans hSends, fun q hIn => ?_⟩
  · rw [hDropped]
    exact h.accounts
  · by_cases hSame : q.ticket = p.ticket
    · obtain rfl := List.inj_on_of_nodup_map hNodup hIn hMem hSame
      exact .inl ⟨outcome, hOver⟩
    · refine (hUnderway q hIn).imp_right fun hBusy => mem_underway.mpr ?_
      have hBusy := mem_underway.mp hBusy
      rw [hWorkers] at hBusy
      simpa [hSame] using hBusy

end Queued

theorem move {before after : List (Parcel χ)} {p : Parcel χ} {s : Sending χ} {progress : Progress}
    {state : Sending χ ⊕ Outcome} {now : Nat} (hParcels : w.parcels = before ++ p :: after)
    (hState : p.state = .inl s) (hMove : Move dest now s w.exporters progress (state, x)) :
    Sound capacity (.moved p.ticket progress :: trace)
      { w with
        exporters := x
        parcels := before ++ ⟨p.ticket, progress.enter p.answers, state⟩ :: after } := by
  have hAccounts := h.accounts
  have hGenuine := h.genuine
  rw [hParcels] at hAccounts hGenuine
  have hMoved := hGenuine p (by simp)
  exact ⟨accounts?_move hAccounts hMoved hState hMove _,
    forall_mem_middle hGenuine (hMoved.move hState hMove), h.fed.move hParcels hState progress _ state x⟩

theorem step (hStep : Step dest w e w') : Sound capacity (e :: trace) w' := by
  cases hStep with
  | call hDirect context r => exact h.call hDirect context r
  | tend hQueue hStep hSame => exact h.tend hQueue hStep hSame
  | send now hQueue hStep hBegin => exact h.send hQueue now hStep hBegin
  | finish hQueue hWorkers hMem hOver => exact h.finish hQueue hWorkers hMem hOver
  | move now hParcels hState hMove => exact h.move hParcels hState hMove
  | halt => exact ⟨(accounts?_stop _ _).trans h.accounts, h.genuine, h.fed⟩
  | pass hSame => exact ⟨(congrArg _ hSame).trans h.accounts, h.genuine, h.fed⟩

end Sound

theorem sound_opened (x : Exporters ε) (settings : ExportSettings) (capacity : Option Nat) :
    Sound capacity [] (.opened x settings capacity : World ε χ) := by
  refine ⟨accounts?_add x settings, fun p hMem => absurd hMem List.not_mem_nil, ?_⟩
  cases capacity with
  | none => exact ⟨rfl, rfl, rfl⟩
  | some capacity => exact ⟨_, rfl, .refl, rfl, fun p hMem => absurd hMem List.not_mem_nil⟩

theorem Runs.trans {w₁ w₂ w₃ : World ε χ} {first second : List Event} (hFirst : Runs dest w₁ first w₂)
    (hSecond : Runs dest w₂ second w₃) : Runs dest w₁ (second ++ first) w₃ := by
  induction hSecond with
  | refl => exact hFirst
  | step prior last ih => exact ih.step last

theorem Runs.sound {settings : ExportSettings} {capacity : Option Nat}
    (hRuns : Runs dest (.opened x settings capacity) trace w) : Sound capacity trace w := by
  induction hRuns with
  | refl => exact sound_opened x settings capacity
  | step prior last ih => exact ih.step last

/-! ## Once everything is over -/

/-- A batch whose sending is over was delivered, given up, or held up. -/
theorem tickets_perm {ps : List (Parcel χ)} (h : ∀ p ∈ ps, ∃ outcome, p.state = .inr outcome) :
    (ps.map Parcel.ticket).Perm (tickets Parcel.isDelivered ps ++
      (tickets Parcel.isFailed ps ++ tickets Parcel.isHeldUp ps)) := by
  induction ps with
  | nil => exact .nil
  | cons p ps ih =>
      obtain ⟨⟨outcome, hState⟩, hRest⟩ := List.forall_mem_cons.mp h
      have hTail := (ih hRest).cons p.ticket
      rw [List.map_cons, tickets_cons, tickets_cons, tickets_cons]
      cases outcome with
      | ok u => simpa [Parcel.isDelivered, Parcel.isFailed, Parcel.isHeldUp, hState] using hTail
      | error e =>
          cases hShutdown : e.isShutdown with
          | false =>
              have hMiddle := hTail.trans List.perm_middle.symm
              simpa [Parcel.isDelivered, Parcel.isFailed, Parcel.isHeldUp, hState, hShutdown] using hMiddle
          | true =>
              rw [← List.append_assoc] at hTail
              have hMiddle := hTail.trans List.perm_middle.symm
              simpa [Parcel.isDelivered, Parcel.isFailed, Parcel.isHeldUp, hState, hShutdown] using hMiddle

section Over

variable {t : Traffic Request}

theorem mem_mapIdx_iff {offers : List (Queue.OfferStage × Request)} {c : Ticket Request} :
    c ∈ offers.mapIdx (fun n o => (n, o.2)) ↔ ∃ stage, offers[c.1]? = some (stage, c.2) := by
  rw [List.mem_mapIdx]
  constructor
  · rintro ⟨n, hLt, rfl⟩
    exact ⟨offers[n].1, List.getElem?_eq_getElem hLt⟩
  · rintro ⟨stage, hAt⟩
    obtain ⟨hLt, hEq⟩ := List.getElem?_eq_some_iff.mp hAt
    exact ⟨c.1, hLt, by rw [hEq]⟩

theorem map_fst_mapIdx (offers : List (Queue.OfferStage × Request)) :
    (offers.mapIdx fun n o => (n, o.2)).map Prod.fst = List.range offers.length := by
  apply List.ext_getElem
  · simp
  · intro n hLeft hRight
    simp

/-- Whatever was offered to a queue was sent or dropped in the end, and once. -/
theorem offers_perm {capacity : Nat} {trace : List (Passage Request)}
    (hRuns : Traffic.Runs (.empty capacity) trace t) (hOver : t.closing = .over)
    (hEnded : ∀ o ∈ t.offers, o.1 = .accepted ∨ o.1 = .refused) :
    (t.offers.mapIdx fun n o => (n, o.2)).Perm (during sends trace ++ during drops trace) := by
  classical
  have hSound := hRuns.sound
  have hNodup : (t.offers.mapIdx fun n o => (n, o.2)).Nodup := by
    refine List.Nodup.of_map Prod.fst ?_
    rw [map_fst_mapIdx]
    exact List.nodup_range
  rw [List.perm_iff_count]
  intro c
  have hSent := hSound.sends_add_discards_eq (c := c) hOver
  rw [hSound.ended.accepted c] at hSent
  have hCount : (during sends trace ++ during drops trace).count c =
      (if Traffic.IsAt .accepted t.offers c then 1 else 0) +
        if Traffic.IsAt .refused t.offers c then 1 else 0 := by
    rw [List.count_append, Passage.count_during_drops, hSound.ended.refused c, ← hSent]
    omega
  rw [hCount, hNodup.count]
  by_cases hMem : c ∈ t.offers.mapIdx fun n o => (n, o.2)
  · obtain ⟨stage, hAt⟩ := mem_mapIdx_iff.mp hMem
    rw [if_pos hMem]
    rcases hEnded (stage, c.2) (List.mem_of_getElem? hAt) with hAccepted | hRefused
    · obtain rfl : stage = .accepted := hAccepted
      simp [Traffic.IsAt, hAt]
    · obtain rfl : stage = .refused := hRefused
      simp [Traffic.IsAt, hAt]
  · have hNone : ∀ stage, ¬Traffic.IsAt stage t.offers c := fun stage hAt =>
      hMem (mem_mapIdx_iff.mpr ⟨stage, hAt⟩)
    rw [if_neg hMem, if_neg (hNone _), if_neg (hNone _)]

end Over

namespace Sound

variable {capacity : Option Nat} (h : Sound capacity trace w)
include h

/-- Every sending is over once the calls and the shutdown are. -/
theorem ended_of_over (hOver : w.IsOver) : ∀ p ∈ w.parcels, ∃ outcome, p.state = .inr outcome := by
  cases capacity with
  | none =>
      rw [World.IsOver, h.fed.1] at hOver
      exact hOver
  | some capacity =>
      obtain ⟨t, hQueue, hRuns, -, hUnderway⟩ := h.fed
      rw [World.IsOver, hQueue] at hOver
      classical
      have hLeft := hRuns.sound.closes.left (by rw [hOver.1]; rfl)
      refine fun p hMem => (hUnderway p hMem).resolve_right fun hBusy => ?_
      exact nomatch hLeft _ (mem_underway.mp hBusy)

/-- What was consumed was sent or dropped once the calls and the shutdown are over. -/
theorem consumed_perm (hOver : w.IsOver) :
    w.consumed.Perm (w.parcels.map Parcel.ticket ++ dropped trace) := by
  cases capacity with
  | none =>
      obtain ⟨hDirect, hNone, -⟩ := h.fed
      rw [World.consumed, hDirect, dropped, hNone]
      exact .of_eq (List.append_nil _).symm
  | some capacity =>
      obtain ⟨t, hQueue, hRuns, hSends, -⟩ := h.fed
      rw [World.IsOver, hQueue] at hOver
      rw [World.consumed, hQueue, ← hSends]
      exact offers_perm hRuns hOver.1 hOver.2

/-- No two calls have one number. -/
theorem nodup_consumed : w.consumed.Nodup := by
  refine List.Nodup.of_map Prod.fst ?_
  cases capacity with
  | none =>
      obtain ⟨hDirect, -, hNumbers⟩ := h.fed
      rw [World.consumed, hDirect, List.map_map]
      exact hNumbers.symm ▸ List.nodup_range
  | some capacity =>
      obtain ⟨t, hQueue, -⟩ := h.fed
      rw [World.consumed, hQueue, map_fst_mapIdx]
      exact List.nodup_range

theorem accounts_eq : (w.exporters.exporter w.number).accounts = accountsOf w.parcels (dropped trace) := by
  obtain ⟨exporter, hExporter, hAccounts⟩ := Option.map_eq_some_iff.mp h.accounts
  rw [Exporters.exporter, List.getD_eq_getElem?_getD, hExporter]
  exact hAccounts

end Sound

/-- An exporter with a queue in memory or with none, whatever its settings, its destination, and the turns
that callers, workers, offers and the shutdown take. Once all calls and the shutdown are over, every batch
that was handed to it has met one of four ends: it was delivered, given up after an attempt, dropped by the
queue, or held up by a shutdown. The items of the first three are its accounts, so that the items of the
last are all that is missing; and the batches delivered are those whose last attempt was answered well. -/
theorem consumed_items_accounted_once (dest : Destination ε χ) (x : Exporters ε)
    (settings : ExportSettings) (capacity : Option Nat) {trace : List Event} {w : World ε χ}
    (hRuns : Runs dest (.opened x settings capacity) trace w) (hOver : w.IsOver) :
    w.consumed.Nodup ∧
    w.consumed.Perm (tickets Parcel.isDelivered w.parcels ++ (tickets Parcel.isFailed w.parcels ++
      tickets Parcel.isHeldUp w.parcels) ++ dropped trace) ∧
    (w.exporters.exporter w.number).accounts =
      ⟨items (tickets Parcel.isDelivered w.parcels), items (tickets Parcel.isFailed w.parcels),
        items (dropped trace)⟩ ∧
    items w.consumed = (w.exporters.exporter w.number).accounts.sent +
      (w.exporters.exporter w.number).accounts.failed +
      (w.exporters.exporter w.number).accounts.rejected + items (tickets Parcel.isHeldUp w.parcels) ∧
    ∀ p ∈ w.parcels, p.isDelivered = true ↔ p.answers.head? = some (.ok ()) := by
  have hSound := hRuns.sound
  have hEnded := hSound.ended_of_over hOver
  have hPerm := (hSound.consumed_perm hOver).trans ((tickets_perm hEnded).append_right (dropped trace))
  refine ⟨hSound.nodup_consumed, hPerm, hSound.accounts_eq, ?_, fun p hMem => ?_⟩
  · rw [items_perm hPerm, hSound.accounts_eq, items_append, items_append, items_append]
    dsimp only [accountsOf]
    omega
  · obtain ⟨outcome, hState⟩ := hEnded p hMem
    have hTells : Tells p.answers (.inr outcome : Sending χ ⊕ Outcome) :=
      hState ▸ (hSound.genuine p hMem).tells
    rw [Tells] at hTells
    rw [← hTells, Parcel.isDelivered, hState]
    cases outcome <;> simp

/-! ## A batch that is delivered and one that finds the queue full -/

/-- A destination that takes everything. -/
def up : Destination Unit Unit where
  begin _ _ _ _ := ((), ())
  canGo _ _ _ := true
  due _ := []
  turn _ _ tokens _ := (.inr (.ok ()), tokens, ())
  answered _ _ _ _ := ()
  stopped _ _ _ _ := ()

/-- One record. -/
def oneLog : Request := ⟨.logs, [⟨none, [⟨none, [default], ""⟩], ""⟩]⟩

/-- A new exporter, whose queue has one slot. -/
def opened : Exporters Unit := Exporters.add ⟨#[], [], ()⟩ .default

/-- That exporter with its queue and its parcels. -/
abbrev sharing (x : Exporters Unit) (t : Traffic Request) (ps : List (Parcel Unit)) : World Unit Unit :=
  ⟨x, 0, some t, ps⟩

theorem step_sharing {x x' : Exporters Unit} {t t' : Traffic Request} {ps : List (Parcel Unit)}
    {e : Passage Request} (hStep : Traffic.Step t e t') (hSame : underway t' = underway t)
    (hDropped : e.drops.foldl (fun x c => (Sending.rules up).dropped 0 c.2 x) x = x') :
    Step up (sharing x t ps) (.queue e) (sharing x' t' ps) := hDropped ▸ .tend rfl hStep hSame

/-- The exporter that has dropped a batch. -/
def refusing : Exporters Unit := opened.account 0 fun a => a.reject 1

/-- The queue after both offers, with the only worker at a stage. -/
def offered (size : Nat) (channel : List (Ticket Request)) (stage : WorkerStage Request) :
    Traffic Request :=
  ⟨⟨1, size, false, true, true, channel⟩, [(.accepted, oneLog), (.refused, oneLog)], [stage], .none⟩

/-- A queue of one slot is offered two batches before a worker looks at it. -/
theorem runs_offered : ∃ trace, Runs up (sharing opened (.empty 1) []) trace
    (sharing refusing (offered 1 [(0, oneLog)] .free) []) := by
  have hAccepted : Runs up (sharing opened (.empty 1) []) _
      (sharing opened ⟨⟨1, 1, false, true, true, [(0, oneLog)]⟩, [(.accepted, oneLog)], [.free], .none⟩
        []) := Runs.refl
    |>.step (step_sharing (.start 1 rfl rfl) rfl rfl)
    |>.step (step_sharing (.begin oneLog) rfl rfl)
    |>.step (step_sharing (@Traffic.Step.enter _ _ [] [] _ rfl rfl) rfl rfl)
    |>.step (step_sharing (@Traffic.Step.claim _ _ _ [] [] _ rfl rfl) rfl rfl)
    |>.step (step_sharing (@Traffic.Step.enqueue _ _ _ [] [] _ rfl rfl) rfl rfl)
  exact ⟨_, hAccepted
    |>.step (step_sharing (.begin oneLog) rfl rfl)
    |>.step (step_sharing (@Traffic.Step.enter _ _ [(.accepted, oneLog)] [] _ rfl rfl) rfl rfl)
    |>.step (step_sharing (@Traffic.Step.overflow _ _ [(.accepted, oneLog)] [] _ rfl rfl) rfl rfl)
    |>.step (step_sharing (@Traffic.Step.refuse _ _ [(.accepted, oneLog)] [] _ rfl) rfl rfl)⟩

/-- The only attempt. -/
def onlyAttempt : Sending Unit × Exporters Unit :=
  (Sending.fresh 0 0 oneLog).attempt up 0 (.start RetryPolicy.default 0) refusing

/-- The exporter that has delivered the other batch. -/
def delivering : Exporters Unit :=
  Exporters.account { onlyAttempt.2 with tokens := onlyAttempt.2.tokens.cancel 1 } 0 fun a =>
    a.enter 1 (.ok ())

theorem step_parcel {x x' : Exporters Unit} {t : Traffic Request} {s : Sending Unit}
    {state : Sending Unit ⊕ Outcome} {answers : List Outcome} {progress : Progress} {now : Nat}
    (hMove : Move up now s x progress (state, x')) :
    Step up (sharing x t [⟨(0, oneLog), answers, .inl s⟩]) (.moved (0, oneLog) progress)
      (sharing x' t [⟨(0, oneLog), progress.enter answers, state⟩]) :=
  @Step.move _ _ up (sharing x t _) [] [] ⟨(0, oneLog), answers, .inl s⟩ s progress state x' now rfl rfl
    hMove

/-- The worker sends the first batch. -/
theorem runs_delivered : ∃ trace, Runs up (sharing refusing (offered 1 [(0, oneLog)] .free) []) trace
    (sharing delivering (offered 0 [] .free) [⟨(0, oneLog), [.ok ()], .inr (.ok ())⟩]) := by
  have hReceived : Runs up (sharing refusing (offered 1 [(0, oneLog)] .free) []) _
      (sharing refusing (offered 1 [] (.received (0, oneLog))) []) := Runs.refl
    |>.step (step_sharing (@Traffic.Step.receive _ _ _ [] [] (0, oneLog) rfl rfl) rfl rfl)
  have hFirst : Step up (sharing refusing (offered 1 [] (.received (0, oneLog))) [])
      (.queue (.sent (0, oneLog))) (sharing refusing (offered 1 [] (.sending (0, oneLog)))
        [⟨(0, oneLog), [], .inl (.fresh 0 0 oneLog)⟩]) :=
    .send 0 rfl (@Traffic.Step.send _ _ [] [] (0, oneLog) rfl) rfl
  have hBegin : Move up 0 (.fresh 0 0 oneLog) refusing .begins (.inl onlyAttempt.1, onlyAttempt.2) :=
    .begin rfl
  have hAnswer := @Move.answer _ _ up 1 onlyAttempt.1 onlyAttempt.2 _
    ⟨0, some ⟨5000, 5000, 1⟩, ()⟩ _ _ _ rfl rfl 0
  have hDelivered : Runs up (sharing refusing (offered 1 [(0, oneLog)] .free) []) _
      (sharing delivering (offered 1 [] (.sending (0, oneLog)))
        [⟨(0, oneLog), [.ok ()], .inr (.ok ())⟩]) := hReceived
    |>.step hFirst
    |>.step (step_parcel hBegin)
    |>.step (step_parcel hAnswer)
  have hFinished : Step up (sharing delivering (offered 1 [] (.sending (0, oneLog)))
      [⟨(0, oneLog), [.ok ()], .inr (.ok ())⟩]) (.queue .quiet)
      (sharing delivering (offered 1 [] (.sent (0, oneLog))) [⟨(0, oneLog), [.ok ()], .inr (.ok ())⟩]) :=
    @Step.finish _ _ up (sharing delivering (offered 1 [] (.sending (0, oneLog))) [_])
      (offered 1 [] (.sending (0, oneLog))) [] [] ⟨(0, oneLog), [.ok ()], .inr (.ok ())⟩ _ rfl rfl
      (List.mem_singleton_self _) rfl
  exact ⟨_, hDelivered
    |>.step hFinished
    |>.step (step_sharing (@Traffic.Step.free _ _ [] [] (0, oneLog) rfl) rfl rfl)⟩

/-- The queue after the shutdown. -/
def closed : Traffic Request :=
  ⟨⟨1, 0, true, true, false, []⟩, [(.accepted, oneLog), (.refused, oneLog)], [.left], .over⟩

/-- The shutdown finds nothing to drop. -/
theorem runs_closed (x : Exporters Unit) (ps : List (Parcel Unit)) :
    ∃ trace, Runs up (sharing x (offered 0 [] .free) ps) trace (sharing x closed ps) :=
  ⟨_, Runs.refl
    |>.step (step_sharing (.stop rfl) rfl rfl)
    |>.step (step_sharing (.hangUp rfl) rfl rfl)
    |>.step (step_sharing (@Traffic.Step.leave _ _ _ [] [] rfl rfl) rfl rfl)
    |>.step (step_sharing (.drain rfl (by simp)) rfl rfl)
    |>.step (step_sharing (.conclude rfl) rfl rfl)⟩

/-- One item is entered as sent and one as rejected. -/
theorem consumed_items_accounted_once_refusing :
    ∃ (trace : List Event) (w : World Unit Unit), Runs up (.opened ⟨#[], [], ()⟩ .default (some 1)) trace w ∧
      w.IsOver ∧ w.consumed = [(0, oneLog), (1, oneLog)] ∧
      (w.exporters.exporter w.number).accounts = ⟨1, 0, 1⟩ ∧ items w.consumed = 1 + 0 + 1 + 0 := by
  obtain ⟨first, hOffered⟩ := runs_offered
  obtain ⟨second, hDelivered⟩ := runs_delivered
  obtain ⟨third, hClosed⟩ := runs_closed delivering [⟨(0, oneLog), [.ok ()], .inr (.ok ())⟩]
  have hRuns := (hOffered.trans hDelivered).trans hClosed
  have hOver : (sharing delivering closed [⟨(0, oneLog), [.ok ()], .inr (.ok ())⟩]).IsOver := by
    refine ⟨rfl, ?_⟩
    rintro o hMem
    simp [closed] at hMem
    rcases hMem with rfl | rfl
    · exact .inl rfl
    · exact .inr rfl
  obtain ⟨-, -, -, hItems, -⟩ := consumed_items_accounted_once up ⟨#[], [], ()⟩ .default (some 1) hRuns hOver
  exact ⟨_, _, hRuns, hOver, rfl, rfl, hItems⟩

end Telemetry.Accounting
