import Telemetry.Proofs.Queue.Leftovers
import Telemetry.Proofs.Queue.Redelivery
import Telemetry.Proofs.Queue.Representation

/-!
# The order in which batches are handed out

What was handed out, followed by what waits, is what was accepted, as long as nothing is left for a
start to append. A start finds what waits first and then what was listed as being sent, and hands all of
that out before anything that is accepted later.
-/

namespace Telemetry.Queue

open Storage (Access Space)
open Text (Bytes)

variable {β : Type} {codec : Codec β} {admits : β → Prop} {tears : Bool} {s t : Space}
  {r wi wi' : UInt64} {ds : List UInt64} {bs : List β} {q q' : PersistentQueue}
  {trace : List (Event β)} {w w' : World β Space} {e : Event β}

/-- The item that a step hands to a worker. -/
def Event.handsOut : Event β → List (UInt64 × β)
  | claimed i b => [(i, b)]
  | _ => []

/-- The batch that a step accepts. -/
def Event.takesIn : Event β → List β
  | accepted b => [b]
  | _ => []

/-- The items that workers were handed, the first one first. -/
def handouts (trace : List (Event β)) : List (UInt64 × β) := trace.reverse.flatMap Event.handsOut

/-- The batches that were accepted, the first one first. -/
def acceptances (trace : List (Event β)) : List β := trace.reverse.flatMap Event.takesIn

/-- Whether a queue starts. -/
def Event.isStart : Event β → Bool
  | started _ => true
  | _ => false

/-- Whether a step neither kills the process nor ends a sending that a shutdown held up. -/
def Event.isClean : Event β → Bool
  | ended _ _ outcome => !outcome.isShutdown
  | e => !e.isDeath

theorem handouts_cons (e : Event β) (trace : List (Event β)) :
    handouts (e :: trace) = handouts trace ++ e.handsOut := by
  rw [handouts, List.reverse_cons, List.flatMap_append, List.flatMap_singleton]
  rfl

theorem acceptances_cons (e : Event β) (trace : List (Event β)) :
    acceptances (e :: trace) = acceptances trace ++ e.takesIn := by
  rw [acceptances, List.reverse_cons, List.flatMap_append, List.flatMap_singleton]
  rfl

theorem Event.nothing_of_isDeath (h : e.isDeath = true) : e.handsOut = [] ∧ e.takesIn = [] := by
  cases e <;> first | exact ⟨rfl, rfl⟩ | exact absurd h Bool.noConfusion

theorem Event.nothing_of_isStart (h : e.isStart = true) : e.handsOut = [] ∧ e.takesIn = [] := by
  cases e <;> first | exact ⟨rfl, rfl⟩ | exact absurd h Bool.noConfusion

theorem Event.isDeath_of_isClean (h : e.isClean = true) : e.isDeath = false := by
  cases e <;> first | rfl | exact absurd h Bool.noConfusion

/-- Without a sending that a shutdown held up nothing stays listed for another queue. -/
theorem interrupted_of_isClean (h : ∀ e ∈ trace, e.isClean = true) : interrupted trace = [] := by
  induction trace with
  | nil => rfl
  | cons e rest ih =>
      obtain ⟨hFirst, hRest⟩ := List.forall_mem_cons.mp h
      cases e with
      | started answer => rfl
      | ended i b outcome =>
          have hOver : outcome.isShutdown = false := by simpa [Event.isClean] using hFirst
          rw [interrupted, if_neg (by simp [hOver])]
          exact ih hRest
      | _ => exact ih hRest

/-- The batches between two indices, in order; none is missing. -/
def Waiting (codec : Codec β) (s : Space) (r wi : UInt64) (bs : List β) : Prop :=
  (window r wi).map (batchAt codec s) = bs.map some

namespace Waiting

theorem congr (h : Waiting codec s r wi bs)
    (hSame : ∀ i ∈ window r wi, t.get? (itemKey i) = s.get? (itemKey i)) :
    Waiting codec t r wi bs :=
  (List.map_congr_left fun i hMem => batchAt_congr (hSame i hMem)).trans h

theorem put (hCodec : ∀ b, admits b → codec.unmarshal? (codec.marshal b) = some b)
    (h : Waiting codec s r wi bs) (hOrdered : r ≤ wi) (hRoom : wi.toNat + 1 < 2 ^ 64) {b : β}
    (hAdmitted : admits b) :
    Waiting codec (afterPut s wi (codec.marshal b)) r (wi + 1) (bs ++ [b]) := by
  have hOld : Waiting codec (afterPut s wi (codec.marshal b)) r wi bs := by
    refine h.congr fun i hMem => ?_
    have hNe : i ≠ wi := fun hEq => UInt64.lt_irrefl wi (hEq ▸ (mem_window.mp hMem).2)
    rw [get?_afterPut, if_neg hNe]
  have hNew : batchAt codec (afterPut s wi (codec.marshal b)) wi = some b := by
    rw [batchAt, get?_afterPut, if_pos rfl, Option.bind_some, hCodec b hAdmitted]
  rw [Waiting, window_append_last hOrdered hRoom, List.map_append, hOld, List.map_singleton, hNew,
    List.map_append, List.map_singleton]

theorem claim (h : Waiting codec s r wi bs) (hSome : r < wi) {b : β}
    (hBatch : batchAt codec s r = some b) (ds : List UInt64) :
    ∃ rest, bs = b :: rest ∧ Waiting codec (afterClaim s r ds) (r + 1) wi rest := by
  rw [Waiting, window_eq_cons hSome, List.map_cons, hBatch] at h
  cases bs with
  | nil => exact absurd h (by simp)
  | cons c rest =>
      obtain ⟨hFirst, hRest⟩ := List.cons.inj h
      obtain rfl := Option.some.inj hFirst
      have hLater : Waiting codec s (r + 1) wi rest := hRest
      exact ⟨rest, rfl, hLater.congr fun i _ => get?_afterClaim s r ds i⟩

/-- No index that waits is without a batch. -/
theorem ne_none (h : Waiting codec s r wi bs) (hSome : r < wi) : batchAt codec s r ≠ none := by
  intro hNone
  rw [Waiting, window_eq_cons hSome, List.map_cons, hNone] at h
  cases bs with
  | nil => exact absurd h (by simp)
  | cons c rest => exact absurd (List.cons.inj h).1.symm (Option.some_ne_none c)

end Waiting

theorem map_eq_of_isSome {α : Type} {f : α → Option β} {xs : List α}
    (h : ∀ x ∈ xs, (f x).isSome = true) : xs.map f = (xs.filterMap f).map some := by
  induction xs with
  | nil => rfl
  | cons x rest ih =>
      obtain ⟨hFirst, hRest⟩ := List.forall_mem_cons.mp h
      obtain ⟨b, hb⟩ := Option.isSome_iff_exists.mp hFirst
      rw [List.map_cons, List.filterMap_cons_some hb, List.map_cons, ih hRest, hb]

/-! ## Steps of one queue -/

theorem Step.running_of_isLocal {σ : Type} {setup : Setup β σ} {w w' : World β σ}
    (h : Step setup w e w') (hLocal : e.isLocal = true) : ∃ q, w.running = some q := by
  cases h <;> first | exact ⟨_, ‹_›⟩ | exact absurd hLocal Bool.noConfusion

theorem Step.not_running_of_isDeath {σ : Type} {setup : Setup β σ} {w w' : World β σ}
    (h : Step setup w e w') (hDeath : e.isDeath = true) : w'.running = none := by
  cases h <;> first | rfl | exact absurd hDeath Bool.noConfusion

/-- What a step has handed out and what waits after it is what waited before, in order, and what the step
has taken in. -/
def Advances (codec : Codec β) (q : PersistentQueue) (bs : List β) (e : Event β)
    (w' : World β Space) : Prop :=
  ∃ q' rest, w'.running = some q' ∧ Waiting codec w'.storage q'.readIndex q'.writeIndex rest ∧
    e.handsOut.map Prod.snd ++ rest = bs ++ e.takesIn ∧
    window 0 q'.readIndex = window 0 q.readIndex ++ e.handsOut.map Prod.fst

/-- Most steps neither hand a batch out nor take one in. -/
theorem Advances.of_quiet (hWaiting : Waiting codec s q.readIndex q.writeIndex bs)
    (hRunning : w'.running = some q') (hOut : e.handsOut = []) (hIn : e.takesIn = [])
    (hRead : q'.readIndex = q.readIndex) (hWrite : q'.writeIndex = q.writeIndex)
    (hSame : ∀ i ∈ window q.readIndex q.writeIndex,
      w'.storage.get? (itemKey i) = s.get? (itemKey i)) :
    Advances codec q bs e w' := by
  refine ⟨q', bs, hRunning, ?_, ?_, ?_⟩
  · rw [hRead, hWrite]
    exact hWaiting.congr hSame
  · rw [hOut, hIn, List.map_nil, List.nil_append, List.append_nil]
  · rw [hOut, hRead, List.map_nil, List.append_nil]

/-- A step of a queue hands out the first batch that waits, or lets one more wait at the end. -/
theorem Balanced.advances
    (hCodec : ∀ b, admits b → codec.unmarshal? (codec.marshal b) = some b)
    (h : Balanced codec admits trace w) (hWords : w.FitsWords)
    (hStep : Step (Setup.ofSpace codec admits tears) w e w') (hLocal : e.isLocal = true)
    (hRunning : w.running = some q)
    (hWaiting : Waiting codec w.storage q.readIndex q.writeIndex bs) :
    Advances codec q bs e w' := by
  have hSame : ∀ {p}, w.running = some p → p = q := fun hp =>
    Option.some.inj (hp.symm.trans hRunning)
  have hServed := h.served q hRunning
  cases h.effect hStep with
  | start => exact absurd hLocal Bool.noConfusion
  | death hDeath =>
      cases e <;> first | exact absurd hDeath Bool.noConfusion | exact absurd hLocal Bool.noConfusion
  | @put p b hOwn hAdmitted hRoom =>
      obtain rfl := hSame hOwn
      have hLast : p.writeIndex.toNat + 1 < 2 ^ 64 := by
        have hBound := (hWords p hOwn).1
        omega
      refine ⟨p.grown (p.writeIndex + 1) 1, bs ++ [b], rfl, ?_, rfl, ?_⟩
      · exact hWaiting.put hCodec hServed.books.ordered hLast hAdmitted
      · exact (List.append_nil _).symm
  | @claim p b hOwn hCalled hOpen hSome hBatch =>
      obtain rfl := hSame hOwn
      have hLt := hServed.books.lt_of_ne hSome
      obtain ⟨rest, rfl, hRest⟩ := hWaiting.claim hLt hBatch p.dispatched
      refine ⟨_, rest, rfl, hRest, (List.append_nil _).symm, ?_⟩
      have hRoom := toNat_succ_of_lt hLt
      have hBound := (p.readIndex + 1).toNat_lt
      exact window_append_last (UInt64.le_iff_toNat_le.mpr (Nat.zero_le _)) (by omega)
  | @pass p hOwn hCalled hSome hBatch =>
      obtain rfl := hSame hOwn
      exact absurd hBatch (hWaiting.ne_none (hServed.books.lt_of_ne hSome))
  | @settle p before after i b outcome hOwn hCarried hMem =>
      obtain rfl := hSame hOwn
      refine .of_quiet hWaiting rfl rfl rfl rfl rfl fun j hj => ?_
      have hListed : i ∈ p.dispatched :=
        hServed.team.mem_dispatched (List.mem_append_left (interrupted trace) hMem)
      have hNe : j ≠ i := by
        rintro rfl
        exact absurd (mem_window.mp hj).1 (UInt64.not_le.mpr (hServed.books.below j hListed))
      exact (get?_afterRemoval w.storage p.dispatched i j).trans (if_neg hNe)
  | @refuse p b error hOwn =>
      exact .of_quiet hWaiting hRunning rfl rfl rfl rfl fun _ _ => rfl
  | @call p p' hOwn hOpen hPermit =>
      obtain rfl := hSame hOwn
      have hAgrees := takePermit_agrees hPermit
      exact .of_quiet hWaiting rfl rfl rfl hAgrees.readIndex hAgrees.writeIndex fun _ _ => rfl
  | wake hOwn | miss hOwn | keep hOwn | retire hOwn | stop hOwn | dismiss hOwn | detach hOwn
  | rest hOwn =>
      obtain rfl := hSame hOwn
      exact .of_quiet hWaiting rfl rfl rfl rfl rfl fun _ _ => rfl

/-! ## Starts -/

/-- What waits after a start: what waited before, and then what was listed, in order. -/
theorem Recovered.waiting (h : Recovered codec s r wi ds t wi') (hLayout : Layout s r wi ds)
    (hFull : Full codec s r wi ds)
    (hAgain : ∀ b ∈ ds.filterMap (batchAt codec s), codec.unmarshal? (codec.marshal b) = some b) :
    (window r wi ++ ds).map (batchAt codec s) =
        ((window r wi ++ ds).filterMap (batchAt codec s)).map some ∧
      Waiting codec t r wi' ((window r wi ++ ds).filterMap (batchAt codec s)) := by
  have hFound := map_eq_of_isSome hFull
  refine ⟨hFound, ?_⟩
  have hOld : (window r wi).map (batchAt codec t) = (window r wi).map (batchAt codec s) :=
    List.map_congr_left fun i hMem => batchAt_congr (h.get?_of_waiting hLayout.below hMem)
  have hNew : (window wi wi').map (batchAt codec t) = ds.map (batchAt codec s) := by
    have hListed := map_eq_of_isSome fun i hMem => hFull i (List.mem_append_right (window r wi) hMem)
    calc (window wi wi').map (batchAt codec t)
        = ((window wi wi').map fun i => t.get? (itemKey i)).map fun v => v.bind codec.unmarshal? := by
          rw [List.map_map]
          rfl
      _ = (ds.filterMap (batchAt codec s)).map fun b => codec.unmarshal? (codec.marshal b) := by
          rw [h.items, List.map_map]
          rfl
      _ = (ds.filterMap (batchAt codec s)).map some := List.map_congr_left hAgain
      _ = ds.map (batchAt codec s) := hListed.symm
  rw [Waiting, ← window_append hLayout.ordered h.le, List.map_append, hOld, hNew, ← List.map_append,
    hFound]

/-! ## Runs -/

/-- A run begins with its first step. -/
theorem Runs.first {σ : Type} {setup : Setup β σ} {within : World β σ → Prop} {origin w : World β σ}
    (hRuns : Runs setup within origin (trace ++ [e]) w) :
    ∃ w₁, Step setup origin e w₁ ∧ Runs setup within w₁ trace w := by
  induction trace generalizing w with
  | nil =>
      cases hRuns with
      | step prior hWithin last =>
          cases prior
          exact ⟨w, last, .refl⟩
  | cons last rest ih =>
      cases hRuns with
      | step prior hWithin hLast =>
          obtain ⟨w₁, hFirst, hRest⟩ := ih prior
          exact ⟨w₁, hFirst, .step hRest hWithin hLast⟩

/-- Up to the next start a queue hands out what it found, and then what it accepted. -/
theorem Balanced.run_handouts {origin : World β Space} {earlier : List (Event β)}
    (hCodec : ∀ b, admits b → codec.unmarshal? (codec.marshal b) = some b)
    (h : Balanced codec admits earlier origin)
    (hWaiting : ∀ q, origin.running = some q →
      Waiting codec origin.storage q.readIndex q.writeIndex bs)
    (hRuns : Runs (Setup.ofSpace codec admits tears) World.FitsWords origin trace w)
    (hNone : ∀ e ∈ trace, e.isStart = false) :
    ∃ rest, (handouts trace).map Prod.snd ++ rest = bs ++ acceptances trace ∧
      ∀ q, w.running = some q → Waiting codec w.storage q.readIndex q.writeIndex rest := by
  induction hRuns with
  | refl => exact ⟨bs, (List.append_nil bs).symm, hWaiting⟩
  | @step trace w w' e prior hWords last ih =>
      obtain ⟨hHere, hBefore⟩ := List.forall_mem_cons.mp hNone
      obtain ⟨rest, hOrder, hRest⟩ := ih hBefore
      cases hDeath : e.isDeath with
      | true =>
          obtain ⟨hOut, hIn⟩ := Event.nothing_of_isDeath hDeath
          refine ⟨rest, ?_, fun q hRunning => ?_⟩
          · rw [handouts_cons, acceptances_cons, hOut, hIn, List.append_nil, List.append_nil, hOrder]
          · rw [last.not_running_of_isDeath hDeath] at hRunning
            exact absurd hRunning.symm (Option.some_ne_none q)
      | false =>
          have hLocal : e.isLocal = true := by
            cases e <;> first | rfl | exact absurd hHere.symm Bool.noConfusion |
              exact absurd hDeath.symm Bool.noConfusion
          obtain ⟨q, hRunning⟩ := last.running_of_isLocal hLocal
          obtain ⟨q', later, hRunning', hLater, hMoved, -⟩ :=
            (h.run hCodec prior).advances hCodec hWords last hLocal hRunning (hRest q hRunning)
          refine ⟨later, ?_, fun p hp => ?_⟩
          · rw [handouts_cons, acceptances_cons, List.map_append, List.append_assoc, hMoved,
              ← List.append_assoc, hOrder, List.append_assoc]
          · obtain rfl : p = q' := Option.some.inj (hp.symm.trans hRunning')
            exact hLater

/-- What holds in a run without deaths and without sendings that a shutdown held up. -/
structure InOrder (codec : Codec β) (trace : List (Event β)) (w : World β Space) : Prop where
  fresh : w.running = none → w = .idle []
  order : ∃ rest, (handouts trace).map Prod.snd ++ rest = acceptances trace ∧
    ∀ r wi ds, Records w.storage r wi ds →
      Waiting codec w.storage r wi rest ∧ (handouts trace).map Prod.fst = window 0 r

theorem inOrder_empty (codec : Codec β) : InOrder codec [] (World.idle []) where
  fresh := fun _ => rfl
  order := by
    refine ⟨[], rfl, fun r wi ds hRecords => ?_⟩
    have hEmpty := (Books.empty codec fun _ => True).toRecords
    obtain ⟨rfl, rfl, rfl⟩ := hEmpty.unique hRecords
    exact ⟨rfl, rfl⟩

/-- Whoever starts after a clean shutdown finds nothing listed. -/
theorem Balanced.listed_eq_nil (h : Balanced codec admits trace w) (hFree : w.IsFree)
    (hFresh : w.running = none → w = .idle []) (hClean : interrupted trace = [])
    (hRecords : Records w.storage r wi ds) : ds = [] := by
  cases hRunning : w.running with
  | none =>
      rw [hFresh hRunning] at hRecords
      exact (hRecords.unique (Books.empty codec fun _ => True).toRecords).2.2.symm
  | some q =>
      have hServed := h.served q hRunning
      obtain ⟨-, -, rfl⟩ := hServed.books.toRecords.unique hRecords
      have hCarried := hServed.team.parted (by rw [hFree q hRunning]; rfl)
      have hListed := hServed.team.listed
      rw [hCarried, hClean] at hListed
      exact List.perm_nil.mp hListed

theorem InOrder.step (hCodec : ∀ b, admits b → codec.unmarshal? (codec.marshal b) = some b)
    (hBalanced : Balanced codec admits trace w) (h : InOrder codec trace w)
    (hClean : ∀ e ∈ trace, e.isClean = true) (hHere : e.isClean = true) (hWords : w.FitsWords)
    (hStep : Step (Setup.ofSpace codec admits tears) w e w') : InOrder codec (e :: trace) w' := by
  obtain ⟨rest, hOrder, hRest⟩ := h.order
  cases hStart : e.isStart with
  | false =>
      have hLocal : e.isLocal = true := by
        have hAlive := Event.isDeath_of_isClean hHere
        cases e <;> first | rfl | exact absurd hStart.symm Bool.noConfusion |
          exact absurd hAlive.symm Bool.noConfusion
      obtain ⟨q, hRunning⟩ := hStep.running_of_isLocal hLocal
      have hRecords := (hBalanced.served q hRunning).books.toRecords
      obtain ⟨hWaiting, hIndices⟩ := hRest _ _ _ hRecords
      obtain ⟨q', later, hRunning', hLater, hMoved, hRead⟩ :=
        hBalanced.advances hCodec hWords hStep hLocal hRunning hWaiting
      have hRecords' := ((hBalanced.step hCodec hWords hStep).served q' hRunning').books.toRecords
      refine ⟨fun hNone => ?_, later, ?_, fun r wi ds hSame => ?_⟩
      · rw [hRunning'] at hNone
        exact absurd hNone (Option.some_ne_none q')
      · rw [handouts_cons, acceptances_cons, List.map_append, List.append_assoc, hMoved,
          ← List.append_assoc, hOrder]
      · obtain ⟨rfl, rfl, rfl⟩ := hRecords'.unique hSame
        refine ⟨hLater, ?_⟩
        rw [handouts_cons, List.map_append, hIndices, hRead]
  | true =>
      have hEffect := hBalanced.effect hStep
      obtain ⟨hOut, hIn⟩ := Event.nothing_of_isStart hStart
      cases hStep with
      | start hNew hFree number hRun =>
          cases hEffect with
          | death hDeath => exact absurd hDeath Bool.noConfusion
          | @start q r wi wi' ds t hNew number hLayout hRecovered =>
              obtain rfl := hBalanced.listed_eq_nil hFree h.fresh (interrupted_of_isClean hClean)
                hLayout.toRecords
              obtain ⟨hWaiting, hIndices⟩ := hRest _ _ _ hLayout.toRecords
              obtain rfl : wi = wi' := UInt64.toNat_inj.mp hRecovered.count.symm
              have hLater := hWaiting.congr fun i hMem =>
                hRecovered.get?_of_waiting hLayout.below hMem
              refine ⟨fun hNone => absurd hNone (Option.some_ne_none _), rest, ?_,
                fun r' wi' ds' hSame => ?_⟩
              · rw [handouts_cons, acceptances_cons, hOut, hIn, List.append_nil, List.append_nil, hOrder]
              · obtain ⟨rfl, rfl, rfl⟩ := hRecovered.records.unique hSame
                refine ⟨hLater, ?_⟩
                rw [handouts_cons, hOut, List.append_nil, hIndices]
      | _ => exact absurd hStart Bool.noConfusion

theorem Runs.inOrder (hCodec : ∀ b, admits b → codec.unmarshal? (codec.marshal b) = some b)
    (hRuns : Runs (Setup.ofSpace codec admits tears) World.FitsWords (.idle []) trace w)
    (hClean : ∀ e ∈ trace, e.isClean = true) : InOrder codec trace w := by
  induction hRuns with
  | refl => exact inOrder_empty codec
  | step prior hWords last ih =>
      obtain ⟨hHere, hBefore⟩ := List.forall_mem_cons.mp hClean
      exact (ih hBefore).step hCodec (prior.balanced hCodec) hBefore hHere hWords last

/-- Queues on storage that carries out every batch of operations, and as a whole. In every run of queues
that start one after the other on nothing, are shut down cleanly and have no sending held up by it, the
batches handed out are a prefix of those accepted, and have indices of their own in ascending order.
Whatever queues left to a start, be it that their process died, even while it started, or that a
shutdown held sendings up: until the next start the batches handed out are first those from the read
index to the write index, then those listed as being sent, none missing, and then those accepted since. -/
theorem handed_out_in_order
    (hCodec : ∀ b, admits b → codec.unmarshal? (codec.marshal b) = some b) :
    (∀ (trace : List (Event β)) (w : World β Space),
      Runs (Setup.ofSpace codec admits false) World.FitsWords (.idle []) trace w →
      (∀ e ∈ trace, e.isClean = true) →
      (handouts trace).map Prod.snd <+: acceptances trace ∧
        ∃ n, (handouts trace).map Prod.fst = window 0 n) ∧
    ∀ origin : World β Space, Left codec admits origin.storage →
      ∃ r wi ds found, Records origin.storage r wi ds ∧
        (window r wi ++ ds).map (batchAt codec origin.storage) = found.map some ∧
        ∀ (trace : List (Event β)) (answer : Except QueueError Unit) (w : World β Space),
          Runs (Setup.ofSpace codec admits false) World.FitsWords origin
            (trace ++ [.started answer]) w →
          (∀ e ∈ trace, e.isStart = false) →
          answer = .ok () ∧ (handouts trace).map Prod.snd <+: found ++ acceptances trace := by
  constructor
  · intro trace w hRuns hClean
    obtain ⟨rest, hOrder, hRest⟩ := (hRuns.inOrder hCodec hClean).order
    obtain ⟨r, wi, ds, hBooks⟩ := (hRuns.balanced hCodec).books
    exact ⟨⟨rest, hOrder⟩, r, (hRest r wi ds hBooks.toRecords).2⟩
  · intro origin hLeft
    obtain ⟨r, wi, ds, hIntact⟩ := hLeft.intact hCodec
    obtain ⟨earlier, hBooks⟩ := hIntact.books
    have hAgain : ∀ b ∈ ds.filterMap (batchAt codec origin.storage),
        codec.unmarshal? (codec.marshal b) = some b := by
      intro b hMem
      obtain ⟨i, -, hBatch⟩ := List.mem_filterMap.mp hMem
      exact hCodec b (hBooks.round_trip hCodec hBatch).1
    refine ⟨r, wi, ds, _, hIntact.toRecords, map_eq_of_isSome hIntact.full, ?_⟩
    intro trace answer w hRuns hNone
    obtain ⟨w₁, hFirst, hLater⟩ := hRuns.first
    obtain ⟨hAnswer, hOrder⟩ : answer = .ok () ∧ ∃ rest, (handouts trace).map Prod.snd ++ rest =
        (window r wi ++ ds).filterMap (batchAt codec origin.storage) ++ acceptances trace := by
      cases hFirst with
      | start hNew hFree number hRun =>
          have hBelow : ∀ i ∈ ds, i < wi := fun i hi =>
            UInt64.lt_of_lt_of_le (hIntact.below i hi) hIntact.ordered
          obtain ⟨wi', t, hStart, hRecovered⟩ := PersistentQueue.run_start codec number _
            hIntact.toRecords hIntact.ordered hBelow hIntact.words
          cases hStart.symm.trans hRun
          have hServed := hBooks.begin hCodec hNew hRecovered number
            (ds.filterMap (batchAt codec origin.storage)).length
          have hWaiting := (hRecovered.waiting hIntact.toLayout hIntact.full hAgain).2
          obtain ⟨rest, hOrder, -⟩ := (hServed.balanced rfl).run_handouts hCodec
            (by rintro q ⟨⟩; exact hWaiting) hLater hNone
          exact ⟨rfl, rest, hOrder⟩
    exact ⟨hAnswer, hOrder⟩

/-- The batch that is handed out after the process has died comes before one that is accepted then. -/
theorem handed_out_in_order_recovered :
    (handouts ([.claimed 0 [7], .quiet, .quiet, .accepted [7], .started (.ok ())] :
        List (Event Bytes))).map Prod.snd <+: [[7]] ∧
      ∃ r wi ds found, Records oneClaimed r wi ds ∧
        (window r wi ++ ds).map (batchAt Codec.plain oneClaimed) = found.map some ∧
        [[7]] <+: found ++ [[8]] := by
  have hInOrder := @handed_out_in_order Bytes Codec.plain (fun _ => True) fun _ _ => rfl
  refine ⟨(hInOrder.1 _ _ runs_oneClaimed (by decide)).1, ?_⟩
  have hLeft : Left Codec.plain (fun _ => True) oneClaimed := .run .empty runs_oneClaimed
  obtain ⟨r, wi, ds, found, hRecords, hFound, hLater⟩ := hInOrder.2 (.idle oneClaimed) hLeft
  have hStarted : Runs Setup.plain World.FitsWords (.idle oneClaimed) [.started (.ok ())]
      oneRecovered :=
    .step .refl (by rintro q ⟨⟩) (.start (PersistentQueue.unstarted_empty 5) (by rintro q ⟨⟩) 1 rfl)
  have hStored : Runs Setup.plain World.FitsWords (.idle oneClaimed)
      [.accepted [8], .started (.ok ())]
      ⟨afterPut oneRecovered.storage 2 [8], some (secondQueue.grown 3 1), 1, 0, []⟩ :=
    .step hStarted (by rintro q ⟨⟩; decide) (.offer rfl trivial rfl)
  have hCalled : ∃ w, Runs Setup.plain World.FitsWords (.idle oneClaimed)
      [.claimed 1 [7], .quiet, .accepted [8], .started (.ok ())] w :=
    ⟨_, .step (.step hStored (by rintro q ⟨⟩; decide) (.call rfl rfl rfl))
      (by rintro q ⟨⟩; decide) (.claim rfl (by decide) rfl)⟩
  obtain ⟨w, hRuns⟩ := hCalled
  exact ⟨r, wi, ds, found, hRecords, hFound,
    (hLater [.claimed 1 [7], .quiet, .accepted [8]] _ w hRuns (by decide)).2⟩

end Telemetry.Queue
