import Telemetry.Exporter.Sending
import Telemetry.Proofs.Queue.Sections

/-!
# Moves of a sending

What a sending may do next: begin an attempt, let the destination work, take its answer, end an attempt
that took too long, or end a wait. Where several things have happened any of them may be taken up, and
a wait may be of any length. One turn of a sending is one of its moves.

An attempt decides if it delivers the batch or is answered by an error that is permanent. With a policy
that sets no limit to the retries, and a context that is not cancelled, a sending ends with the answer
that decides, or with the shutdown that ended its wait.
-/

namespace Telemetry

/-! ## Tokens that are not cancelled -/

namespace Tokens

variable {ts : Tokens} {i : Nat}

/-- A token of its own that was not cancelled. -/
def IsLive (ts : Tokens) (i : Nat) : Prop := ts[i]? = some ⟨none, false⟩

theorem IsLive.lt_size (h : ts.IsLive i) : i < ts.size := by
  rw [IsLive, Array.getElem?_eq_some_iff] at h
  exact h.1

theorem IsLive.isCancelled_eq_false (h : ts.IsLive i) : ts.isCancelled i = false := by
  rw [IsLive] at h
  rw [isCancelled, h]
  rfl

theorem IsLive.push (h : ts.IsLive i) (t : Token) : IsLive (ts.push t) i := by
  rw [IsLive, Array.getElem?_push_lt h.lt_size]
  exact (Array.getElem?_eq_getElem h.lt_size).symm.trans h

theorem isLive_root (ts : Tokens) : ts.root.2.IsLive ts.root.1 := Array.getElem?_push_size

theorem IsLive.cancelAt (h : ts.IsLive i) {target : Nat} (hNe : i ≠ target) (j : Nat) :
    (cancelAt target ts j).IsLive i := by
  rw [Tokens.cancelAt]
  split
  · next hHit =>
    rw [IsLive, Array.getElem?_modify]
    split
    · next hEq =>
      rw [IsLive] at h
      simp [hEq, h, hNe] at hHit
    · exact h
  · exact h

/-- The cancellation of a token spares those that are not below it. -/
theorem IsLive.cancel (h : ts.IsLive i) {target : Nat} (hNe : i ≠ target) :
    (ts.cancel target).IsLive i := by
  rw [Tokens.cancel]
  generalize List.range' target (ts.size - target) = places
  induction places generalizing ts with
  | nil => exact h
  | cons j places ih => exact ih (h.cancelAt hNe j)

end Tokens

variable {ε χ : Type}

/-- A destination that cancels no token but those that were made for its attempts. -/
def Destination.Spares (dest : Destination ε χ) : Prop :=
  ∀ now work ts o i, Tokens.IsLive ts i → Tokens.IsLive (dest.turn now work ts o).2.1 i

/-- Whether an answer decides what becomes of a batch: it was delivered, or will never be. -/
def Outcome.isDecisive : Outcome → Bool
  | .ok () => true
  | .error e => e.isPermanent

/-- Whether the last answer, which is the first of the list, decides. -/
def decides (answers : List Outcome) : Bool := answers.head?.any Outcome.isDecisive

/-- Errors that only tell of a shutdown are not permanent. -/
theorem Outcome.isShutdown_of_isDecisive {outcome : Outcome} (h : outcome.isDecisive = true) :
    outcome.isShutdown = false := by
  cases outcome with
  | ok u => rfl
  | error e =>
      cases e with
      | shutdown cause | interrupted last => exact absurd h Bool.noConfusion
      | _ => rfl

/-! ## Exporters that do not give up -/

namespace Exporters

variable {x x' : Exporters ε} {n : Nat}

/-- An exporter keeps its settings and its context. -/
structure Alike (x' x : Exporters ε) (n : Nat) : Prop where
  settings : (x'.exporter n).settings = (x.exporter n).settings
  context : (x'.exporter n).context = (x.exporter n).context

theorem exporter_modify (x : Exporters ε) (n m : Nat) (f : Exporter → Exporter)
    (hSettings : ∀ e, (f e).settings = e.settings) (hContext : ∀ e, (f e).context = e.context) :
    Alike { x with exporters := x.exporters.modify m f } x n := by
  constructor <;> simp only [exporter, List.getD_eq_getElem?_getD, List.getElem?_modify]
  all_goals
    cases x.exporters[n]? with
    | none => rfl
    | some e => by_cases hEq : m = n <;> simp [hEq, hSettings, hContext]

theorem account_alike (x : Exporters ε) (n m : Nat) (f : ExportAccounts → ExportAccounts) :
    Alike (x.account m f) x n := exporter_modify x n m _ (fun _ => rfl) fun _ => rfl

theorem stop_alike (x : Exporters ε) (n m : Nat) : Alike (x.stop m) x n :=
  exporter_modify x n m _ (fun _ => rfl) fun _ => rfl

end Exporters

/-- Whether a policy repeats attempts for as long as it takes. -/
structure RetryPolicy.IsEndless (p : RetryPolicy) : Prop where
  enabled : p.enabled = true
  unlimited : p.maxElapsedTime = 0

/-- An exporter does not give up: its policy sets no limit, and its context is not cancelled. -/
structure Exporters.Endures (x : Exporters ε) (n : Nat) : Prop where
  policy : (x.exporter n).settings.retry.IsEndless
  live : x.tokens.IsLive (x.exporter n).context

theorem Exporters.Endures.congr {x x' : Exporters ε} {n : Nat} (h : x.Endures n)
    (hAlike : x'.Alike x n) (hLive : x'.tokens.IsLive (x.exporter n).context) : x'.Endures n where
  policy := by
    rw [hAlike.settings]
    exact h.policy
  live := by
    rw [hAlike.context]
    exact hLive

/-- An exporter that was just added. -/
theorem Exporters.endures_add (x : Exporters ε) {settings : ExportSettings}
    (hPolicy : settings.retry.IsEndless) : (x.add settings).Endures x.exporters.length := by
  have hOwn : (x.add settings).exporter x.exporters.length =
      ⟨settings, x.tokens.root.1, false, .zero⟩ := by
    rw [exporter, add, List.getD_eq_getElem?_getD, List.getElem?_concat_length]
    rfl
  constructor
  case policy =>
    rw [hOwn]
    exact hPolicy
  case live =>
    rw [hOwn]
    exact Tokens.isLive_root x.tokens

/-! ## Moves -/

/-- What shows of a move. -/
inductive Progress
  /-- An attempt begins. -/
  | begins
  /-- An attempt is over, with its outcome. -/
  | answers (outcome : Outcome)
  /-- Nothing shows. -/
  | works

/-- The outcomes of the attempts so far, the last first. -/
def Progress.enter : Progress → List Outcome → List Outcome
  | answers outcome, earlier => outcome :: earlier
  | _, earlier => earlier

/-- An attempt may end before its destination answers. -/
inductive Attempt.EndsWith (now : Nat) (tokens : Tokens) (a : Attempt χ) : ConsumeError → Prop
  | late {l : AttemptLimit} (hLimit : a.limit = some l) (hLate : l.deadline ≤ now) :
      EndsWith now tokens a (.timedOut l.length)
  | cancelled {l : AttemptLimit} (hLimit : a.limit = some l)
      (hCancelled : tokens.isCancelled a.context = true) : EndsWith now tokens a .cancelled

theorem Attempt.endsWith_of_interruption? {now : Nat} {tokens : Tokens} {a : Attempt χ}
    {e : ConsumeError} (h : a.interruption? now tokens = some e) : a.EndsWith now tokens e := by
  obtain ⟨l, hLimit, hEnd⟩ := Option.bind_eq_some_iff.mp h
  split at hEnd
  · next hLate => exact Option.some.inj hEnd ▸ .late hLimit hLate
  · split at hEnd
    · next hCancelled => exact Option.some.inj hEnd ▸ .cancelled hLimit hCancelled
    · exact absurd hEnd.symm (Option.some_ne_none _)

namespace Sending

/-- What may end a wait. -/
def Wakes (now wake : Nat) (s : Sending χ) (x : Exporters ε) : WaitEnd → Prop
  | .timer => wake ≤ now
  | .cancellation => x.tokens.isCancelled s.context = true
  | .shutdown => (x.exporter s.exporter).stopping = true

theorem wakes_of_waitEnd? {now wake : Nat} {s : Sending χ} {x : Exporters ε} {ending : WaitEnd}
    (h : s.waitEnd? now x wake = some ending) : s.Wakes now wake x ending := by
  rw [waitEnd?, Retry.waitEnd?] at h
  split at h
  · next hTimer => exact Option.some.inj h ▸ hTimer
  · split at h
    · next hCancelled => exact Option.some.inj h ▸ hCancelled
    · split at h
      · next hStopping => exact Option.some.inj h ▸ hStopping
      · exact absurd h.symm (Option.some_ne_none _)

/-- The policy a sending follows. -/
def policy (s : Sending χ) (x : Exporters ε) : RetryPolicy := (x.exporter s.exporter).settings.retry

/-- What a sending may do at a time. -/
inductive Move (dest : Destination ε χ) (now : Nat) (s : Sending χ) (x : Exporters ε) :
    Progress → (Sending χ ⊕ Outcome) × Exporters ε → Prop
  | begin (hStage : s.stage = .fresh) :
      Move dest now s x .begins (.inl (s.attempt dest now (.start (s.policy x) now) x).1,
        (s.attempt dest now (.start (s.policy x) now) x).2)
  | again {b : Backoff} (hStage : s.stage = .again b) :
      Move dest now s x .begins (.inl (s.attempt dest now b x).1, (s.attempt dest now b x).2)
  | work {b : Backoff} {a : Attempt χ} {work : χ} {tokens : Tokens} {o : ε}
      (hStage : s.stage = .attempting b a)
      (hTurn : dest.turn now a.work x.tokens x.outside = (.inl work, tokens, o)) :
      Move dest now s x .works (.inl { s with stage := .attempting b { a with work := work } },
        { x with tokens := tokens, outside := o })
  | answer {b : Backoff} {a : Attempt χ} {outcome : Outcome} {tokens : Tokens} {o : ε}
      (hStage : s.stage = .attempting b a)
      (hTurn : dest.turn now a.work x.tokens x.outside = (.inr outcome, tokens, o)) (wait : Nat) :
      Move dest now s x (.answers outcome)
        (s.proceed { x with tokens := a.release tokens, outside := o }
          (Retry.afterAttempt (s.policy x) now wait b outcome))
  | interrupt {b : Backoff} {a : Attempt χ} {e : ConsumeError} (hStage : s.stage = .attempting b a)
      (hEnd : a.EndsWith now x.tokens e) (wait : Nat) :
      Move dest now s x (.answers (.error e))
        (s.proceed { x with tokens := a.release x.tokens }
          (Retry.afterAttempt (s.policy x) now wait b (.error e)))
  | wake {last : ConsumeError} {wake : Nat} {b : Backoff} {ending : WaitEnd}
      (hStage : s.stage = .waiting last wake b) (hWakes : s.Wakes now wake x ending) :
      Move dest now s x .works (s.proceed x (Retry.afterWait last b ending))

/-- One turn of a sending leaves everything as it is, or is one of its moves. -/
theorem turn_eq_or_move (dest : Destination ε χ) (now : Nat) (s : Sending χ) (x : Exporters ε) :
    s.turn dest now x = (.inl s, x) ∨ ∃ p, Move dest now s x p (s.turn dest now x) := by
  rw [turn.eq_def]
  obtain ⟨exporter, context, request, stage⟩ := s
  cases stage with
  | fresh => exact .inr ⟨.begins, .begin rfl⟩
  | again b => exact .inr ⟨.begins, .again rfl⟩
  | attempting b a =>
      dsimp only
      by_cases hGo : dest.canGo now x.outside a.work = true
      · cases hTurn : dest.turn now a.work x.tokens x.outside with
        | mk result rest =>
            cases result with
            | inl work =>
                rw [Attempt.turn, if_pos hGo, hTurn]
                exact .inr ⟨.works, .work rfl hTurn⟩
            | inr outcome =>
                rw [Attempt.turn, if_pos hGo, hTurn]
                exact .inr ⟨.answers outcome, .answer rfl hTurn b.interval⟩
      · rw [Attempt.turn, if_neg hGo]
        cases hEnd : a.interruption? now x.tokens with
        | some e =>
            exact .inr ⟨.answers (.error e),
              .interrupt rfl (Attempt.endsWith_of_interruption? hEnd) b.interval⟩
        | none => exact .inl rfl
  | waiting last wake b =>
      dsimp only
      cases hEnd : waitEnd? now x ⟨exporter, context, request, .waiting last wake b⟩ wake with
      | none => exact .inl rfl
      | some ending => exact .inr ⟨.works, .wake rfl (wakes_of_waitEnd? hEnd)⟩

variable {dest : Destination ε χ} {now n : Nat} {s : Sending χ} {x x' : Exporters ε} {p : Progress}
  {y : (Sending χ ⊕ Outcome) × Exporters ε} {answers : List Outcome}

theorem proceed_alike (s : Sending χ) (hAlike : x'.Alike x n) (next : Retry ⊕ Outcome) :
    (s.proceed x' next).2.Alike x n := by
  cases next with
  | inl retry => cases retry <;> exact hAlike
  | inr outcome =>
      have hKept := x'.account_alike n s.exporter fun a => a.enter s.request.itemCount outcome
      exact ⟨hKept.settings.trans hAlike.settings, hKept.context.trans hAlike.context⟩

theorem proceed_tokens (s : Sending χ) (x : Exporters ε) (next : Retry ⊕ Outcome) :
    (s.proceed x next).2.tokens = x.tokens := by
  cases next with
  | inl retry => cases retry <;> rfl
  | inr outcome => rfl

theorem attempt_alike (dest : Destination ε χ) (now : Nat) (b : Backoff) (s : Sending χ)
    (x : Exporters ε) (n : Nat) : (s.attempt dest now b x).2.Alike x n := ⟨rfl, rfl⟩

/-- A move enters accounts at most. -/
theorem Move.alike (hMove : Move dest now s x p y) (n : Nat) : y.2.Alike x n := by
  cases hMove with
  | begin hStage => exact attempt_alike dest now (.start (s.policy x) now) s x n
  | @again b hStage => exact attempt_alike dest now b s x n
  | work hStage hTurn => exact ⟨rfl, rfl⟩
  | answer hStage hTurn wait | interrupt hStage hEnd wait | wake hStage hWakes =>
      refine proceed_alike s ?_ _
      exact ⟨rfl, rfl⟩

/-- A sending that is to begin does nothing else. -/
theorem Move.eq_begins (hMove : Move dest now s x p y) (hStage : s.stage = .fresh) : p = .begins := by
  cases hMove with
  | begin | again => rfl
  | work hOther | answer hOther | interrupt hOther | wake hOther =>
      rw [hStage] at hOther
      cases hOther

/-- No attempt of a sending works under a certain token. -/
def Apart (s : Sending χ) (i : Nat) : Prop :=
  ∀ b a, s.stage = .attempting b a → ∀ l, a.limit = some l → l.token ≠ i

/-- Only the token of the attempt that is over is cancelled. -/
theorem isLive_release {tokens : Tokens} {i : Nat} (hLive : tokens.IsLive i) {a : Attempt χ}
    (hApart : ∀ l, a.limit = some l → l.token ≠ i) : (a.release tokens).IsLive i := by
  rw [Attempt.release]
  cases hLimit : a.limit with
  | none => exact hLive
  | some l => exact hLive.cancel (hApart l hLimit).symm

theorem start_live (dest : Destination ε χ) (exporter timeout context : Nat) (r : Request)
    {tokens : Tokens} (o : ε) {i : Nat} (hLive : tokens.IsLive i) :
    (Attempt.start dest now exporter timeout context r tokens o).2.1.IsLive i ∧
      ∀ l, (Attempt.start dest now exporter timeout context r tokens o).1.limit = some l →
        l.token ≠ i := by
  rw [Attempt.start]
  split
  · exact ⟨hLive, fun l hLimit => absurd hLimit.symm (Option.some_ne_none l)⟩
  · refine ⟨hLive.push _, fun l hLimit hEq => ?_⟩
    cases hLimit
    exact absurd hLive.lt_size (by rw [← hEq]; exact Nat.lt_irrefl _)

/-- A move leaves the token of an exporter as it is. -/
theorem Move.live (hMove : Move dest now s x p y) (hSpares : dest.Spares) {i : Nat}
    (hApart : s.Apart i) (hLive : x.tokens.IsLive i) : y.2.tokens.IsLive i := by
  cases hMove with
  | begin hStage | again hStage => exact (start_live dest _ _ _ _ _ hLive).1
  | @work b a work tokens o hStage hTurn =>
      have hSpared := hSpares now a.work x.tokens x.outside i hLive
      rw [hTurn] at hSpared
      exact hSpared
  | @answer b a outcome tokens o hStage hTurn wait =>
      have hSpared := hSpares now a.work x.tokens x.outside i hLive
      rw [hTurn] at hSpared
      rw [proceed_tokens]
      exact isLive_release hSpared (hApart b a hStage)
  | @interrupt b a e hStage hEnd wait =>
      rw [proceed_tokens]
      exact isLive_release hLive (hApart b a hStage)
  | wake hStage hWakes =>
      rw [proceed_tokens]
      exact hLive

end Sending

/-! ## What an outcome says about the attempts -/

namespace Retry

variable {p : RetryPolicy} {outcome : Outcome} {e : ConsumeError}

/-- An answer that decides is the outcome. -/
theorem afterAttempt_of_isDecisive (h : outcome.isDecisive = true) (now wait : Nat) (b : Backoff) :
    afterAttempt p now wait b outcome = .inr outcome := by
  cases outcome with
  | ok u => rfl
  | error e =>
      have hPermanent : e.isPermanent = true := h
      rw [afterAttempt, hPermanent, Bool.or_true, if_pos rfl]

/-- Without a limit to the retries there is a wait after every other answer. -/
theorem afterAttempt_of_transient (hPolicy : p.IsEndless) (h : e.isPermanent = false)
    (now wait : Nat) (b : Backoff) :
    ∃ wake b', afterAttempt p now wait b (.error e) = .inl (.waiting e wake b') := by
  have hNext : b.next? p now wait = some { b with
      interval := min (Backoff.grow p.multiplier b.interval) (Backoff.nanoseconds p.maxInterval) } := by
    rw [Backoff.next?, if_neg fun hLate => hLate.1 hPolicy.unlimited]
  rw [afterAttempt, hPolicy.enabled, h, Bool.not_true, Bool.or_self, if_neg Bool.false_ne_true, hNext]
  exact ⟨_, _, rfl⟩

end Retry

/-- The outcome of a sending, whose attempts were answered like this, the last first: the last answer
decided, or it did not and a shutdown ended the wait that followed. -/
inductive Concludes (answers : List Outcome) : Outcome → Prop
  | decided {outcome : Outcome} (hLast : answers.head? = some outcome)
      (hDecisive : outcome.isDecisive = true) : Concludes answers outcome
  | interrupted {last : ConsumeError} (hLast : answers.head? = some (.error last))
      (hTransient : last.isPermanent = false) : Concludes answers (.error (.interrupted last))

/-- A sending that is over was held up by a shutdown exactly if the last answer did not decide. -/
theorem Concludes.isShutdown_eq {answers : List Outcome} {outcome : Outcome}
    (h : Concludes answers outcome) : outcome.isShutdown = !decides answers := by
  cases h with
  | decided hLast hDecisive =>
      rw [decides, hLast, Outcome.isShutdown_of_isDecisive hDecisive]
      exact (congrArg not hDecisive).symm
  | interrupted hLast hTransient =>
      rw [decides, hLast]
      exact (congrArg not hTransient).symm

theorem Concludes.decides_eq_true {answers : List Outcome} {outcome : Outcome}
    (h : Concludes answers outcome) (hOver : outcome.isShutdown = false) : decides answers = true := by
  rw [h.isShutdown_eq] at hOver
  simpa using hOver

namespace Sending

variable {dest : Destination ε χ} {now n : Nat} {s : Sending χ} {x x' : Exporters ε} {p : Progress}
  {y : (Sending χ ⊕ Outcome) × Exporters ε} {answers : List Outcome}

/-- A sending by an exporter, whose attempts were answered like this. -/
structure Sound (x : Exporters ε) (n : Nat) (answers : List Outcome) (s : Sending χ) : Prop where
  exporter : s.exporter = n
  apart : s.Apart (x.exporter n).context
  context : s.context = (x.exporter n).context
  last : ∀ e wake b, s.stage = .waiting e wake b →
    answers.head? = some (.error e) ∧ e.isPermanent = false

/-- How a sending stands, or how it has ended. -/
def Stands (x : Exporters ε) (n : Nat) (answers : List Outcome) : Sending χ ⊕ Outcome → Prop
  | .inl s => s.Sound x n answers
  | .inr outcome => Concludes answers outcome

theorem Stands.congr {state : Sending χ ⊕ Outcome} (h : Stands x n answers state)
    (hAlike : x'.Alike x n) : Stands x' n answers state := by
  cases state with
  | inl s =>
      have hSound : s.Sound x n answers := h
      exact ⟨hSound.exporter, hAlike.context ▸ hSound.apart, hAlike.context ▸ hSound.context,
        hSound.last⟩
  | inr outcome => exact h

theorem sound_fresh (x : Exporters ε) (n : Nat) (r : Request) :
    (fresh n (x.exporter n).context r : Sending χ).Sound x n [] :=
  ⟨rfl, by rintro _ _ ⟨⟩, rfl,
    by rintro _ _ _ ⟨⟩⟩

theorem Sound.attempt (h : s.Sound x n answers) (hEndures : x.Endures n) (b : Backoff) :
    (s.attempt dest now b x).1.Sound (s.attempt dest now b x).2 n answers where
  exporter := h.exporter
  apart := by
    rintro _ a ⟨⟩
    exact (start_live dest _ _ _ _ _ hEndures.live).2
  context := h.context
  last := by rintro _ _ _ ⟨⟩

/-- After an attempt comes a wait, unless its answer decides. -/
theorem Sound.afterAttempt (h : s.Sound x n answers) (hPolicy : (s.policy x).IsEndless)
    (hAlike : x'.Alike x n) (wait : Nat) (b : Backoff) (outcome : Outcome) :
    Stands (s.proceed x' (Retry.afterAttempt (s.policy x) now wait b outcome)).2 n
      (outcome :: answers) (s.proceed x' (Retry.afterAttempt (s.policy x) now wait b outcome)).1 := by
  cases hDecisive : outcome.isDecisive with
  | true =>
      rw [Retry.afterAttempt_of_isDecisive hDecisive]
      exact .decided rfl hDecisive
  | false =>
      cases outcome with
      | ok u => exact absurd hDecisive.symm Bool.noConfusion
      | error e =>
          obtain ⟨wake, b', hWait⟩ := Retry.afterAttempt_of_transient hPolicy hDecisive now wait b
          rw [hWait]
          refine Stands.congr (x := x) ?_ hAlike
          refine ⟨h.exporter, by rintro _ _ ⟨⟩, h.context, ?_⟩
          rintro _ _ _ ⟨⟩
          exact ⟨rfl, hDecisive⟩

/-- Every move of a sound sending leads to one, or to an outcome that tells of its attempts. -/
theorem Move.stands (hMove : Move dest now s x p y) (hEndures : x.Endures n)
    (h : s.Sound x n answers) : Stands y.2 n (p.enter answers) y.1 := by
  have hPolicy : (s.policy x).IsEndless := by
    rw [policy, h.exporter]
    exact hEndures.policy
  cases hMove with
  | begin hStage | again hStage => exact h.attempt hEndures _
  | @work b a work tokens o hStage hTurn =>
      refine Stands.congr (x := x) ?_ ⟨rfl, rfl⟩
      refine ⟨h.exporter, ?_, h.context, by rintro _ _ _ ⟨⟩⟩
      rintro _ _ ⟨⟩
      exact h.apart b a hStage
  | answer hStage hTurn wait | interrupt hStage hEnd wait =>
      refine h.afterAttempt hPolicy ?_ wait _ _
      exact ⟨rfl, rfl⟩
  | @wake last wake b ending hStage hWakes =>
      cases ending with
      | timer =>
          exact ⟨h.exporter, by rintro _ _ ⟨⟩, h.context,
            by rintro _ _ _ ⟨⟩⟩
      | cancellation =>
          have hLive := hEndures.live.isCancelled_eq_false
          rw [← h.context] at hLive
          exact absurd (hLive.symm.trans hWakes) Bool.noConfusion
      | shutdown =>
          obtain ⟨hLast, hTransient⟩ := h.last last wake b hStage
          exact .interrupted hLast hTransient

end Sending

end Telemetry
