import Telemetry.Proofs.Exporter.Retries
import Telemetry.Proofs.Failure.Leaves

/-!
# Sendings that do not oversleep

A sending goes by a clock of milliseconds, and sleeps until the millisecond in which its wait is over. If it
wakes up then and goes on at once, its attempts are the rounds that the policy allows. What a policy allows
is said of all rounds at once.
-/

namespace Telemetry

variable {ε χ : Type}

/-! ## Milliseconds and nanoseconds -/

namespace Backoff

theorem nanoseconds_add (a b : Nat) : nanoseconds (a + b) = nanoseconds a + nanoseconds b := Nat.add_mul a b _

/-- By a clock of milliseconds a wait ends in time just if it does when it is rounded up. -/
theorem after?_milliseconds (p : RetryPolicy) (elapsed wait : Nat) (b : Backoff) :
    b.after? p (nanoseconds elapsed) (nanoseconds (milliseconds wait)) =
      b.after? p (nanoseconds elapsed) wait := by
  have hLate : nanoseconds p.maxElapsedTime < nanoseconds elapsed + nanoseconds (milliseconds wait) ↔
      nanoseconds p.maxElapsedTime < nanoseconds elapsed + wait := by
    simp only [nanoseconds, milliseconds]
    omega
  simp only [after?, hLate]

theorem began_of_after? {p : RetryPolicy} {elapsed wait : Nat} {b b' : Backoff}
    (h : b.after? p elapsed wait = some b') : b'.began = b.began := by
  rw [after?] at h
  split at h
  · cases h
  · cases h
    rfl

end Backoff

namespace Retry

variable {p : RetryPolicy} {elapsed wait : Nat} {b b' : Backoff} {outcome : Outcome} {e : ConsumeError}

theorem verdict_milliseconds (p : RetryPolicy) (elapsed wait : Nat) (b : Backoff) (outcome : Outcome) :
    verdict p (Backoff.nanoseconds elapsed) (Backoff.nanoseconds (Backoff.milliseconds wait)) b outcome =
      verdict p (Backoff.nanoseconds elapsed) wait b outcome := by
  cases outcome with
  | ok u => rw [verdict, verdict]
  | error e => rw [verdict, verdict, Backoff.after?_milliseconds]

/-- Where an attempt leads to a wait, it has failed. -/
theorem error_of_verdict (h : verdict p elapsed wait b outcome = .inl (e, b')) :
    outcome = .error e ∧ b'.began = b.began := by
  cases outcome with
  | ok u => cases h
  | error e' =>
      rw [verdict] at h
      split at h
      · cases h
      · cases hAfter : b.after? p elapsed wait with
        | none =>
            rw [hAfter] at h
            cases h
        | some b'' =>
            rw [hAfter] at h
            cases h
            exact ⟨rfl, Backoff.began_of_after? hAfter⟩

end Retry

namespace Round

variable {p : RetryPolicy} {first now : Nat} {b b' : Backoff} {r : Round} {outcome : Outcome}
  {e : ConsumeError} {rounds : List Round} {tries : List Try}

theorem lead_of_verdict (h : Retry.verdict p (now + r.length) r.wait b r.outcome = .inr outcome) :
    r.lead p now b = .settled outcome := by
  rw [lead, h]

theorem lead_of_wait (h : Retry.verdict p (now + r.length) r.wait b r.outcome = .inl (e, b')) :
    r.lead p now b = (Retry.afterWait e b' r.ending).elim
      (fun _ => .ready (now + r.length + r.wait) b') .settled := by
  rw [lead, h]
  cases r.ending with
  | timer | cancellation | shutdown => rfl

theorem began_of_lead (h : r.lead p now b = .ready first b') : b'.began = b.began := by
  cases hVerdict : Retry.verdict p (now + r.length) r.wait b r.outcome with
  | inr outcome =>
      rw [lead_of_verdict hVerdict] at h
      cases h
  | inl failure =>
      rw [lead_of_wait hVerdict] at h
      cases hEnding : r.ending with
      | timer =>
          rw [hEnding] at h
          cases h
          exact (Retry.error_of_verdict hVerdict).2
      | cancellation | shutdown =>
          rw [hEnding] at h
          cases h

theorem began_of_course (h : course p first rounds = (tries, .ready now b)) : b.began = first := by
  induction rounds using List.reverseRecOn generalizing tries now b with
  | nil =>
      cases h
      rfl
  | append_singleton rounds r ih =>
      rw [course_concat] at h
      rcases hBefore : course p first rounds with ⟨before, ⟨now', b'⟩ | outcome⟩
      · rw [hBefore] at h
        have hLead : r.lead p now' b' = .ready now b := congrArg Prod.snd h
        exact (began_of_lead hLead).trans (ih hBefore)
      · rw [hBefore] at h
        cases h

theorem course_concat_of_ready (h : course p first rounds = (tries, .ready now b)) (r : Round) :
    course p first (rounds ++ [r]) = (tries ++ [⟨r, now⟩], r.lead p now b) := by
  rw [course_concat, h]
  rfl

/-- Where a round with a wait leads, whatever ends that wait. -/
theorem course_concat_of_wait (hCourse : course p first rounds = (tries, .ready now b))
    (hVerdict : Retry.verdict p (now + r.length) r.wait b r.outcome = .inl (e, b')) (ending : WaitEnd) :
    course p first (rounds ++ [{ r with ending := ending }]) =
      (tries ++ [⟨{ r with ending := ending }, now⟩],
        (Retry.afterWait e b' ending).elim (fun _ => .ready (now + r.length + r.wait) b') .settled) := by
  have hLead := lead_of_wait (r := { r with ending := ending }) hVerdict
  rw [course_concat_of_ready hCourse, hLead]

end Round

/-! ## Runs of one sending -/

/-- What is heard of an attempt, at a time. -/
inductive Heard
  | begins (now : Nat)
  /-- The attempt is over, and a wait is picked in case there is one. -/
  | answers (now : Nat) (outcome : Outcome) (wait : Nat)

/-- What is heard of a round. -/
def Try.heard (t : Try) : List Heard := [.begins t.began, .answers t.ended t.outcome t.wait]

namespace Sending

/-- One move of a sending. -/
structure Moment (ε χ : Type) where
  now : Nat
  /-- The sending before the move. -/
  sending : Sending χ
  /-- What surrounds the sending before the move. -/
  exporters : Exporters ε
  progress : Progress
  /-- The wait that is picked if an attempt is over. -/
  wait : Nat

/-- An attempt that is over is followed by what its outcome and the wait that is picked lead to. -/
def Moment.Picks (p : RetryPolicy) (m : Moment ε χ) (state : Sending χ ⊕ Outcome) : Prop :=
  ∀ b a outcome, m.sending.stage = .attempting b a → m.progress = .answers outcome →
    state = (m.sending.proceed m.exporters (Retry.afterAttempt p m.now m.wait b outcome)).1

/-- What is heard in a moment, in nanoseconds since the first attempt began. A wait lasts for whole
milliseconds. -/
def Moment.heard? (first : Nat) (m : Moment ε χ) : Option Heard :=
  match m.progress with
  | .works => none
  | .begins => some (.begins (Backoff.nanoseconds (m.now - first)))
  | .answers outcome => some (.answers (Backoff.nanoseconds (m.now - first)) outcome
      (Backoff.nanoseconds (Backoff.milliseconds m.wait)))

/-- The time of the last move. -/
def lastTime (trace : List (Moment ε χ)) : Nat := (trace.head?.map Moment.now).getD 0

/-- Whether a sending does not move too late: it does not oversleep, and begins an attempt as soon as its
wait is over. -/
def IsPunctual (s : Sending χ) (last now : Nat) : Prop :=
  match s.stage with
  | .fresh | .attempting .. => True
  | .again _ => now = last
  | .waiting _ wake _ => now ≤ wake

/-- What one sending does under a policy, the last move first, and how it stands after that. Between the
moves the surroundings may become anything else. -/
inductive Runs (dest : Destination ε χ) (p : RetryPolicy) (origin : Sending χ) :
    List (Moment ε χ) → Sending χ ⊕ Outcome → Prop
  | refl : Runs dest p origin [] (.inl origin)
  | step {trace : List (Moment ε χ)} {s : Sending χ} {x x' : Exporters ε} {now wait : Nat}
      {progress : Progress} {state : Sending χ ⊕ Outcome} (prior : Runs dest p origin trace (.inl s))
      (hPolicy : s.policy x = p) (hMove : Move dest now s x progress (state, x'))
      (hPicks : Moment.Picks p ⟨now, s, x, progress, wait⟩ state) (hLater : lastTime trace ≤ now)
      (hPunctual : s.IsPunctual (lastTime trace) now) :
      Runs dest p origin (⟨now, s, x, progress, wait⟩ :: trace) state

/-- What is heard of the attempts, the last first. -/
def heard (first : Nat) (trace : List (Moment ε χ)) : List Heard := trace.filterMap (Moment.heard? first)

/-- What is heard of rounds, the last first. -/
def echo (tries : List Try) : List Heard := (tries.flatMap Try.heard).reverse

/-- A wait during which the attempts came to an end was ended by what ends the wait of the last round. -/
def Explains (tries : List Try) (trace : List (Moment ε χ)) : Prop :=
  ∀ m ∈ trace.head?, ∀ e wake b, m.sending.stage = .waiting e wake b →
    ∃ t ∈ tries.getLast?, m.sending.Wakes m.now wake m.exporters t.ending

variable {dest : Destination ε χ} {p : RetryPolicy} {origin s s' : Sending χ} {x x' : Exporters ε}
  {now first wait : Nat} {trace : List (Moment ε χ)} {progress : Progress} {state : Sending χ ⊕ Outcome}

theorem proceed_state (s : Sending χ) (x x' : Exporters ε) (next : Retry ⊕ Outcome) :
    (s.proceed x next).1 = (s.proceed x' next).1 := by
  rcases next with (b | ⟨last, wake, b⟩) | outcome
  · rfl
  · rfl
  · rfl

/-- Some wait is picked in every move. -/
theorem Move.exists_picks {y : (Sending χ ⊕ Outcome) × Exporters ε} (hMove : Move dest now s x progress y) :
    ∃ wait, Moment.Picks (s.policy x) ⟨now, s, x, progress, wait⟩ y.1 := by
  cases hMove with
  | begin | again | work | wake => exact ⟨0, nofun⟩
  | answer hWorking hTurn wait | interrupt hWorking hEnd wait =>
      refine ⟨wait, ?_⟩
      rintro b a outcome hStage ⟨⟩
      cases hWorking.symm.trans hStage
      exact proceed_state s _ x _

/-- A run goes on with every move that does not come too late. -/
theorem Runs.exists_moment (prior : Runs dest p origin trace (.inl s)) (hPolicy : s.policy x = p)
    (hMove : Move dest now s x progress (state, x')) (hLater : lastTime trace ≤ now)
    (hPunctual : s.IsPunctual (lastTime trace) now) :
    ∃ wait, Runs dest p origin (⟨now, s, x, progress, wait⟩ :: trace) state := by
  obtain ⟨wait, hPicks⟩ := hMove.exists_picks
  rw [hPolicy] at hPicks
  exact ⟨wait, .step prior hPolicy hMove hPicks hLater hPunctual⟩

theorem echo_concat (tries : List Try) (t : Try) :
    echo (tries ++ [t]) = .answers t.ended t.outcome t.wait :: .begins t.began :: echo tries := by
  rw [echo, List.flatMap_append, List.reverse_append]
  rfl

/-- What ends a wait is not heard. -/
theorem echo_concat_ending (tries : List Try) (r : Round) (began : Nat) (ending : WaitEnd) :
    echo (tries ++ [⟨{ r with ending := ending }, began⟩]) = echo (tries ++ [⟨r, began⟩]) := by
  rw [echo_concat, echo_concat]
  rfl

/-- How the moves of a sending agree with rounds that are gone into. -/
inductive Agrees (p : RetryPolicy) (first : Nat) (trace : List (Moment ε χ)) :
    Sending χ ⊕ Outcome → Prop
  | attempting {s : Sending χ} {b : Backoff} {a : Attempt χ} {rounds : List Round} {tries : List Try}
      {began : Nat} (hStage : s.stage = .attempting b a) (hFirst : first ≤ began)
      (hBegan : began ≤ lastTime trace)
      (hCourse : Round.course p first rounds = (tries, .ready (Backoff.nanoseconds (began - first)) b))
      (hHeard : heard first trace = .begins (Backoff.nanoseconds (began - first)) :: echo tries) :
      Agrees p first trace (.inl s)
  | waiting {s : Sending χ} {e : ConsumeError} {wake began : Nat} {b b' : Backoff} {r : Round}
      {rounds : List Round} {tries : List Try} (hStage : s.stage = .waiting e wake b')
      (hFirst : first ≤ wake) (hCourse : Round.course p first rounds = (tries, .ready began b))
      (hVerdict : Retry.verdict p (began + r.length) r.wait b r.outcome = .inl (e, b'))
      (hWake : began + r.length + r.wait = Backoff.nanoseconds (wake - first))
      (hHeard : heard first trace = echo (tries ++ [⟨r, began⟩])) : Agrees p first trace (.inl s)
  | again {s : Sending χ} {b : Backoff} {rounds : List Round} {tries : List Try}
      (hStage : s.stage = .again b) (hFirst : first ≤ lastTime trace)
      (hCourse : Round.course p first rounds =
        (tries, .ready (Backoff.nanoseconds (lastTime trace - first)) b))
      (hHeard : heard first trace = echo tries) : Agrees p first trace (.inl s)
  | settled {outcome : Outcome} {rounds : List Round} {tries : List Try}
      (hCourse : Round.course p first rounds = (tries, .settled outcome))
      (hHeard : heard first trace = echo tries) (hExplains : Explains tries trace) :
      Agrees p first trace (.inr outcome)

/-- The first attempt begins a course. -/
theorem agrees_begin {a : Attempt χ} (hStage : s'.stage = .attempting (.start p now) a) (s : Sending χ)
    (x : Exporters ε) (wait : Nat) : Agrees p now [⟨now, s, x, .begins, wait⟩] (.inl s') := by
  have hCourse : Round.course p now [] = ([], .ready (Backoff.nanoseconds (now - now)) (.start p now)) := by
    rw [Nat.sub_self, Backoff.nanoseconds, Nat.zero_mul]
    rfl
  exact .attempting hStage (Nat.le_refl now) (Nat.le_refl now) hCourse rfl

/-- An attempt that is over ends its round, or is followed by a wait. -/
theorem agrees_afterAttempt {a : Attempt χ} {b : Backoff} {rounds : List Round} {tries : List Try}
    {began : Nat} (hStage : s.stage = .attempting b a) (hFirst : first ≤ began) (hBegan : began ≤ now)
    (hCourse : Round.course p first rounds = (tries, .ready (Backoff.nanoseconds (began - first)) b))
    (hHeard : heard first trace = .begins (Backoff.nanoseconds (began - first)) :: echo tries)
    (x : Exporters ε) (wait : Nat) (outcome : Outcome) :
    Agrees p first (⟨now, s, x, .answers outcome, wait⟩ :: trace)
      (s.proceed x (Retry.afterAttempt p now wait b outcome)).1 := by
  let r : Round := ⟨Backoff.nanoseconds (now - began), outcome,
    Backoff.nanoseconds (Backoff.milliseconds wait), .timer⟩
  have hElapsed : Backoff.nanoseconds (began - first) + r.length = Backoff.nanoseconds (now - first) := by
    rw [← Backoff.nanoseconds_add]
    congr 1
    omega
  have hVerdict : Retry.verdict p (Backoff.nanoseconds (now - b.began)) wait b outcome =
      Retry.verdict p (Backoff.nanoseconds (began - first) + r.length) r.wait b r.outcome := by
    rw [hElapsed, Round.began_of_course hCourse, Retry.verdict_milliseconds]
  have hHeard' : heard first (⟨now, s, x, .answers outcome, wait⟩ :: trace) =
      echo (tries ++ [⟨r, Backoff.nanoseconds (began - first)⟩]) := by
    rw [echo_concat, Try.ended, hElapsed, ← hHeard]
    rfl
  rw [Retry.afterAttempt_eq_verdict, hVerdict]
  cases hNext : Retry.verdict p (Backoff.nanoseconds (began - first) + r.length) r.wait b r.outcome with
  | inr outcome' =>
      have hRounds := Round.course_concat_of_ready hCourse r
      rw [Round.lead_of_verdict hNext] at hRounds
      refine .settled hRounds hHeard' ?_
      rintro m hMoment e wake b' hWaiting
      cases hMoment
      cases hStage.symm.trans hWaiting
  | inl failure =>
      refine .waiting (r := r) rfl ?_ hCourse hNext ?_ hHeard'
      · omega
      · rw [hElapsed, ← Backoff.nanoseconds_add]
        congr 1
        omega

/-- A wait that is over ends its round, or is followed by the next one. -/
theorem agrees_afterWait {e : ConsumeError} {wake began : Nat} {b b' : Backoff} {r : Round}
    {rounds : List Round} {tries : List Try} {ending : WaitEnd} (hStage : s.stage = .waiting e wake b')
    (hFirst : first ≤ wake) (hCourse : Round.course p first rounds = (tries, .ready began b))
    (hVerdict : Retry.verdict p (began + r.length) r.wait b r.outcome = .inl (e, b'))
    (hWake : began + r.length + r.wait = Backoff.nanoseconds (wake - first))
    (hHeard : heard first trace = echo (tries ++ [⟨r, began⟩]))
    (hWakes : s.Wakes now wake x ending) (hNow : now ≤ wake) (wait : Nat) :
    Agrees p first (⟨now, s, x, .works, wait⟩ :: trace) (s.proceed x (Retry.afterWait e b' ending)).1 := by
  have hRounds := Round.course_concat_of_wait hCourse hVerdict ending
  have hHeard' : heard first (⟨now, s, x, .works, wait⟩ :: trace) =
      echo (tries ++ [⟨{ r with ending := ending }, began⟩]) := by
    rw [echo_concat_ending]
    exact hHeard
  have hExplains : Explains (tries ++ [⟨{ r with ending := ending }, began⟩])
      (⟨now, s, x, .works, wait⟩ :: trace) := by
    intro m hMoment e' wake' b'' hWaiting
    cases hMoment
    cases hStage.symm.trans hWaiting
    exact ⟨_, List.getLast?_concat, hWakes⟩
  cases ending with
  | timer =>
      cases Nat.le_antisymm hNow hWakes
      rw [hWake] at hRounds
      exact .again rfl hFirst hRounds hHeard'
  | cancellation | shutdown => exact .settled hRounds hHeard' hExplains

/-- Every move of a sending that does not oversleep agrees with its rounds. -/
theorem Agrees.move {y : (Sending χ ⊕ Outcome) × Exporters ε} (h : Agrees p first trace (.inl s))
    (hMove : Move dest now s x progress y) (hPicks : Moment.Picks p ⟨now, s, x, progress, wait⟩ y.1)
    (hLater : lastTime trace ≤ now) (hPunctual : s.IsPunctual (lastTime trace) now) :
    Agrees p first (⟨now, s, x, progress, wait⟩ :: trace) y.1 := by
  cases hMove with
  | begin hFresh =>
      cases h with
      | attempting hStage | waiting hStage | again hStage => cases hFresh.symm.trans hStage
  | @again b hAgain =>
      cases h with
      | attempting hStage | waiting hStage => cases hAgain.symm.trans hStage
      | again hStage hFirst hCourse hHeard =>
          cases hAgain.symm.trans hStage
          have hNow : now = lastTime trace := by
            rw [IsPunctual, hAgain] at hPunctual
            exact hPunctual
          subst hNow
          refine .attempting rfl hFirst (Nat.le_refl _) hCourse ?_
          rw [← hHeard]
          rfl
  | work hWorking hTurn =>
      cases h with
      | attempting hStage hFirst hBegan hCourse hHeard =>
          cases hWorking.symm.trans hStage
          exact .attempting rfl hFirst (hBegan.trans hLater) hCourse hHeard
      | waiting hStage | again hStage => cases hWorking.symm.trans hStage
  | answer hWorking | interrupt hWorking =>
      cases h with
      | attempting hStage hFirst hBegan hCourse hHeard =>
          cases hWorking.symm.trans hStage
          rw [hPicks _ _ _ hWorking rfl]
          exact agrees_afterAttempt hWorking hFirst (hBegan.trans hLater) hCourse hHeard x wait _
      | waiting hStage | again hStage => cases hWorking.symm.trans hStage
  | @wake e wake b ending hWaiting hWakes =>
      cases h with
      | attempting hStage | again hStage => cases hWaiting.symm.trans hStage
      | waiting hStage hFirst hCourse hVerdict hWake hHeard =>
          cases hWaiting.symm.trans hStage
          rw [IsPunctual, hWaiting] at hPunctual
          exact agrees_afterWait hWaiting hFirst hCourse hVerdict hWake hHeard hWakes hPunctual wait

/-- A sending that has begun agrees with rounds from its first attempt on. -/
theorem Runs.agrees (hRuns : Runs dest p origin trace state) (hFresh : origin.stage = .fresh) :
    trace = [] ∧ state = .inl origin ∨ ∃ first, Agrees p first trace state := by
  induction hRuns with
  | refl => exact .inl ⟨rfl, rfl⟩
  | @step trace s x x' now wait progress state prior hPolicy hMove hPicks hLater hPunctual ih =>
      rcases ih with ⟨rfl, hOrigin⟩ | ⟨first, hAgrees⟩
      · cases hOrigin
        generalize hResult : (state, x') = y at hMove
        have hState : state = y.1 := congrArg Prod.fst hResult
        refine .inr ⟨now, hState ▸ ?_⟩
        cases hMove with
        | begin hStage =>
            rw [hPolicy]
            exact agrees_begin rfl origin x wait
        | again hOther | work hOther | answer hOther | interrupt hOther | wake hOther =>
            cases hFresh.symm.trans hOther
      · exact .inr ⟨first, hAgrees.move hMove hPicks hLater hPunctual⟩

/-- What shows of a sending that does not oversleep: it has gone into rounds that its policy allows, and may
have begun the attempt of one more. -/
inductive Heeds (p : RetryPolicy) (first : Nat) (trace : List (Moment ε χ)) : Sending χ ⊕ Outcome → Prop
  | ready {s : Sending χ} {rounds : List Round} {tries : List Try} {now : Nat} {b : Backoff}
      (hCourse : Round.course p first rounds = (tries, .ready now b))
      (hHeard : heard first trace = echo tries ∨ heard first trace = .begins now :: echo tries) :
      Heeds p first trace (.inl s)
  | settled {outcome : Outcome} {rounds : List Round} {tries : List Try}
      (hCourse : Round.course p first rounds = (tries, .settled outcome))
      (hHeard : heard first trace = echo tries) (hExplains : Explains tries trace) :
      Heeds p first trace (.inr outcome)

theorem Agrees.heeds (h : Agrees p first trace state) : Heeds p first trace state := by
  cases h with
  | attempting hStage hFirst hBegan hCourse hHeard => exact .ready hCourse (.inr hHeard)
  | @waiting s e wake began b b' r rounds tries hStage hFirst hCourse hVerdict hWake hHeard =>
      -- The wait may still be ended by its timer.
      have hRounds := Round.course_concat_of_wait hCourse hVerdict .timer
      refine .ready hRounds (.inl ?_)
      rw [echo_concat_ending]
      exact hHeard
  | again hStage hFirst hCourse hHeard => exact .ready hCourse (.inl hHeard)
  | settled hCourse hHeard hExplains => exact .settled hCourse hHeard hExplains

theorem Runs.heeds (hRuns : Runs dest p origin trace state) (hFresh : origin.stage = .fresh) :
    ∃ first, Heeds p first trace state := by
  rcases hRuns.agrees hFresh with ⟨rfl, rfl⟩ | ⟨first, hAgrees⟩
  · have hCourse : Round.course p 0 [] = ([], .ready 0 (.start p 0)) := rfl
    exact ⟨0, .ready hCourse (.inl rfl)⟩
  · exact ⟨first, hAgrees.heeds⟩

/-- Whatever the attempts of a batch answer, however long they and the waits between them take and whatever
ends those waits, the attempts are made one after the other as their policy says. The last one decides
whether the batch was delivered. A sending that does not oversleep makes just such attempts. -/
theorem attempts_follow_policy {ε χ : Type} (dest : Destination ε χ) (p : RetryPolicy) :
    (∀ first rounds tries standing, Round.course p first rounds = (tries, standing) →
      Round.Followed p rounds tries standing ∧
        (∀ before t after, tries = before ++ t :: after → t.outcome.isDecisive = true → after = []) ∧
        (standing = .settled (.ok ()) ↔ ∃ t, tries.getLast? = some t ∧ t.outcome = .ok ()) ∧
        (∀ e, p.maxElapsedTime = 0 → standing = .settled (.error (.exhausted e)) →
          ∃ t, tries.getLast? = some t ∧ t.outcome = .error (.exhausted e)) ∧
        (p.enabled = false → rounds ≠ [] → ∃ t, tries = [t] ∧ standing = .settled t.outcome)) ∧
      (∀ es, (ConsumeError.joined es).isPermanent = es.any ConsumeError.isPermanent) ∧
      (∀ e, (ConsumeError.exhausted e).isPermanent = true) ∧
      ∀ n context r trace state, Runs dest p (.fresh n context r) trace state →
        ∃ first, Heeds p first trace state := by
  refine ⟨?policy, fun _ => ConsumeError.isPermanent_joined, fun _ => rfl, ?runs⟩
  case runs => exact fun _ _ _ _ _ hRuns => hRuns.heeds rfl
  case policy =>
    intro first rounds tries standing hCourse
    have hFollowed : Round.Followed p rounds tries standing := by
      have hAll := Round.followed_course p first rounds
      rw [hCourse] at hAll
      exact hAll
    refine ⟨hFollowed, fun _ _ _ => hFollowed.nil_of_isDecisive, hFollowed.eq_ok_iff, ?unlimited, ?disabled⟩
    case unlimited =>
      rintro e hUnlimited rfl
      cases hLast : tries.getLast? with
      | none =>
          obtain ⟨-, b, hReady⟩ := hFollowed.none (List.getLast?_eq_none_iff.mp hLast)
          cases hReady
      | some t => exact ⟨t, rfl, (hFollowed.last t hLast).outcome_of_exhausted hUnlimited⟩
    case disabled =>
      intro hDisabled hSome
      cases rounds with
      | nil => exact absurd rfl hSome
      | cons r rest =>
          rw [Round.course_of_disabled hDisabled] at hCourse
          cases hCourse
          exact ⟨_, rfl, rfl⟩

/-! ## A wait that a shutdown ends -/

/-- A destination that cannot be reached for the time being. -/
def unreachable : Destination Unit Unit where
  begin _ _ _ _ := ((), ())
  canGo _ _ _ := true
  due _ := []
  turn _ _ tokens _ := (.inr (.error (.transient "unreachable")), tokens, ())
  answered _ _ _ _ := ()
  stopped _ _ _ _ := ()

/-- An exporter with the default policy that sets no limit to an attempt. -/
def unhurried : Exporters Unit := Exporters.add ⟨#[], [], ()⟩ { ExportSettings.default with timeout := 0 }

/-- The only attempt. -/
def onlyAttempt : Sending Unit × Exporters Unit :=
  (fresh 0 0 ⟨.logs, []⟩).attempt unreachable 0 (.start .default 0) unhurried

/-- The wait for a second attempt. -/
def onlyWait : Sending Unit :=
  ⟨0, 0, ⟨.logs, []⟩, .waiting (.transient "unreachable") 5001
    { Backoff.start .default 0 with
      interval := min (Backoff.grow RetryPolicy.default.multiplier (Backoff.start .default 0).interval)
        (Backoff.nanoseconds RetryPolicy.default.maxInterval) }⟩

/-- An attempt, its answer, and the end of the wait after it. -/
def cutShort : List (Moment Unit Unit) :=
  [⟨2, onlyWait, unhurried.stop 0, .works, 0⟩,
    ⟨1, onlyAttempt.1, onlyAttempt.2, .answers (.error (.transient "unreachable")), Backoff.nanoseconds 5000⟩,
    ⟨0, fresh 0 0 ⟨.logs, []⟩, unhurried, .begins, 0⟩]

theorem runs_cutShort : Runs unreachable .default (fresh 0 0 ⟨.logs, []⟩) cutShort
    (.inr (.error (.interrupted (.transient "unreachable")))) := by
  have hBegun : Runs unreachable .default _ (cutShort.drop 2) (.inl onlyAttempt.1) :=
    .step .refl rfl (.begin rfl) nofun (Nat.le_refl 0) trivial
  have hAnswer := @Move.answer _ _ unreachable 1 onlyAttempt.1 onlyAttempt.2 _ ⟨0, none, ()⟩ _ _ _ rfl rfl
    (Backoff.nanoseconds 5000)
  have hAnswered : Runs unreachable .default (fresh 0 0 ⟨.logs, []⟩) (cutShort.drop 1) (.inl onlyWait) := by
    refine .step hBegun rfl hAnswer ?_ (by decide) trivial
    rintro b a outcome ⟨⟩ ⟨⟩
    rfl
  have hShutdown : onlyWait.Wakes 2 5001 (unhurried.stop 0) .shutdown := rfl
  exact .step hAnswered rfl (.wake rfl hShutdown) nofun (by decide) (show 2 ≤ 5001 by decide)

/-- An attempt is made at once, and the wait after its failure is ended by a shutdown. -/
theorem attempts_follow_policy_interrupted :
    heard 0 cutShort = [.answers 1000000 (.error (.transient "unreachable")) 5000000000, .begins 0] ∧
      ∃ first, Heeds .default first cutShort (.inr (.error (.interrupted (.transient "unreachable")))) :=
  ⟨rfl, (attempts_follow_policy unreachable .default).2.2.2 _ _ _ _ _ runs_cutShort⟩

end Sending

end Telemetry
