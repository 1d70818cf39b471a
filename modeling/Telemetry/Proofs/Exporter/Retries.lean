import Mathlib.Data.List.Chain
import Telemetry.Proofs.Exporter.Moves

/-!
# The attempts of a batch

Attempts are made in rounds. A round has an attempt of any length and outcome, a wait of any length, and
what ends that wait. How many rounds are needed, and how the last of them ends, is decided by the outcomes,
by the policy and by the time that has gone by. Here time is in nanoseconds since the first attempt began,
and a wait that is not cut short is as long as it was picked.
-/

namespace Telemetry

/-! ## Decisions by the time that has gone by -/

namespace Backoff

/-- What is known after a wait that begins so many nanoseconds after the first attempt; nothing if the wait
would end too late. -/
def after? (p : RetryPolicy) (elapsed wait : Nat) (b : Backoff) : Option Backoff :=
  if p.maxElapsedTime ≠ 0 ∧ nanoseconds p.maxElapsedTime < elapsed + wait then none
  else some { b with interval := min (grow p.multiplier b.interval) (nanoseconds p.maxInterval) }

theorem next?_eq_after? (p : RetryPolicy) (now wait : Nat) (b : Backoff) :
    b.next? p now wait = b.after? p (nanoseconds (now - b.began)) wait := rfl

end Backoff

namespace Retry

/-- What an attempt leads to that ends so many nanoseconds after the first one began: a wait because of an
error, or an outcome. -/
def verdict (p : RetryPolicy) (elapsed wait : Nat) (b : Backoff) :
    Outcome → (ConsumeError × Backoff) ⊕ Outcome
  | .ok () => .inr (.ok ())
  | .error e =>
    if !p.enabled || e.isPermanent then .inr (.error e)
    else
      match b.after? p elapsed wait with
      | none => .inr (.error (.exhausted e))
      | some b => .inl (e, b)

/-- What follows an attempt is decided by the time that has gone by. -/
theorem afterAttempt_eq_verdict (p : RetryPolicy) (now wait : Nat) (b : Backoff) (outcome : Outcome) :
    afterAttempt p now wait b outcome =
      match verdict p (Backoff.nanoseconds (now - b.began)) wait b outcome with
      | .inl (e, b) => .inl (.waiting e (now + Backoff.milliseconds wait) b)
      | .inr outcome => .inr outcome := by
  cases outcome with
  | ok u => rfl
  | error e =>
      rw [afterAttempt, verdict, Backoff.next?_eq_after?]
      split
      · rfl
      · rcases b.after? p (Backoff.nanoseconds (now - b.began)) wait with _ | b'
        · rfl
        · rfl

end Retry

/-! ## Rounds -/

/-- An attempt and the wait that may follow it. -/
structure Round where
  /-- How long the attempt takes. -/
  length : Nat
  outcome : Outcome
  /-- The wait that is picked. -/
  wait : Nat
  /-- What ends the wait. -/
  ending : WaitEnd

/-- A round that was gone into. -/
structure Try extends Round where
  /-- When its attempt began. -/
  began : Nat

/-- When the attempt of a round ended. -/
def Try.ended (t : Try) : Nat := t.began + t.length

/-- How far the attempts of a batch have come. -/
inductive Standing
  /-- The next attempt begins at a time. -/
  | ready (now : Nat) (backoff : Backoff)
  /-- The attempts are over. -/
  | settled (outcome : Outcome)

namespace Round

/-- Where a round leads that begins at a time. -/
def lead (p : RetryPolicy) (now : Nat) (b : Backoff) (r : Round) : Standing :=
  match Retry.verdict p (now + r.length) r.wait b r.outcome with
  | .inr outcome => .settled outcome
  | .inl (e, b) =>
    match Retry.afterWait e b r.ending with
    | .inr outcome => .settled outcome
    | .inl _ => .ready (now + r.length + r.wait) b

/-- Goes into one more round, unless the attempts are over. -/
def enter (p : RetryPolicy) : List Try × Standing → Round → List Try × Standing
  | (tries, .settled outcome), _ => (tries, .settled outcome)
  | (tries, .ready now b), r => (tries ++ [⟨r, now⟩], r.lead p now b)

/-- The rounds that are gone into, in order, and how far the attempts have come after them. -/
def course (p : RetryPolicy) (first : Nat) (rounds : List Round) : List Try × Standing :=
  rounds.foldl (enter p) ([], .ready 0 (.start p first))

theorem course_concat (p : RetryPolicy) (first : Nat) (rounds : List Round) (r : Round) :
    course p first (rounds ++ [r]) = enter p (course p first rounds) r := by
  rw [course, List.foldl_append]
  rfl

end Round

/-! ## How a round ends -/

namespace Try

variable {p : RetryPolicy} {t t' : Try} {e : ConsumeError} {standing : Standing}

/-- The attempt failed with an error that may pass, and may be repeated. -/
structure Fails (p : RetryPolicy) (t : Try) (e : ConsumeError) : Prop where
  outcome : t.outcome = .error e
  transient : e.isPermanent = false
  enabled : p.enabled = true

/-- The wait would end later than a limit that is not zero. -/
def Exceeds (p : RetryPolicy) (t : Try) : Prop :=
  p.maxElapsedTime ≠ 0 ∧ Backoff.nanoseconds p.maxElapsedTime < t.ended + t.wait

instance (p : RetryPolicy) (t : Try) : Decidable (t.Exceeds p) :=
  inferInstanceAs (Decidable (_ ∧ _))

/-- How a round ends: with the answer of its attempt, with the limit, or with its wait. -/
inductive Ends (p : RetryPolicy) (t : Try) : Standing → Prop
  | delivered (hOutcome : t.outcome = .ok ()) : Ends p t (.settled (.ok ()))
  | permanent {e : ConsumeError} (hOutcome : t.outcome = .error e) (hPermanent : e.isPermanent = true) :
      Ends p t (.settled (.error e))
  | disabled {e : ConsumeError} (hOutcome : t.outcome = .error e) (hDisabled : p.enabled = false) :
      Ends p t (.settled (.error e))
  | exhausted {e : ConsumeError} (hFails : t.Fails p e) (hExceeds : t.Exceeds p) :
      Ends p t (.settled (.error (.exhausted e)))
  | cancelled {e : ConsumeError} (hFails : t.Fails p e) (hWaits : ¬ t.Exceeds p)
      (hEnding : t.ending = .cancellation) : Ends p t (.settled (.error .cancelled))
  | interrupted {e : ConsumeError} (hFails : t.Fails p e) (hWaits : ¬ t.Exceeds p)
      (hEnding : t.ending = .shutdown) : Ends p t (.settled (.error (.interrupted e)))
  | repeated {e : ConsumeError} (hFails : t.Fails p e) (hWaits : ¬ t.Exceeds p)
      (hEnding : t.ending = .timer) (b : Backoff) : Ends p t (.ready (t.ended + t.wait) b)

theorem after?_of_exceeds {now : Nat} {r : Round} (h : Exceeds p ⟨r, now⟩) (b : Backoff) :
    b.after? p (now + r.length) r.wait = none := if_pos h

theorem after?_of_not_exceeds {now : Nat} {r : Round} (h : ¬ Exceeds p ⟨r, now⟩) (b : Backoff) :
    ∃ b', b.after? p (now + r.length) r.wait = some b' := ⟨_, if_neg h⟩

theorem ends_lead (p : RetryPolicy) (now : Nat) (b : Backoff) (r : Round) :
    Ends p ⟨r, now⟩ (r.lead p now b) := by
  cases hOutcome : r.outcome with
  | ok u =>
      rw [Round.lead, hOutcome]
      exact .delivered hOutcome
  | error e =>
      rw [Round.lead, hOutcome, Retry.verdict]
      by_cases hEnabled : p.enabled = true
      · by_cases hPermanent : e.isPermanent = true
        · rw [hPermanent, Bool.or_true, if_pos rfl]
          exact .permanent hOutcome hPermanent
        · have hTransient : e.isPermanent = false := Bool.not_eq_true _ ▸ hPermanent
          have hFails : Fails p ⟨r, now⟩ e := ⟨hOutcome, hTransient, hEnabled⟩
          rw [hEnabled, hTransient, Bool.not_true, Bool.or_self, if_neg Bool.false_ne_true]
          by_cases hExceeds : Exceeds p ⟨r, now⟩
          · rw [after?_of_exceeds hExceeds]
            exact .exhausted hFails hExceeds
          · obtain ⟨b', hWait⟩ := after?_of_not_exceeds hExceeds b
            rw [hWait]
            cases hEnding : r.ending with
            | timer => exact .repeated hFails hExceeds hEnding _
            | cancellation => exact .cancelled hFails hExceeds hEnding
            | shutdown => exact .interrupted hFails hExceeds hEnding
      · have hDisabled : p.enabled = false := Bool.not_eq_true _ ▸ hEnabled
        rw [hDisabled, Bool.not_false, Bool.true_or, if_pos rfl]
        exact .disabled hOutcome hDisabled

/-- A round is followed by another one. -/
def Leads (p : RetryPolicy) (t t' : Try) : Prop := ∃ b, t.Ends p (.ready t'.began b)

/-- The attempts are over with a delivery just if this is how the last round ended. -/
theorem Ends.eq_ok_iff (h : t.Ends p standing) : standing = .settled (.ok ()) ↔ t.outcome = .ok () := by
  cases h with
  | delivered hOutcome => exact iff_of_true rfl hOutcome
  | permanent hOutcome | disabled hOutcome => simp [hOutcome]
  | exhausted hFails | cancelled hFails | interrupted hFails | repeated hFails =>
      simp [hFails.outcome]

/-- An attempt whose outcome decides ends the attempts with that outcome. -/
theorem Ends.eq_settled_of_isDecisive (h : t.Ends p standing) (hDecisive : t.outcome.isDecisive = true) :
    standing = .settled t.outcome := by
  cases h with
  | delivered hOutcome | permanent hOutcome | disabled hOutcome => rw [hOutcome]
  | exhausted hFails | cancelled hFails | interrupted hFails | repeated hFails =>
      rw [hFails.outcome] at hDecisive
      exact absurd (hFails.transient.symm.trans hDecisive) Bool.noConfusion

theorem Ends.eq_settled_of_disabled (h : t.Ends p standing) (hDisabled : p.enabled = false) :
    standing = .settled t.outcome := by
  cases h with
  | delivered hOutcome | permanent hOutcome | disabled hOutcome => rw [hOutcome]
  | exhausted hFails | cancelled hFails | interrupted hFails | repeated hFails =>
      exact absurd (hDisabled.symm.trans hFails.enabled) Bool.noConfusion

/-- Without a limit the retries are used up only where the attempt itself says so. -/
theorem Ends.outcome_of_exhausted (h : t.Ends p (.settled (.error (.exhausted e))))
    (hUnlimited : p.maxElapsedTime = 0) : t.outcome = .error (.exhausted e) := by
  cases h with
  | permanent hOutcome | disabled hOutcome => exact hOutcome
  | exhausted hFails hExceeds => exact absurd hUnlimited hExceeds.1

theorem Ends.le_limit {now : Nat} {b : Backoff} (h : t.Ends p (.ready now b))
    (hLimit : p.maxElapsedTime ≠ 0) : now ≤ Backoff.nanoseconds p.maxElapsedTime := by
  cases h with
  | repeated hFails hWaits hEnding b => exact Nat.le_of_not_lt fun hLate => hWaits ⟨hLimit, hLate⟩

end Try

/-! ## Rounds one after the other -/

namespace Round

variable {p : RetryPolicy} {first : Nat} {rounds : List Round} {tries : List Try} {standing : Standing}

/-- What is known of the rounds that were gone into. -/
structure Followed (p : RetryPolicy) (rounds : List Round) (tries : List Try) (standing : Standing) :
    Prop where
  order : tries.map Try.toRound <+: rounds
  all : ∀ now b, standing = .ready now b → tries.map Try.toRound = rounds
  chain : tries.IsChain (Try.Leads p)
  head : ∀ t, tries.head? = some t → t.began = 0
  last : ∀ t, tries.getLast? = some t → t.Ends p standing
  none : tries = [] → rounds = [] ∧ ∃ b, standing = .ready 0 b
  within : p.maxElapsedTime ≠ 0 → ∀ t ∈ tries, t.began ≤ Backoff.nanoseconds p.maxElapsedTime

theorem followed_start (p : RetryPolicy) (b : Backoff) : Followed p [] [] (.ready 0 b) where
  order := List.prefix_rfl
  all := fun _ _ _ => rfl
  chain := .nil
  head := nofun
  last := nofun
  none := fun _ => ⟨rfl, b, rfl⟩
  within := fun _ _ hMem => absurd hMem List.not_mem_nil

/-- Where the next round begins: at first, or where the last one led. -/
theorem Followed.ready {now : Nat} {b : Backoff} (h : Followed p rounds tries (.ready now b)) :
    tries = [] ∧ now = 0 ∨ ∃ t, tries.getLast? = some t ∧ t.Ends p (.ready now b) := by
  cases hLast : tries.getLast? with
  | none =>
      have hNil : tries = [] := List.getLast?_eq_none_iff.mp hLast
      obtain ⟨-, b', hReady⟩ := h.none hNil
      cases hReady
      exact .inl ⟨hNil, rfl⟩
  | some t => exact .inr ⟨t, rfl, h.last t hLast⟩

theorem Followed.enter (h : Followed p rounds tries standing) (r : Round) :
    Followed p (rounds ++ [r]) (Round.enter p (tries, standing) r).1
      (Round.enter p (tries, standing) r).2 := by
  cases standing with
  | settled outcome =>
      have hSome : tries ≠ [] := fun hNil => by
        obtain ⟨-, b, hReady⟩ := h.none hNil
        cases hReady
      exact ⟨h.order.trans (List.prefix_append _ _), nofun, h.chain, h.head, h.last,
        fun hNil => absurd hNil hSome, h.within⟩
  | ready now b =>
      have hAll := h.all now b rfl
      have hEntered : Round.enter p (tries, .ready now b) r = (tries ++ [⟨r, now⟩], r.lead p now b) := rfl
      have hRounds : (tries ++ [(⟨r, now⟩ : Try)]).map Try.toRound = rounds ++ [r] := by
        rw [List.map_append, hAll]
        rfl
      have hReady := h.ready
      rw [hEntered]
      constructor
      case order => exact hRounds ▸ List.prefix_rfl
      case all => exact fun _ _ _ => hRounds
      case chain =>
        refine List.isChain_append.mpr ⟨h.chain, .singleton _, fun t hLast t' hHead => ?_⟩
        cases hHead
        exact ⟨b, h.last t hLast⟩
      case head =>
        intro t hHead
        rcases hReady with ⟨rfl, rfl⟩ | ⟨last, hLast, -⟩
        · cases hHead
          rfl
        · cases tries with
          | nil => cases hLast
          | cons t' rest => exact h.head t hHead
      case last =>
        intro t hLast
        rw [List.getLast?_concat] at hLast
        cases hLast
        exact Try.ends_lead p now b r
      case none => exact fun hNil => absurd hNil (by simp)
      case within =>
        intro hLimit t hMem
        rcases List.mem_append.mp hMem with hOld | hNew
        · exact h.within hLimit t hOld
        · cases List.mem_singleton.mp hNew
          rcases hReady with ⟨-, rfl⟩ | ⟨last, -, hEnds⟩
          · exact Nat.zero_le _
          · exact hEnds.le_limit hLimit

theorem followed_course (p : RetryPolicy) (first : Nat) (rounds : List Round) :
    Followed p rounds (course p first rounds).1 (course p first rounds).2 := by
  induction rounds using List.reverseRecOn with
  | nil => exact followed_start p _
  | append_singleton rounds r ih =>
      rw [course_concat]
      exact ih.enter r

/-- No round follows one whose attempt decides. -/
theorem Followed.nil_of_isDecisive (h : Followed p rounds tries standing) {before after : List Try}
    {t : Try} (hTries : tries = before ++ t :: after) (hDecisive : t.outcome.isDecisive = true) :
    after = [] := by
  cases after with
  | nil => rfl
  | cons t' after =>
      have hChain := h.chain
      rw [hTries] at hChain
      obtain ⟨b, hEnds⟩ := (List.isChain_append_cons_cons.mp hChain).2.1
      cases hEnds.eq_settled_of_isDecisive hDecisive

/-- The attempts are over with a delivery just if the last one delivered. -/
theorem Followed.eq_ok_iff (h : Followed p rounds tries standing) :
    standing = .settled (.ok ()) ↔ ∃ t, tries.getLast? = some t ∧ t.outcome = .ok () := by
  cases hLast : tries.getLast? with
  | none =>
      obtain ⟨-, b, hReady⟩ := h.none (List.getLast?_eq_none_iff.mp hLast)
      simp [hReady]
  | some t => simp [(h.last t hLast).eq_ok_iff]

/-- Without repetition there is one round. -/
theorem course_of_disabled (hDisabled : p.enabled = false) (first : Nat) (r : Round) (rest : List Round) :
    course p first (r :: rest) = ([⟨r, 0⟩], .settled r.outcome) := by
  have hSettled : ∀ tries outcome, rest.foldl (Round.enter p) (tries, .settled outcome) =
      (tries, .settled outcome) := by
    intro tries outcome
    induction rest with
    | nil => rfl
    | cons r rest ih => exact ih
  have hLead := (Try.ends_lead p 0 (.start p first) r).eq_settled_of_disabled hDisabled
  rw [course, List.foldl_cons, Round.enter, hLead]
  exact hSettled _ _

end Round

end Telemetry
