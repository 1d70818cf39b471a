import Telemetry.Http.Reception
import Telemetry.Proofs.Failure.Leaves
import Telemetry.Proofs.Gzip.Limits

/-!
# How requests are answered

The status of an answer tells a client whether its batch was delivered, should be sent again, or is
refused for good. A reception that writes down which batches it hands on, and what comes of them, shows
that the statuses tell the truth: a batch is handed on at most once, exactly if the request carries it and
there is a consumer, and the status follows from what the request holds and what the consumer answers.
-/

namespace Telemetry.Http

open Text (Bytes)
open Gzip (Inflation)

theorem occursIn_iff {part text : List Char} : occursIn part text = true ↔ part <:+: text := by
  induction text with
  | nil => rw [occursIn, List.isEmpty_iff, List.infix_nil]
  | cons c rest ih =>
      rw [occursIn, Bool.or_eq_true, List.isPrefixOf_iff_prefix, ih, List.infix_cons_iff]

/-- Compressed bodies are unpacked to what comes out of them, as far as a limit allows. That a body is
damaged may show before the limit is reached. -/
structure Decoders.Inflates (d : Decoders) (inflate : Bytes → Inflation) : Prop where
  sound : ∀ {body limit}, 0 < limit → (inflate body).sound = true →
    d.unpack limit body = some ((inflate body).bytes.take limit)
  damaged : ∀ {body limit content}, 0 < limit → (inflate body).sound = false →
    d.unpack limit body = some content →
      limit ≤ (inflate body).bytes.length ∧ content = (inflate body).bytes.take limit

theorem inflates_standard : Decoders.standard.Inflates Gzip.inflation where
  sound := by
    intro body limit hLimit hSound
    refine (Gzip.unpack?_eq_first? hLimit body).trans ?_
    rcases Nat.lt_or_ge (Gzip.inflation body).bytes.length limit with hFew | hMany
    · rw [Inflation.first?_of_lt hFew, if_pos hSound, List.take_of_length_le (Nat.le_of_lt hFew)]
    · exact Inflation.first?_of_le hMany
  damaged := by
    intro body limit content hLimit hDamaged hUnpack
    replace hUnpack := (Gzip.unpack?_eq_first? hLimit body).symm.trans hUnpack
    rcases Nat.lt_or_ge (Gzip.inflation body).bytes.length limit with hFew | hMany
    · rw [Inflation.first?_of_lt hFew, hDamaged] at hUnpack
      cases hUnpack
    · rw [Inflation.first?_of_le hMany] at hUnpack
      exact ⟨hMany, (Option.some.inj hUnpack).symm⟩

namespace Request

/-! ## What requests hold -/

/-- A header that can be read contains a text. -/
def Mentions (r : Request) (name part : String) : Prop :=
  ∃ value, r.header? name = some value ∧ part.toList <:+: value.toList

/-- The body is compressed. -/
def Compressed (r : Request) : Prop := r.Mentions "Content-Encoding" "gzip"

/-- The body is in JSON. -/
def InJson (r : Request) : Prop := r.Mentions "Content-Type" "application/json"

section Bodies

variable (d : Decoders) (limit : Nat) (type : BatchType) (r : Request)

/-- More comes out of the body than may. -/
def Oversized : Prop :=
  r.Compressed ∧ ∃ content, d.unpack (limit + 1) r.body = some content ∧ limit < content.length

/-- The body cannot be unpacked. -/
def Damaged : Prop := r.Compressed ∧ d.unpack (limit + 1) r.body = none

/-- What the body holds, if it can be unpacked and is not longer than may be. -/
inductive Holds : Bytes → Prop
  | plain (h : ¬r.Compressed) : Holds r.body
  | inflated {content : Bytes} (h : r.Compressed) (hUnpack : d.unpack (limit + 1) r.body = some content)
      (hShort : content.length ≤ limit) : Holds content

/-- Some bytes read as a batch, in the format that the request names. -/
def Reads (content : Bytes) (batch : Telemetry.Request) : Prop :=
  r.InJson ∧ d.json type content = some batch ∨ ¬r.InJson ∧ d.binary type content = some batch

/-- The request carries a batch: what its body holds reads as this one. -/
def Carries (batch : Telemetry.Request) : Prop :=
  ∃ content, r.Holds d limit content ∧ r.Reads d type content batch

/-- The body cannot be unpacked, or what it holds reads as no batch. -/
def Faulty : Prop := r.Damaged d limit ∨
  ∃ content, r.Holds d limit content ∧ ∀ batch, ¬r.Reads d type content batch

/-- Whether the request comes to the path of a signal. -/
def isForBatches : Bool := BatchType.all.any fun type => pathOf type == pathOfUrl r.url

/-- A batch of a type is posted, in a body that is not too long. -/
structure Posts (r : Request) (type : BatchType) (limit : Nat) : Prop where
  path : pathOfUrl r.url = pathOf type
  method : r.method = "POST"
  short : r.body.length ≤ limit

end Bodies

variable {inflate : Bytes → Inflation} {d : Decoders} {limit : Nat} {type : BatchType} {r : Request}
  {content : Bytes} {batch : Telemetry.Request}

theorem headerContains_iff {name part : String} :
    r.headerContains name part = true ↔ r.Mentions name part := by
  rw [headerContains, Option.any_eq_true]
  simp only [occursIn_iff, Mentions]

theorem isCompressed_iff : r.isCompressed = true ↔ r.Compressed := headerContains_iff

theorem isJson_iff : r.isJson = true ↔ r.InJson := headerContains_iff

namespace Holds

theorem unique {content' : Bytes} (h : r.Holds d limit content) (h' : r.Holds d limit content') :
    content' = content := by
  cases h with
  | plain hPlain =>
      cases h' with
      | plain => rfl
      | inflated hCompressed => exact absurd hCompressed hPlain
  | inflated hCompressed hUnpack =>
      cases h' with
      | plain hPlain => exact absurd hCompressed hPlain
      | inflated _ hUnpack' => exact Option.some.inj (hUnpack'.symm.trans hUnpack)

theorem not_oversized (h : r.Holds d limit content) : ¬r.Oversized d limit := by
  rintro ⟨hCompressed, longer, hLonger, hLong⟩
  cases h with
  | plain hPlain => exact hPlain hCompressed
  | inflated _ hUnpack hShort =>
      obtain rfl := Option.some.inj (hLonger.symm.trans hUnpack)
      exact Nat.not_lt.mpr hShort hLong

theorem not_damaged (h : r.Holds d limit content) : ¬r.Damaged d limit := by
  rintro ⟨hCompressed, hNone⟩
  cases h with
  | plain hPlain => exact hPlain hCompressed
  | inflated _ hUnpack => exact absurd (hNone.symm.trans hUnpack) (by simp)

end Holds

theorem Damaged.not_oversized (h : r.Damaged d limit) : ¬r.Oversized d limit := by
  rintro ⟨-, content, hUnpack, -⟩
  exact absurd (h.2.symm.trans hUnpack) (by simp)

theorem reads_iff : r.Reads d type content batch ↔
    (if r.isJson then d.json type content else d.binary type content) = some batch := by
  rw [Reads, ← isJson_iff]
  cases r.isJson <;> simp

/-- A body is longer than may be, damaged, or read as a whole. -/
theorem content_cases (d : Decoders) (limit : Nat) (r : Request) :
    r.Oversized d limit ∧ r.content d limit = .error .tooLarge ∨
    r.Damaged d limit ∧ r.content d limit = .error .badRequest ∨
    ∃ content, r.Holds d limit content ∧ r.content d limit = .ok content := by
  by_cases hCompressed : r.Compressed
  · rw [content, if_pos (isCompressed_iff.mpr hCompressed)]
    cases hUnpack : d.unpack (limit + 1) r.body with
    | none => exact .inr (.inl ⟨⟨hCompressed, hUnpack⟩, rfl⟩)
    | some content =>
        rcases Nat.lt_or_ge limit content.length with hLong | hShort
        · exact .inl ⟨⟨hCompressed, content, hUnpack, hLong⟩, if_pos hLong⟩
        · exact .inr (.inr ⟨content, .inflated hCompressed hUnpack hShort, if_neg (Nat.not_lt.mpr hShort)⟩)
  · refine .inr (.inr ⟨r.body, .plain hCompressed, ?_⟩)
    rw [content, if_neg fun h => hCompressed (isCompressed_iff.mp h)]

/-- A request is refused for the length of its body, for a fault in it, or carries a batch. -/
theorem batch_cases (d : Decoders) (limit : Nat) (type : BatchType) (r : Request) :
    r.Oversized d limit ∧ r.batch d limit type = .error .tooLarge ∨
    r.Faulty d limit type ∧ r.batch d limit type = .error .badRequest ∨
    ∃ batch, r.Carries d limit type batch ∧ r.batch d limit type = .ok batch := by
  rcases r.content_cases d limit with ⟨hLong, hContent⟩ | ⟨hDamaged, hContent⟩ | ⟨content, hHolds, hContent⟩
  · exact .inl ⟨hLong, by rw [Request.batch, hContent]⟩
  · exact .inr (.inl ⟨.inl hDamaged, by rw [Request.batch, hContent]⟩)
  · rw [Request.batch, hContent]
    cases hDecoded : (if r.isJson then d.json type content else d.binary type content) with
    | none =>
        have hNone : ∀ batch, ¬r.Reads d type content batch := fun batch hReads =>
          absurd (hDecoded.symm.trans (reads_iff.mp hReads)) (by simp)
        refine .inr (.inl ⟨.inr ⟨content, hHolds, hNone⟩, ?_⟩)
        simp [hDecoded]
    | some batch =>
        refine .inr (.inr ⟨batch, ⟨content, hHolds, reads_iff.mpr hDecoded⟩, ?_⟩)
        simp [hDecoded]

theorem Faulty.not_oversized (h : r.Faulty d limit type) : ¬r.Oversized d limit := by
  rcases h with hDamaged | ⟨content, hHolds, -⟩
  · exact hDamaged.not_oversized
  · exact hHolds.not_oversized

namespace Carries

theorem not_oversized (h : r.Carries d limit type batch) : ¬r.Oversized d limit := by
  obtain ⟨content, hHolds, -⟩ := h
  exact hHolds.not_oversized

theorem not_faulty (h : r.Carries d limit type batch) : ¬r.Faulty d limit type := by
  obtain ⟨content, hHolds, hReads⟩ := h
  rintro (hDamaged | ⟨content', hHolds', hNone⟩)
  · exact hHolds.not_damaged hDamaged
  · obtain rfl := hHolds.unique hHolds'
    exact hNone batch hReads

theorem unique {batch' : Telemetry.Request} (h : r.Carries d limit type batch)
    (h' : r.Carries d limit type batch') : batch' = batch := by
  obtain ⟨content, hHolds, hReads⟩ := h
  obtain ⟨content', hHolds', hReads'⟩ := h'
  obtain rfl := hHolds.unique hHolds'
  exact Option.some.inj ((reads_iff.mp hReads').symm.trans (reads_iff.mp hReads))

end Carries

/-! ## Bodies that are inflated -/

section Inflated

variable (hInflates : d.Inflates inflate)
include hInflates

theorem Oversized.lt_length (h : r.Oversized d limit) : limit < (inflate r.body).bytes.length := by
  obtain ⟨-, content, hUnpack, hLong⟩ := h
  cases hSound : (inflate r.body).sound with
  | false => exact (hInflates.damaged (Nat.succ_pos limit) hSound hUnpack).1
  | true =>
      obtain rfl := Option.some.inj (hUnpack.symm.trans (hInflates.sound (Nat.succ_pos limit) hSound))
      rw [List.length_take] at hLong
      omega

theorem Damaged.not_sound (h : r.Damaged d limit) : (inflate r.body).sound = false := by
  cases hSound : (inflate r.body).sound with
  | false => rfl
  | true => exact absurd (h.2.symm.trans (hInflates.sound (Nat.succ_pos limit) hSound)) (by simp)

/-- A compressed body is read as a whole if it is sound and holds no more than may be. -/
theorem holds_iff (hCompressed : r.Compressed) : r.Holds d limit content ↔
    (inflate r.body).sound = true ∧ (inflate r.body).bytes.length ≤ limit ∧
      content = (inflate r.body).bytes := by
  constructor
  · intro h
    cases h with
    | plain hPlain => exact absurd hCompressed hPlain
    | inflated _ hUnpack hShort =>
        cases hSound : (inflate r.body).sound with
        | false =>
            obtain ⟨hMany, rfl⟩ := hInflates.damaged (Nat.succ_pos limit) hSound hUnpack
            rw [List.length_take] at hShort
            omega
        | true =>
            obtain rfl := Option.some.inj (hUnpack.symm.trans (hInflates.sound (Nat.succ_pos limit) hSound))
            rw [List.length_take] at hShort
            exact ⟨rfl, by omega, List.take_of_length_le (by omega)⟩
  · rintro ⟨hSound, hShort, rfl⟩
    refine .inflated hCompressed ?_ hShort
    rw [hInflates.sound (Nat.succ_pos limit) hSound, List.take_of_length_le (Nat.le_succ_of_le hShort)]

end Inflated

end Request

/-! ## Statuses of outcomes -/

theorem code_statusOf_eq_200 {outcome : Outcome} : (statusOf outcome).code = 200 ↔ outcome = .ok () := by
  rcases outcome with e | _
  · rw [statusOf]
    split <;> simp [Status.code]
  · simp [statusOf, Status.code]

theorem code_statusOf_eq_400 {outcome : Outcome} : (statusOf outcome).code = 400 ↔
    ∃ e, outcome = .error e ∧ ∃ leaf : ConsumeError, leaf.IsLeaf e ∧ leaf.Final := by
  rcases outcome with e | _
  · simp only [← ConsumeError.isPermanent_iff_exists_leaf]
    cases hPermanent : e.isPermanent <;> simp [statusOf, Status.code, hPermanent]
  · simp [statusOf, Status.code]

theorem code_statusOf_eq_503 {outcome : Outcome} : (statusOf outcome).code = 503 ↔
    ∃ e, outcome = .error e ∧ ∀ leaf : ConsumeError, leaf.IsLeaf e → ¬leaf.Final := by
  rcases outcome with e | _
  · have hLeaves := e.isPermanent_iff_exists_leaf
    cases hPermanent : e.isPermanent <;> simp_all [statusOf, Status.code]
  · simp [statusOf, Status.code]

theorem code_statusOf_ne (outcome : Outcome) :
    (statusOf outcome).code ≠ 404 ∧ (statusOf outcome).code ≠ 413 := by
  rcases outcome with e | _
  · rw [statusOf]
    split <;> decide
  · simp [statusOf, Status.code]

/-! ## Handing batches on -/

/-- A batch that was handed to a consumer, and what came of it. -/
structure Handoff where
  /-- The type of the batch. -/
  type : BatchType
  /-- The batch. -/
  batch : Telemetry.Request
  /-- What the consumer answered. -/
  outcome : Outcome

namespace Reception

variable {σ : Type}

/-- A reception that writes down what it hands on. -/
def logged (x : Reception σ) : Reception (σ × List Handoff) where
  limit := x.limit
  next type := (x.next type).map fun consume batch s =>
    ((consume batch s.1).1, (consume batch s.1).2, s.2 ++ [⟨type, batch, (consume batch s.1).1⟩])
  delivered := x.delivered

/-- What a posted batch has handed on: itself, if there is a consumer for it. -/
def handoffs (d : Decoders) (type : BatchType) (r : Request) (x : Reception σ) (s : σ) : List Handoff :=
  match x.next type, r.batch d x.limit type with
  | some consume, .ok batch => [⟨type, batch, (consume batch s).1⟩]
  | _, _ => []

/-- How a posted batch is answered, given what was handed on. -/
structure Accounts (d : Decoders) (x : Reception σ) (type : BatchType) (r : Request) (status : Nat)
    (calls : List Handoff) : Prop where
  once : calls.length ≤ 1
  toType : ∀ call ∈ calls, call.type = type
  /-- What is handed on is what the request carries, and nothing else. -/
  handedOn : ∀ batch, (∃ call ∈ calls, call.batch = batch) ↔
    x.next type ≠ none ∧ r.Carries d x.limit type batch
  notFound : status = 404 ↔ x.next type = none
  tooLarge : status = 413 ↔ x.next type ≠ none ∧ r.Oversized d x.limit
  /-- To send the batch again would not help. -/
  badRequest : status = 400 ↔ x.next type ≠ none ∧ r.Faulty d x.limit type ∨
    ∃ call ∈ calls, ∃ e, call.outcome = .error e ∧ ∃ leaf : ConsumeError, leaf.IsLeaf e ∧ leaf.Final
  /-- To send the batch again may help. -/
  unavailable : status = 503 ↔ ∃ call ∈ calls, ∃ e, call.outcome = .error e ∧
    ∀ leaf : ConsumeError, leaf.IsLeaf e → ¬leaf.Final
  ok : status = 200 ↔ ∃ call ∈ calls, call.outcome = .ok ()

variable {d : Decoders} {x : Reception σ} {type : BatchType} {r : Request}

theorem limit_logged : x.logged.limit = x.limit := rfl

theorem next_logged : x.logged.next type = (x.next type).map fun consume batch s =>
    ((consume batch s.1).1, (consume batch s.1).2, s.2 ++ [⟨type, batch, (consume batch s.1).1⟩]) := rfl

/-- Writing down what is handed on changes no answer. -/
theorem receive_logged (s : σ) (log : List Handoff) :
    receive d x.limit type (x.logged.next type) r (s, log) =
      ((receive d x.limit type (x.next type) r s).1, (receive d x.limit type (x.next type) r s).2,
        log ++ x.handoffs d type r s) := by
  rw [next_logged, handoffs]
  cases x.next type with
  | none => simp [receive]
  | some consume => cases hBatch : r.batch d x.limit type <;> simp [receive, hBatch]

theorem accounts_of_unwired (hNext : x.next type = none) (s : σ) :
    x.Accounts d type r (receive d x.limit type (x.next type) r s).1.code
      (x.handoffs d type r s) := by
  rw [handoffs, hNext]
  constructor <;> simp [receive, Status.code, hNext]

theorem accounts_of_oversized {consume} (hNext : x.next type = some consume)
    (hLong : r.Oversized d x.limit) (hBatch : r.batch d x.limit type = .error .tooLarge) (s : σ) :
    x.Accounts d type r (receive d x.limit type (x.next type) r s).1.code
      (x.handoffs d type r s) := by
  have hNone : ∀ batch, ¬r.Carries d x.limit type batch := fun _ h => h.not_oversized hLong
  have hFine : ¬r.Faulty d x.limit type := fun h => h.not_oversized hLong
  rw [handoffs, hNext, hBatch]
  constructor <;> simp [receive, Status.code, hNext, hBatch, hLong, hNone, hFine]

theorem accounts_of_faulty {consume} (hNext : x.next type = some consume)
    (hFaulty : r.Faulty d x.limit type) (hBatch : r.batch d x.limit type = .error .badRequest)
    (s : σ) : x.Accounts d type r (receive d x.limit type (x.next type) r s).1.code
      (x.handoffs d type r s) := by
  have hNone : ∀ batch, ¬r.Carries d x.limit type batch := fun _ h => h.not_faulty hFaulty
  rw [handoffs, hNext, hBatch]
  constructor <;> simp [receive, Status.code, hNext, hBatch, hNone, hFaulty, hFaulty.not_oversized]

theorem accounts_of_carries {consume} (hNext : x.next type = some consume) {batch : Telemetry.Request}
    (hCarries : r.Carries d x.limit type batch) (hBatch : r.batch d x.limit type = .ok batch)
    (s : σ) : x.Accounts d type r (receive d x.limit type (x.next type) r s).1.code
      (x.handoffs d type r s) := by
  have hOnly : ∀ other, r.Carries d x.limit type other ↔ batch = other :=
    fun other => ⟨fun h => (hCarries.unique h).symm, fun h => h ▸ hCarries⟩
  have hFine := hCarries.not_faulty
  have hShort := hCarries.not_oversized
  have hStatus : (receive d x.limit type (some consume) r s).1 = statusOf (consume batch s).1 := by
    rw [receive, hBatch]
  have hCalls : x.handoffs d type r s = [⟨type, batch, (consume batch s).1⟩] := by
    rw [handoffs, hNext, hBatch]
  rw [hCalls, hNext, hStatus]
  generalize (consume batch s).1 = outcome
  obtain ⟨hNotFound, hTooLarge⟩ := code_statusOf_ne outcome
  constructor
  case badRequest => simp [code_statusOf_eq_400, hFine]
  case unavailable => simp [code_statusOf_eq_503]
  case ok => simp [code_statusOf_eq_200]
  all_goals simp [hNext, hOnly, hShort, hNotFound, hTooLarge]

/-- What a posted batch hands on and how it is answered follow from what it holds and from what becomes
of it. -/
theorem accounts_receive (d : Decoders) (x : Reception σ) (type : BatchType) (r : Request) (s : σ) :
    x.Accounts d type r (receive d x.limit type (x.next type) r s).1.code
      (x.handoffs d type r s) := by
  cases hNext : x.next type with
  | none => exact hNext ▸ accounts_of_unwired hNext s
  | some consume =>
      rcases r.batch_cases d x.limit type with
        ⟨hLong, hBatch⟩ | ⟨hFaulty, hBatch⟩ | ⟨batch, hCarries, hBatch⟩
      · exact hNext ▸ accounts_of_oversized hNext hLong hBatch s
      · exact hNext ▸ accounts_of_faulty hNext hFaulty hBatch s
      · exact hNext ▸ accounts_of_carries hNext hCarries hBatch s

/-! ## Answers -/

theorem ofPath?_pathOf (type : BatchType) : Route.ofPath? (pathOf type) = some (.batches type) := by
  cases type <;> decide

theorem answer_of_posts (h : r.Posts type x.limit) (s : σ) : x.answer d r s =
    (.ofStatus (receive d x.limit type (x.next type) r s).1,
      x.count (receive d x.limit type (x.next type) r s).1,
      (receive d x.limit type (x.next type) r s).2) := by
  rw [answer, h.path, ofPath?_pathOf]
  simp [h.method, Nat.not_lt.mpr h.short]

/-- Whatever else comes to the path of a signal is refused, and nothing is handed on. -/
theorem answer_of_not_posts (hPath : pathOfUrl r.url = pathOf type) (h : ¬r.Posts type x.limit) (s : σ) :
    x.answer d r s = (.ofStatus (if r.method = "POST" then .tooLarge else .methodNotAllowed), x, s) := by
  rw [answer, hPath, ofPath?_pathOf]
  by_cases hMethod : r.method = "POST"
  · have hLong : x.limit < r.body.length := Nat.lt_of_not_le fun hShort => h ⟨hPath, hMethod, hShort⟩
    simp [hMethod, hLong]
  · simp [hMethod]

theorem isForBatches_of_route (h : Route.ofPath? (pathOfUrl r.url) = some (.batches type)) :
    r.isForBatches = true := by
  rw [Route.ofPath?] at h
  split at h
  · cases h
  · obtain ⟨found, hFound, -⟩ := Option.map_eq_some_iff.mp h
    have hSame := List.find?_some hFound
    exact List.any_eq_true.mpr ⟨found, List.mem_of_find?_eq_some hFound, hSame⟩

theorem answer_of_health (hPath : pathOfUrl r.url = "/health") (hMethod : r.method = "GET") (s : σ) :
    x.answer d r s = (⟨200, healthBody x.delivered⟩, x, s) := by
  have hRoute : Route.ofPath? "/health" = some .health := by decide
  rw [answer, hPath, hRoute]
  simp [hMethod, Status.code]

theorem count_logged (status : Status) : x.logged.count status = (x.count status).logged := by
  rw [count, count]
  split <;> rfl

section States

variable {α : Type} {f : σ → α}

theorem spares_receive {limit : Nat} {next : Option (Telemetry.Request → σ → Outcome × σ)}
    (hSpares : ∀ consume ∈ next, ∀ batch s, f (consume batch s).2 = f s) (d : Decoders) (r : Request)
    (s : σ) : f (receive d limit type next r s).2 = f s := by
  cases next with
  | none => rfl
  | some consume =>
      rw [receive]
      split
      · rfl
      · exact hSpares consume rfl _ s

/-- What no consumer changes stays when a request is answered. -/
theorem spares_answer (hSpares : ∀ type, ∀ consume ∈ x.next type, ∀ batch s, f (consume batch s).2 = f s)
    (d : Decoders) (r : Request) (s : σ) : f (x.answer d r s).2.2 = f s := by
  rw [answer]
  split
  · rfl
  · split
    · rfl
    split <;> rfl
  · next type hRoute =>
      split
      · rfl
      split
      · rfl
      exact spares_receive (hSpares type) d r s

end States

/-- Answers requests one after the other. -/
def answerAll (d : Decoders) : List Request → Reception σ → σ → List Reply × Reception σ × σ
  | [], x, s => ([], x, s)
  | r :: rest, x, s =>
    let (reply, x, s) := x.answer d r s
    let (replies, x, s) := answerAll d rest x s
    (reply :: replies, x, s)

/-- How many requests to the paths of signals were answered with 200. -/
def successes (requests : List Request) (replies : List Reply) : Nat :=
  (requests.zip replies).countP fun e => e.1.isForBatches && e.2.status == 200

theorem successes_cons (r : Request) (rest : List Request) (reply : Reply) (replies : List Reply) :
    successes (r :: rest) (reply :: replies) =
      (if r.isForBatches && reply.status == 200 then 1 else 0) + successes rest replies := by
  rw [successes, List.zip_cons_cons, List.countP_cons, Nat.add_comm, successes]

theorem delivered_count (status : Status) :
    (x.count status).delivered = x.delivered + if status.code == 200 then 1 else 0 := by
  cases status <;> rfl

/-- An answer counts if it is one of 200 to the path of a signal. -/
theorem delivered_answer (d : Decoders) (r : Request) (x : Reception σ) (s : σ) :
    (x.answer d r s).2.1.delivered =
      x.delivered + if r.isForBatches && (x.answer d r s).1.status == 200 then 1 else 0 := by
  cases hFor : r.isForBatches with
  | true =>
      obtain ⟨type, -, hPath⟩ := List.any_eq_true.mp hFor
      replace hPath := (beq_iff_eq.mp hPath).symm
      by_cases hPosts : r.Posts type x.limit
      · rw [answer_of_posts hPosts, delivered_count]
        rfl
      · rw [answer_of_not_posts hPath hPosts]
        split <;> rfl
  | false =>
      rw [answer]
      cases hRoute : Route.ofPath? (pathOfUrl r.url) with
      | none => rfl
      | some route =>
          cases route with
          | health =>
              dsimp only
              split
              · rfl
              split <;> rfl
          | batches type =>
              have hThere := isForBatches_of_route hRoute
              exact absurd (hFor.symm.trans hThere) Bool.false_ne_true

/-- The number of delivered batches is that of the answers of 200 to the paths of signals. -/
theorem delivered_answerAll (d : Decoders) (requests : List Request) (x : Reception σ) (s : σ) :
    (x.answerAll d requests s).2.1.delivered =
      x.delivered + successes requests (x.answerAll d requests s).1 := by
  induction requests generalizing x s with
  | nil => rfl
  | cons r rest ih =>
      rw [answerAll]
      dsimp only
      rw [ih, delivered_answer, successes_cons, Nat.add_assoc]

/-- A posted batch is handed on at most once, and exactly if there is a consumer of its type and the request
carries it: the batch that its body reads as, in the format that the request names. The status tells a
missing consumer, a body that inflates to too much, a fault in it or an error of the consumer with a leaf
after which the batch is of no use, any other error of the consumer, and success from each other. What
comes to the path of a signal otherwise is refused and changes nothing. The number that is told of
delivered batches is that of the answers of 200 to the paths of signals.

For a decoder of streams it is all that comes out of a compressed body that counts. It is read if the body
is sound and this is no more than the limit. A body that is refused for its length holds more, and one that
is refused for a damage is not sound. -/
theorem statuses_tell_what_became_of_batches (d : Decoders) (x : Reception σ) :
    (∀ type (r : Request), r.Posts type x.limit → ∀ s log, ∃ calls,
      x.logged.answer d r (s, log) =
          ((x.answer d r s).1, (x.answer d r s).2.1.logged, (x.answer d r s).2.2, log ++ calls) ∧
        x.Accounts d type r (x.answer d r s).1.status calls) ∧
    (∀ type (r : Request), pathOfUrl r.url = pathOf type → ¬r.Posts type x.limit → ∀ s,
      (x.answer d r s).2 = (x, s) ∧
        (x.answer d r s).1.status = if r.method = "POST" then 413 else 405) ∧
    (∀ requests health s, pathOfUrl health.url = "/health" → health.method = "GET" →
      let run := x.answerAll d requests s
      run.2.1.delivered = x.delivered + successes requests run.1 ∧
        (run.2.1.answer d health run.2.2).1 = ⟨200, healthBody run.2.1.delivered⟩) ∧
    ∀ inflate, d.Inflates inflate → ∀ r : Request, r.Compressed →
      (∀ content, r.Holds d x.limit content ↔ (inflate r.body).sound = true ∧
        (inflate r.body).bytes.length ≤ x.limit ∧ content = (inflate r.body).bytes) ∧
      (r.Oversized d x.limit → x.limit < (inflate r.body).bytes.length) ∧
      (r.Damaged d x.limit → (inflate r.body).sound = false) := by
  refine ⟨fun type r hPosts s log => ⟨x.handoffs d type r s, ?_, ?_⟩, fun type r hPath hPosts s => ?_,
    fun requests health s hPath hGet => ?_, fun inflate hInflates r hCompressed => ?_⟩
  · rw [answer_of_posts hPosts, answer_of_posts (x := x.logged) hPosts, limit_logged, receive_logged,
      count_logged]
  · rw [answer_of_posts hPosts]
    exact accounts_receive d x type r s
  · rw [answer_of_not_posts hPath hPosts]
    split <;> exact ⟨rfl, rfl⟩
  · exact ⟨delivered_answerAll d requests x s, congrArg Prod.fst (answer_of_health hPath hGet _)⟩
  · exact ⟨fun content => Request.holds_iff hInflates hCompressed,
      fun hLong => hLong.lt_length hInflates, fun hDamaged => hDamaged.not_sound hInflates⟩

section Requests

/-- Traces without a resource, posted to the path for traces. -/
def emptyTraces : Request := ⟨"POST", "/v1/traces", [], []⟩

/-- A hundred zeros, compressed to fewer bytes than may be. -/
def manyZeros : Request :=
  ⟨"POST", "/v1/traces?retry", [("content-encoding", "x-gzip")],
    [31, 139, 8, 0, 0, 0, 0, 0, 0, 255, 99, 96, 160, 61, 0, 0, 202, 198, 136, 153, 100, 0, 0, 0]⟩

/-- A reception of traces: the first batch meets a full queue further on, and the later ones do not. -/
def tracesOnly : Reception Nat where
  limit := 64
  next
    | .traces => some fun _ n =>
      (if n = 0 then .error (.joined [.transient "busy", .joined [.cancelled, .queueFull]]) else .ok (),
        n + 1)
    | _ => none
  delivered := 0

/-- The zeros are too many when they are inflated, and that is what the status says. -/
theorem statuses_tell_what_became_of_batches_sample :
    (Decoders.standard.Inflates Gzip.inflation ∧ manyZeros.Posts .traces 64) ∧
    (tracesOnly.answer .standard manyZeros 0).1.status = 413 ∧
    64 < (Gzip.inflation manyZeros.body).bytes.length ∧
    (tracesOnly.answerAll .standard [emptyTraces, manyZeros, emptyTraces, emptyTraces] 0).1.map
      Reply.status = [400, 413, 200, 200] ∧
    (tracesOnly.answerAll .standard [emptyTraces, manyZeros, emptyTraces, emptyTraces] 0).2.1.delivered =
      2 := by
  have hPosts : manyZeros.Posts .traces 64 := ⟨by decide, rfl, by decide⟩
  have hStatus : (tracesOnly.answer .standard manyZeros 0).1.status = 413 := by decide +kernel
  obtain ⟨hAccounts, -, hDelivered, hInflated⟩ := statuses_tell_what_became_of_batches .standard tracesOnly
  obtain ⟨calls, -, hCalls⟩ := hAccounts .traces manyZeros hPosts 0 []
  obtain ⟨-, hLong⟩ := hCalls.tooLarge.mp hStatus
  obtain ⟨-, hMany, -⟩ := hInflated Gzip.inflation inflates_standard manyZeros hLong.1
  have hReplies : (tracesOnly.answerAll .standard
      [emptyTraces, manyZeros, emptyTraces, emptyTraces] 0).1.map Reply.status = [400, 413, 200, 200] := by
    decide +kernel
  obtain ⟨hCount, -⟩ := hDelivered [emptyTraces, manyZeros, emptyTraces, emptyTraces]
    ⟨"GET", "/health", [], []⟩ 0 (by decide) rfl
  refine ⟨⟨inflates_standard, hPosts⟩, hStatus, hMany hLong, hReplies, ?_⟩
  exact hCount.trans (by decide +kernel)

end Requests

end Reception

end Telemetry.Http
