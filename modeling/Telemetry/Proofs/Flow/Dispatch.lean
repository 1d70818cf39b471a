import Telemetry.Proofs.Flow.Hands

/-!
# Handing one batch to many

A fan-out calls its branches in turn, each with a handle onto what came in. Those that only read share one
request; one that changes its batches gets a copy of its own, unless all do, when the last gets what came in.
Whatever any of them does with its handle, then or later, neither the others nor those who held the batch
before see it.
-/

namespace Telemetry

open Heap (Covers Keeps)

theorem ConsumeError.join_eq_ok_iff {es : List ConsumeError} : join es = .ok () ↔ es = [] := by
  rcases es with _ | ⟨e, _ | ⟨e', es⟩⟩ <;> simp [join]

/-- A batch is handed to a branch. -/
structure Handover (σ : Type) where
  /-- The branch. -/
  consumer : Consumer
  /-- The heap when its turn comes. -/
  before : Heap
  /-- The handle that it is given. -/
  handle : Handle
  /-- The heap when it is called. -/
  heap : Heap
  /-- The state when it is called. -/
  state : σ

namespace Handover

variable {σ : Type} {outlets : Outlets σ}

/-- What comes of the call. -/
def result (outlets : Outlets σ) (c : Handover σ) : Outcome × Heap × σ :=
  c.consumer.consume outlets c.handle c.heap c.state

/-- The errors of calls, in order. -/
def errors (outlets : Outlets σ) (calls : List (Handover σ)) : List ConsumeError :=
  calls.flatMap fun c => Outcome.errors (c.result outlets).1

/-- Calls follow one another, each from what the one before has left. -/
def Linked (outlets : Outlets σ) : List (Handover σ) → Heap → σ → Heap → σ → Prop
  | [], h, s, h', s' => h' = h ∧ s' = s
  | c :: calls, h, s, h', s' =>
    c.before = h ∧ c.state = s ∧ Linked outlets calls (c.result outlets).2.1 (c.result outlets).2.2 h' s'

theorem errors_eq_nil_iff {calls : List (Handover σ)} :
    errors outlets calls = [] ↔ ∀ c ∈ calls, (c.result outlets).1 = .ok () := by
  rw [errors, List.flatMap_eq_nil_iff]
  refine forall₂_congr fun c _ => ?_
  rcases (c.result outlets).1 with e | _ <;> simp [Outcome.errors]

/-- The handle that a branch is given: one with the content that came in. The last of branches that all
change their batches gets the handle that came in; every other that does gets a new request; those that do
not share the request that came in. -/
structure Suits (allMutate last : Prop) (b : Handle) (content : Request) (c : Handover σ) : Prop where
  read : c.heap.read c.handle = content
  original : allMutate → last → c.handle = b ∧ c.heap = c.before
  copy : c.consumer.mutates = true → ¬ (allMutate ∧ last) →
    c.handle = ⟨c.before.cells.length, false⟩ ∧ c.heap = (c.before.new content).2
  shared : c.consumer.mutates = false →
    c.handle = ⟨b.ref, true⟩ ∧ c.heap.cells.length = c.before.cells.length

end Handover

namespace Consumer

variable {σ : Type} {outlets : Outlets σ} {held : σ → List Nat} {given : Bool} {branches : List Consumer}
  {b : Handle} {h : Heap} {s : σ} {refs : List Nat}

/-- The calls of a fan-out, given whether the last branch gets the handle itself. -/
def handovers (outlets : Outlets σ) (given : Bool) :
    List Consumer → Handle → Heap → σ → List (Handover σ)
  | [], _, _, _ => []
  | c :: rest, b, h, s =>
    if given && rest.isEmpty then [⟨c, h, b, h, s⟩]
    else
      let ((b, own), h') := c.branch b h
      let call : Handover σ := ⟨c, h, own, h', s⟩
      call :: handovers outlets given rest b (call.result outlets).2.1 (call.result outlets).2.2

theorem ref_branch (c : Consumer) (b : Handle) (h : Heap) : (c.branch b h).1.1.ref = b.ref := by
  rw [branch]
  split <;> rfl

theorem map_consumer_handovers :
    (handovers outlets given branches b h s).map Handover.consumer = branches := by
  induction branches generalizing b h s with
  | nil => rfl
  | cons c rest ih =>
      rw [handovers]
      split
      · rename_i hLast
        have hNil : rest = [] := by simpa using (Bool.and_eq_true_iff.mp hLast).2
        rw [hNil]
        rfl
      · exact congrArg (c :: ·) ih

theorem errors_dispatch : (dispatch outlets given branches b h s).1 =
    Handover.errors outlets (handovers outlets given branches b h s) := by
  induction branches generalizing b h s with
  | nil => rfl
  | cons c rest ih =>
      rw [handovers, dispatch]
      split
      · simp [Handover.errors, Handover.result]
      · exact congrArg (_ ++ ·) ih

theorem release_congr {b b' : Handle} (hRef : b'.ref = b.ref) (h : Heap) :
    h.release b' = h.release b := by
  rw [Heap.release, Heap.release, Heap.updateCell, Heap.updateCell, hRef]

/-- The calls lead from one end of a dispatch to the other; in the end what is left of the batch is given
up. -/
theorem linked_handovers (outlets : Outlets σ) (given : Bool) (branches : List Consumer) (b : Handle)
    (h : Heap) (s : σ) : ∃ h', Handover.Linked outlets (handovers outlets given branches b h s) h s h'
      (dispatch outlets given branches b h s).2.2 ∧
    (dispatch outlets given branches b h s).2.1 =
      if given = true ∧ branches ≠ [] then h' else h'.release b := by
  induction branches generalizing b h s with
  | nil => exact ⟨h, ⟨rfl, rfl⟩, by simp [dispatch]⟩
  | cons c rest ih =>
      rw [handovers, dispatch]
      split
      · rename_i hLast
        have hGiven : given = true := (Bool.and_eq_true_iff.mp hLast).1
        exact ⟨_, ⟨rfl, rfl, rfl, rfl⟩, by simp [Handover.result, hGiven]⟩
      · rename_i hMore
        obtain ⟨h', hLinked, hHeap⟩ := ih (c.branch b h).1.1
          (c.consume outlets (c.branch b h).1.2 (c.branch b h).2 s).2.1
          (c.consume outlets (c.branch b h).1.2 (c.branch b h).2 s).2.2
        refine ⟨h', ⟨rfl, rfl, hLinked⟩, hHeap.trans ?_⟩
        rw [release_congr (ref_branch c b h)]
        have hRest : given = true → rest ≠ [] := fun hGiven hNil => hMore (by simp [hGiven, hNil])
        by_cases hGiven : given = true
        · simp [hGiven, hRest hGiven]
        · simp [hGiven]

/-- A branch that does not get what came in itself is given a new request or a share. -/
theorem suits_branch {c : Consumer} {last : Prop} (hMore : ¬ (given = true ∧ last))
    (hRead : (c.branch b h).2.read (c.branch b h).1.2 = h.read b) :
    Handover.Suits (given = true) last b (h.read b)
      ⟨c, h, (c.branch b h).1.2, (c.branch b h).2, s⟩ where
  read := hRead
  original hGiven hLast := absurd ⟨hGiven, hLast⟩ hMore
  copy hMutates _ := by
    change c.mutates = true at hMutates
    rw [branch, if_pos hMutates]
    exact ⟨rfl, rfl⟩
  shared hReads := by
    change c.mutates = false at hReads
    rw [branch, hReads]
    exact ⟨rfl, by simp [Heap.share, Heap.updateCell]⟩

theorem suits_handovers (hCustody : outlets.Custody held)
    (hGiven : given = true → ∀ c ∈ branches, c.mutates = true)
    (hCovers : h.Covers (b.ref :: (refs ++ held s))) {before after : List (Handover σ)}
    {call : Handover σ} (hSplit : handovers outlets given branches b h s = before ++ call :: after) :
    call.Suits (given = true) (after = []) b (h.read b) := by
  induction branches generalizing before b h s with
  | nil => simp [handovers] at hSplit
  | cons c rest ih =>
      rw [handovers] at hSplit
      split at hSplit
      · rename_i hLast
        have hMutates := hGiven (Bool.and_eq_true_iff.mp hLast).1 c List.mem_cons_self
        obtain ⟨rfl, rfl, rfl⟩ : before = [] ∧ ⟨c, h, b, h, s⟩ = call ∧ [] = after := by
          cases before with
          | nil => simpa using hSplit
          | cons first before => simp at hSplit
        refine ⟨rfl, fun _ _ => ⟨rfl, rfl⟩, fun _ hNot => ?_, fun hReads => ?_⟩
        · exact absurd ⟨(Bool.and_eq_true_iff.mp hLast).1, rfl⟩ hNot
        · cases hMutates.symm.trans hReads
      · rename_i hMore
        have hSpares := (settles_consume hCustody c).spares hCovers
        cases before with
        | nil =>
            obtain ⟨rfl, rfl⟩ := List.cons.inj hSplit
            refine suits_branch ?_ hSpares.read_own
            rintro ⟨hTrue, hLast⟩
            have hRest := congrArg (List.map Handover.consumer) hLast
            rw [map_consumer_handovers] at hRest
            exact hMore (by simp [hTrue, hRest])
        | cons first before =>
            obtain ⟨-, hSplit⟩ := List.cons.inj hSplit
            have hRest := ih (fun hTrue c' hc' => hGiven hTrue c' (List.mem_cons_of_mem _ hc'))
              hSpares.covers_left hSplit
            refine ⟨hRest.read.trans hSpares.read_left, fun hTrue hLast => ?_, ?_, fun hReads => ?_⟩
            -- If all branches change their batches, each one before the last got a copy.
            · have hSame : (c.branch b h).1.1 = b := by
                rw [branch, if_pos (hGiven hTrue c List.mem_cons_self)]
                rfl
              exact hSame ▸ hRest.original hTrue hLast
            · exact hSpares.read_left ▸ hRest.copy
            · exact ref_branch c b h ▸ hRest.shared hReads

/-- When a branch is called, what every owner sees follows from its own events. -/
theorem leads_handovers (conduct : Conduct) {x : Hands} (hCovers : h.Covers (b.ref :: (refs ++ x.held))) :
    ∀ call ∈ handovers conduct.outlets given branches b h x, Hands.Leads h x call.heap call.state := by
  induction branches generalizing b h x with
  | nil => exact List.forall_mem_nil _
  | cons c rest ih =>
      rw [handovers]
      split
      · exact List.forall_mem_singleton.mpr (.refl _ _)
      · have hSpares := (settles_consume conduct.custody c).spares hCovers
        have hBranch := Hands.leads_branch c hCovers
        have hCall := Conduct.leads_consume conduct c hSpares.covers_own
        refine List.forall_mem_cons.mpr ⟨hBranch, fun call hLater => ?_⟩
        exact hBranch.trans (hCall.trans (ih hSpares.covers_left call hLater))

end Consumer

/-! ## Branches that all change what they get -/

namespace Meddling

/-- Whoever gets a batch changes the first one it has. -/
def conduct : Conduct where
  deeds owner _ _ _ := [(owner, .change 0 fun r => r.append [.blank])]
  outcome _ _ _ _ := .ok ()
  onward _ _ _ _ := none
  clock _ := 0

/-- One branch that says that it changes its batches and two that do not. -/
def branches : List Consumer := [.leaf true 1, .leaf false 2, .leaf false 3]

/-- A batch, of which somebody upstream has a share. -/
def shared : (Handle × Handle) × Heap :=
  (Heap.empty.new (.blank .traces)).2.share (Heap.empty.new (.blank .traces)).1

/-- Who has been upstream, with the share, and the branches. -/
def hands : Hands := ⟨[[shared.1.2], [], [], []], []⟩

theorem covers_shared : shared.2.Covers (shared.1.1.ref :: ([] ++ hands.held)) :=
  (Covers.new (fun _ => Nat.zero_le _) _).branches_share.covers

end Meddling

namespace Consumer

variable {branches : List Consumer} {b : Handle} {h : Heap} {refs : List Nat}

/-- A consumer of two or more branches calls each of them once, in order, with the content that came in, and
answers with their errors joined. Branches that do not change their batches share the request that came in;
one that does gets a new one, but the last of branches that all do gets the handle that came in. When a
branch is called, and whatever owners of handles do when all is done, what an owner sees follows from what
it got and did itself, and whoever else holds a handle sees no change. -/
theorem fan_out_isolates_branches (conduct : Conduct) {c : Consumer}
    (hBranches : ofBranches? branches = some c) (hTwo : 2 ≤ branches.length) {x : Hands}
    (hCovers : h.Covers (b.ref :: (refs ++ x.held))) :
    ∃ (calls : List (Handover Hands)) (h' : Heap) (x' : Hands),
      calls.map Handover.consumer = branches ∧ Handover.Linked conduct.outlets calls h x h' x' ∧
      (∀ before call after, calls = before ++ call :: after →
        call.Suits (∀ d ∈ branches, d.mutates = true) (after = []) b (h.read b)) ∧
      (∀ call ∈ calls, Hands.Leads h x call.heap call.state) ∧
      c.consume conduct.outlets b h x = (ConsumeError.join (Handover.errors conduct.outlets calls),
        if ∀ d ∈ branches, d.mutates = true then h' else h'.release b, x') ∧
      (ConsumeError.join (Handover.errors conduct.outlets calls) = .ok () ↔
        ∀ call ∈ calls, (call.result conduct.outlets).1 = .ok ()) ∧
      ∀ later, ∃ h'' x'', Hands.performAll later (c.consume conduct.outlets b h x).2.1 x' = (h'', x'') ∧
        Keeps refs h h'' ∧ Hands.Leads h x h'' x'' := by
  obtain ⟨rfl, hSome⟩ : c = .fanOut branches ∧ branches ≠ [] := by
    rcases branches with _ | ⟨d, _ | ⟨e, rest⟩⟩
    · simp at hTwo
    · simp at hTwo
    · cases hBranches
      exact ⟨rfl, List.cons_ne_nil _ _⟩
  have hAll : branches.all mutates = true ↔ ∀ d ∈ branches, d.mutates = true := List.all_eq_true
  obtain ⟨h', hLinked, hHeap⟩ := linked_handovers conduct.outlets (branches.all mutates) branches b h x
  refine ⟨handovers conduct.outlets (branches.all mutates) branches b h x, h', _,
    map_consumer_handovers, hLinked, ?suits, leads_handovers conduct hCovers, ?answer, ?ok, ?later⟩
  case suits =>
    intro before call after hSplit
    rw [← hAll]
    exact suits_handovers conduct.custody hAll.mp hCovers hSplit
  case answer =>
    rw [consume, ← errors_dispatch]
    simp only [hHeap, hAll, hSome, ne_eq, not_false_eq_true, and_true]
  case ok => rw [ConsumeError.join_eq_ok_iff, Handover.errors_eq_nil_iff]
  case later =>
    intro later
    have hSettles := settles_consume conduct.custody (.fanOut branches) hCovers
    have hLeads := Conduct.leads_consume conduct (.fanOut branches) hCovers
    have hLater := Hands.proceeds_performAll later hSettles.covers
    exact ⟨_, _, rfl, hSettles.keeps.trans hLater.keeps, hLeads.trans hLater.leads⟩

theorem fan_out_isolates_branches_meddling :
    ofBranches? Meddling.branches = some (.fanOut Meddling.branches) ∧
    2 ≤ Meddling.branches.length ∧
    Meddling.shared.2.Covers (Meddling.shared.1.1.ref :: ([] ++ Meddling.hands.held)) ∧
    (∃ calls : List (Handover Hands), calls.map Handover.consumer = Meddling.branches ∧
      ∀ before call after, calls = before ++ call :: after →
        call.heap.read call.handle = Meddling.shared.2.read Meddling.shared.1.1) ∧
    ∃ h x, (Consumer.fanOut Meddling.branches).consume Meddling.conduct.outlets Meddling.shared.1.1
        Meddling.shared.2 Meddling.hands = (.ok (), h, x) ∧
      x.view h 0 = [.blank .traces] ∧ x.view h 2 = [(Request.blank .traces).append [.blank]] := by
  have hFanOut : ofBranches? Meddling.branches = some (.fanOut Meddling.branches) := rfl
  obtain ⟨calls, -, -, hBranches, -, hSuits, -⟩ :=
    fan_out_isolates_branches Meddling.conduct hFanOut (by decide) Meddling.covers_shared
  exact ⟨hFanOut, by decide, Meddling.covers_shared,
    ⟨calls, hBranches, fun before call after hSplit => (hSuits before call after hSplit).read⟩,
    _, _, rfl, rfl, rfl⟩

end Consumer

end Telemetry
