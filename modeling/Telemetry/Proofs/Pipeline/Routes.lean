import Telemetry.Identity.Node
import Telemetry.Proofs.Flow.Layers

/-!
# The ways of a batch

The consumer of a node is a tree. With its inner consumers labelled by the nodes they stand for, a run of
it can write down on which ways, and with which contents, batches come to which nodes. It does so on every
way once, whatever the ends of the pipelines answer.
-/

namespace Telemetry

/-- A batch that came to a node. -/
structure Arrival where
  /-- The nodes on the way, the last of which is the one it came to. -/
  path : List NodeId
  /-- What it held. -/
  content : Request

/-- A consumer whose parts are labelled by nodes. -/
inductive Route
  /-- A node that hands nothing on to further nodes. -/
  | stop (node : NodeId) (consumer : Consumer)
  /-- A node that forwards to further nodes. -/
  | relay (node : NodeId) (layers : List Layer) (branches : List Route)

namespace Route

theorem induction {P : Route → Prop} (stop : ∀ node consumer, P (.stop node consumer))
    (relay : ∀ node layers branches, (∀ r ∈ branches, P r) → P (.relay node layers branches)) :
    ∀ r, P r
  | .stop node consumer => stop node consumer
  | .relay node layers branches => relay node layers branches fun r _ => induction stop relay r

/-- The node at the root. -/
def node : Route → NodeId
  | stop node _ | relay node _ _ => node

/-- A consumer that hands every batch to all of the given ones. -/
def joined : List Consumer → Consumer
  | [c] => c
  | cs => .fanOut cs

theorem ofBranches?_eq_some_iff {cs : List Consumer} {c : Consumer} :
    Consumer.ofBranches? cs = some c ↔ cs ≠ [] ∧ c = joined cs :=
  match cs with
  | [] => by simp [Consumer.ofBranches?]
  | [_] | _ :: _ :: _ => by simp [Consumer.ofBranches?, joined, eq_comm]

mutual

/-- The consumer without labels. -/
def erase : Route → Consumer
  | stop _ consumer => consumer
  | relay _ layers branches => Layer.wrapAll layers (joined (eraseAll branches))

/-- The consumers without labels. -/
def eraseAll : List Route → List Consumer
  | [] => []
  | r :: rest => erase r :: eraseAll rest

end

theorem eraseAll_eq_map (rs : List Route) : eraseAll rs = rs.map erase := by
  induction rs with
  | nil => rfl
  | cons r rs ih => rw [eraseAll, ih, List.map_cons]

theorem joined_eraseAll {branches : List Route} (hMany : ¬ ∃ r, branches = [r]) :
    joined (eraseAll branches) = .fanOut (eraseAll branches) :=
  match branches, hMany with
  | [], _ => rfl
  | [r], hMany => absurd ⟨r, rfl⟩ hMany
  | _ :: _ :: _, _ => rfl

variable {σ : Type} {outlets : Outlets σ}

mutual

/-- Consumes a batch and writes down its ways, given the way so far. -/
def consume (outlets : Outlets σ) :
    Route → List NodeId → Handle → Heap → σ × List Arrival → Outcome × Heap × σ × List Arrival
  | stop node consumer, path, b, h, (s, log) =>
    let (outcome, h', s) := consumer.consume outlets b h s
    (outcome, h', s, log ++ [⟨path ++ [node], h.read b⟩])
  | relay node layers [r], path, b, h, (s, log) =>
    let log := log ++ [⟨path ++ [node], h.read b⟩]
    let (b, h) := Layer.carryAll layers b h
    consume outlets r (path ++ [node]) b h (s, log)
  | relay node layers branches, path, b, h, (s, log) =>
    let log := log ++ [⟨path ++ [node], h.read b⟩]
    let (b, h) := Layer.carryAll layers b h
    let given := (eraseAll branches).all Consumer.mutates
    let (errors, h, s) := dispatch outlets given branches (path ++ [node]) b h (s, log)
    (ConsumeError.join errors, h, s)

/-- Hands a batch to consumers in turn. -/
def dispatch (outlets : Outlets σ) (given : Bool) :
    List Route → List NodeId → Handle → Heap → σ × List Arrival →
      List ConsumeError × Heap × σ × List Arrival
  | [], _, b, h, s => ([], h.release b, s)
  | r :: rest, path, b, h, s =>
    if given && rest.isEmpty then
      let (outcome, h, s) := consume outlets r path b h s
      (Outcome.errors outcome, h, s)
    else
      let ((b, own), h) := if r.erase.mutates then h.duplicate b else h.share b
      let (outcome, h, s) := consume outlets r path own h s
      let (errors, h, s) := dispatch outlets given rest path b h s
      (Outcome.errors outcome ++ errors, h, s)

end

mutual

/-- Where a batch arrives, and with what content. -/
def arrivals : Route → List NodeId → Request → List Arrival
  | stop node _, path, r => [⟨path ++ [node], r⟩]
  | relay node layers branches, path, r =>
    ⟨path ++ [node], r⟩ :: arrivalsAll branches (path ++ [node]) (Layer.changeAll layers r)

/-- Where a batch arrives that is handed to several consumers. -/
def arrivalsAll : List Route → List NodeId → Request → List Arrival
  | [], _, _ => []
  | branch :: rest, path, r => arrivals branch path r ++ arrivalsAll rest path r

end

theorem arrivalsAll_eq_flatMap (rs : List Route) (path : List NodeId) (content : Request) :
    arrivalsAll rs path content = rs.flatMap fun r => r.arrivals path content := by
  induction rs with
  | nil => rfl
  | cons r rs ih => rw [arrivalsAll, ih, List.flatMap_cons]

/-! ## The run that is written down is the run -/

variable {held : σ → List Nat} {b : Handle} {h : Heap} {s : σ} {log : List Arrival}
  {path : List NodeId} {refs : List Nat}

/-- A run writes the arrivals down, and is else the run of the consumer without labels. -/
def Records (outlets : Outlets σ) (held : σ → List Nat) (r : Route) : Prop :=
  ∀ path b h s log refs, h.Covers (b.ref :: (refs ++ held s)) →
    r.consume outlets path b h (s, log) =
      ((r.erase.consume outlets b h s).1, (r.erase.consume outlets b h s).2.1,
        (r.erase.consume outlets b h s).2.2, log ++ r.arrivals path (h.read b))

theorem dispatch_eq (hCustody : outlets.Custody held) {given : Bool} {branches : List Route}
    (hBranches : ∀ r ∈ branches, r.Records outlets held)
    (hCovers : h.Covers (b.ref :: (refs ++ held s))) :
    dispatch outlets given branches path b h (s, log) =
      ((Consumer.dispatch outlets given (eraseAll branches) b h s).1,
        (Consumer.dispatch outlets given (eraseAll branches) b h s).2.1,
        (Consumer.dispatch outlets given (eraseAll branches) b h s).2.2,
        log ++ arrivalsAll branches path (h.read b)) := by
  induction branches generalizing b h s log with
  | nil => simp [dispatch, eraseAll, Consumer.dispatch, arrivalsAll]
  | cons r rest ih =>
      have hRecords := hBranches r List.mem_cons_self
      have hEmpty : (eraseAll rest).isEmpty = rest.isEmpty := by simp [eraseAll_eq_map]
      rw [dispatch, eraseAll, Consumer.dispatch, hEmpty, arrivalsAll]
      split
      · rename_i hLast
        have hRest : rest = [] := by simpa using (Bool.and_eq_true_iff.mp hLast).2
        rw [hRecords path b h s log refs hCovers, hRest, arrivalsAll, List.append_nil]
      · -- What the branch did to its own handle cannot be seen through the one that is left.
        have hSpares := Consumer.Settling.spares (r.erase.settles_consume hCustody) hCovers
        generalize (if r.erase.mutates then h.duplicate b else h.share b) = branch at hSpares ⊢
        obtain ⟨⟨left, own⟩, h'⟩ := branch
        simp only
        rw [hRecords path own h' s log (b.ref :: refs) hSpares.covers_own, hSpares.read_own]
        simp only
        rw [ih (fun r hr => hBranches r (List.mem_cons_of_mem _ hr)) hSpares.covers_left,
          hSpares.read_left, List.append_assoc]

theorem records (hCustody : outlets.Custody held) (r : Route) : r.Records outlets held := by
  induction r using Route.induction with
  | stop node consumer =>
      intro path b h s log refs hCovers
      rw [consume, erase, arrivals]
  | relay node layers branches ih =>
      intro path b h s log refs hCovers
      have hCarried := Layer.exchanges_carryAll layers hCovers
      rw [erase, arrivals, Layer.consume_wrapAll, ← hCarried.read]
      generalize hHandle : Layer.carryAll layers b h = carried at hCarried ⊢
      obtain ⟨b', h'⟩ := carried
      by_cases hOne : ∃ r, branches = [r]
      · obtain ⟨r, rfl⟩ := hOne
        have hRun := ih r List.mem_cons_self (path ++ [node]) b' h' s
          (log ++ [⟨path ++ [node], h.read b⟩]) refs hCarried.covers
        rw [consume, hHandle]
        simpa [eraseAll, joined, arrivalsAll] using hRun
      · have hRun : dispatch outlets ((eraseAll branches).all Consumer.mutates) branches (path ++ [node])
            b' h' (s, log ++ [⟨path ++ [node], h.read b⟩]) = _ :=
          dispatch_eq hCustody ih hCarried.covers
        rw [consume, hHandle, joined_eraseAll hOne, Consumer.consume]
        · simp only
          rw [hRun]
          simp
        · exact fun r hr => hOne ⟨r, hr⟩

end Route

end Telemetry
