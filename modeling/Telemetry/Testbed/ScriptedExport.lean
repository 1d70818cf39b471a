import Telemetry.Exporter.Sending
import Telemetry.Failure.Component
import Telemetry.Testbed.Trial

/-!
# Exporters that follow a script

An exporter whose destination does what a script says for every attempt, and writes down when it
did so. It shows how attempts, waits, queues and shutdowns follow each other.
-/

namespace Telemetry.Testbed

open Storage (StorageSite)

/-- What a destination does at one attempt. -/
structure Cue where
  /-- How long it rests first, in milliseconds. -/
  delay : Nat
  /-- Whether it cancels the token it works under. -/
  cancels : Bool
  /-- The error it answers with, if it refuses. -/
  refusal : Option ConsumeError

/-- What a destination does at every attempt. -/
structure Script where
  /-- The cues for batches with certain numbers of items. -/
  parts : List (Nat × List Cue)
  /-- The cues for all others. -/
  others : List Cue

/-- The cue for an attempt, by its number from one on; the last cue is repeated. -/
def Script.cue (s : Script) (items number : Nat) : Cue :=
  let cues := (s.parts.lookup items).getD s.others
  (cues[number - 1]?).getD (cues.getLast?.getD ⟨0, false, none⟩)

/-- What is written down. -/
inductive StageNote
  | started
  | stopped
  | attempt (items number : Nat)
  | ended (items number : Nat)
  | answered (call : Nat) (outcome : Outcome)

/-- The wording of what is written down. -/
def StageNote.text : StageNote → String
  | started => "start"
  | stopped => "shutdown"
  | attempt items number => "attempt " ++ toString items ++ " #" ++ toString number
  | ended items number => "end " ++ toString items ++ " #" ++ toString number
  | answered call _ => "result " ++ toString call

/-- What is written down with an outcome. -/
def StageNote.outcome? : StageNote → Option Outcome
  | answered _ outcome => some outcome
  | _ => none

/-- A destination that follows a script. -/
structure Stage where
  /-- The script. -/
  script : Script
  /-- Whether it refuses to start. -/
  failsStart : Bool
  /-- Whether it refuses to shut down. -/
  failsShutdown : Bool
  /-- The number of attempts so far, by exporter and number of items. -/
  attempts : List ((Nat × Nat) × Nat)
  /-- What was written down, and when, the latest first. -/
  notes : List (Nat × StageNote)
  /-- The number of the last call to shut down, until its outcome was shown. -/
  asked : Option Nat
  /-- The outcome of that call. -/
  outcome : Option (Except ComponentError Unit)

namespace Stage

/-- The work on one batch. -/
inductive Performance
  /-- It is to begin. -/
  | entering (exporter token items : Nat)
  /-- It rests. -/
  | resting (wake token items number : Nat) (cue : Cue)

/-- A destination that nothing has happened to. -/
def ofScript (script : Script) (failsStart failsShutdown : Bool) : Stage :=
  ⟨script, failsStart, failsShutdown, [], [], none, none⟩

/-- Writes something down. -/
def note (s : Stage) (now : Nat) (n : StageNote) : Stage := { s with notes := (now, n) :: s.notes }

/-- Counts an attempt. -/
def count (s : Stage) (exporter items : Nat) : Nat × Stage :=
  let key := (exporter, items)
  let number := (s.attempts.lookup key).getD 0 + 1
  (number, { s with attempts := (key, number) :: s.attempts })

/-- The end of the work on a batch. -/
def finish (now token items number : Nat) (cue : Cue) (tokens : Tokens) (s : Stage) :
    (Performance ⊕ Outcome) × Tokens × Stage :=
  let tokens := if cue.cancels then tokens.cancel token else tokens
  (.inr (cue.refusal.elim (.ok ()) .error), tokens, s.note now (.ended items number))

/-- One turn of the work on a batch. -/
def turn (now : Nat) (p : Performance) (tokens : Tokens) (s : Stage) :
    (Performance ⊕ Outcome) × Tokens × Stage :=
  match p with
  | .entering exporter token items =>
    let (number, s) := s.count exporter items
    let s := s.note now (.attempt items number)
    let cue := s.script.cue items number
    if cue.delay = 0 then finish now token items number cue tokens s
    else (.inl (.resting (now + cue.delay) token items number cue), tokens, s)
  | .resting _ token items number cue => finish now token items number cue tokens s

/-- Shuts the destination down. -/
def shutdown (now : Nat) (s : Stage) : Except ComponentError Unit × Stage :=
  (if s.failsShutdown then .error (.shutdown "export refused") else .ok (), s.note now .stopped)

/-- The destination as exporters see it. -/
def destination : Destination Stage Performance where
  begin exporter token r s := (.entering exporter token r.itemCount, s)
  canGo now _ p := match p with
    | .entering .. => true
    | .resting wake .. => wake ≤ now
  due p := match p with
    | .entering .. => []
    | .resting wake .. => [wake]
  turn := turn
  answered now call outcome s := s.note now (.answered call outcome)
  stopped now _ call s :=
    let (outcome, s) := s.shutdown now
    if s.asked = some call then { s with outcome := some outcome } else s

/-- What was written down, in the order of time and wording. -/
def sortedNotes (s : Stage) : List (Nat × StageNote) :=
  s.notes.reverse.mergeSort fun (t, a) (u, b) => t < u || (t = u && a.text ≤ b.text)

end Stage

/-- Exporters, one after the other, with one script and one storage. -/
structure ScriptedExport where
  /-- The settings of the exporters. -/
  settings : ExportSettings
  /-- The exporters and their tasks. -/
  trial : Trial (Exporters Stage) (Sending Stage.Performance)
  /-- The number of the exporter in use. -/
  current : Nat
  /-- The tokens of the consume calls. -/
  calls : List Nat
  /-- The number of calls to shut down so far. -/
  shutdowns : Nat

namespace ScriptedExport

/-- The rules by which the exporters send. -/
def rules : Queue.SendRules Request (Exporters Stage) (Sending Stage.Performance) :=
  Sending.rules Stage.destination

/-- Adds an exporter and uses it. -/
def renew (x : ScriptedExport) : ScriptedExport :=
  let t := x.trial.update fun w => w.addLine (Queue.SendingQueue.ofSettings? x.settings.queue)
  { x with
    trial := t.updateOutside fun e =>
      { e.add x.settings with outside := { e.outside with asked := none, outcome := none } }
    current := t.works.lines.length - 1 }

/-- An exporter, given where its queue finds storage. -/
def build (type : BatchType) (settings : ExportSettings) (space : String) (site : StorageSite)
    (stage : Stage) : ScriptedExport :=
  renew ⟨settings, .start type space site ⟨#[], [], stage⟩, 0, [], 0⟩

/-- The exporter in use. -/
def exporter (x : ScriptedExport) : Exporter := x.trial.outside.exporter x.current

/-- Its queue. -/
def queue? (x : ScriptedExport) : Option (Queue.SendingQueue Request) :=
  (x.trial.works.line x.current).queue

/-- The destination. -/
def stage (x : ScriptedExport) : Stage := x.trial.outside.outside

/-- The time. -/
def now (x : ScriptedExport) : Nat := x.trial.turns.now

/-- Changes the destination. -/
def updateStage (x : ScriptedExport) (f : Stage → Stage) : ScriptedExport :=
  { x with trial := x.trial.updateOutside fun e => { e with outside := f e.outside } }

/-- Lets every task go on until all wait. -/
def settle (x : ScriptedExport) : ScriptedExport := { x with trial := x.trial.settle rules }

/-- Sets the clock forward. -/
def advance (x : ScriptedExport) (ms : Nat) : ScriptedExport :=
  { x with trial := x.trial.advance rules ms }

/-- Begins a shutdown. -/
def halt (x : ScriptedExport) : ScriptedExport :=
  { x with trial := x.trial.spawn (.halt x.current x.shutdowns), shutdowns := x.shutdowns + 1 }

/-- Starts the destination, then the queue. If either fails both are shut down. -/
def start (x : ScriptedExport) : Except ComponentError Unit × ScriptedExport :=
  let x := x.updateStage fun s => s.note x.now .started
  if x.stage.failsStart then (.error (.start "export refused"), x.halt)
  else
    match x.trial.startLine x.current x.settings.queue.consumers with
    | (.ok (), t) => (.ok (), { x with trial := t })
    | (.error e, t) => (.error (.queue e), { x with trial := t }.halt)

/-- Begins to consume a batch under a token of its own. -/
def consume (x : ScriptedExport) (r : Request) : ScriptedExport :=
  let number := x.calls.length
  let (token, tokens) := x.trial.outside.tokens.root
  let x := { x with
    calls := x.calls ++ [token]
    trial := x.trial.updateOutside fun e => { e with tokens := tokens } }
  if x.queue?.isNone then
    { x with trial := x.trial.spawn (.caller number (.fresh x.current token r)) }
  else
    let (outcome, t) := x.trial.offer rules x.current r
    { x with trial := t }.updateStage fun s =>
      s.note x.now (.answered number (outcome.mapError .ofQueue))

/-- Cancels the token of a consume call. -/
def cancel (x : ScriptedExport) (call : Nat) : ScriptedExport :=
  match x.calls[call]? with
  | none => x
  | some token =>
    { x with trial := x.trial.updateOutside fun e => { e with tokens := e.tokens.cancel token } }

/-- Asks for the shutdown of the exporter in use. -/
def shutdown (x : ScriptedExport) : ScriptedExport :=
  let asked := x.updateStage fun s => { s with asked := some x.shutdowns, outcome := none }
  { asked with trial := asked.trial.updateOutside fun e => e.stop x.current }.halt

/-- Forgets what was written down, and the outcome of a shutdown that is over. -/
def turnPage (x : ScriptedExport) : ScriptedExport :=
  x.updateStage fun s =>
    { s with
      notes := []
      asked := if s.outcome.isSome then none else s.asked
      outcome := none }

end ScriptedExport

end Telemetry.Testbed
