import Telemetry.Agent.Delivery

/-!
# Starting and stopping the components of an agent

What each component does when it is started and shut down, and what happens when time goes on.
-/

namespace Telemetry.Agent

/-- Changes the processor that holds batches back with a number. -/
def Installation.updateGatherer (number : Nat) (f : Gatherer → Gatherer) (x : Installation) :
    Installation :=
  { x with gatherers := x.gatherers.modify number f }

/-- Shuts the queue of an exporter down and waits for its workers. -/
def Installation.haltExporter (number : Nat) (x : Installation) : Installation :=
  let call := x.outside.ended.length
  { x with exporting := x.exporting.spawn (.halt number call) }.settle

/-- Starts an exporter; if its queue cannot be started it is shut down. -/
def Installation.startExporter (host : Table ComponentId Component) (number : Nat)
    (x : Installation) : Except ComponentError Unit × Installation :=
  let w := x.exporting.state
  let workers := (w.outside.exporter number).settings.queue.consumers
  match w.start (depot host x.outside) (codec x.outside) number workers with
  | (.ok (), tasks, w) =>
    let exporting := tasks.foldl Scheduling.Turns.spawn { x.exporting with state := w }
    (.ok (), { x with exporting := exporting }.settle)
  | (.error e, _, w) => (.error (.queue e), (x.updateWorks fun _ => w).haltExporter number)

/-- Shuts an exporter down. -/
def Installation.shutdownExporter (number : Nat) (x : Installation) : Installation :=
  (x.updateWorks fun w => { w with outside := w.outside.stop number }).haltExporter number

/-- Whether an address can be occupied; the port zero stands for any port that is free. -/
def Installation.isFree (address : Net.SocketAddress) (x : Installation) : Bool :=
  address.port = 0 ||
    !x.listeners.any fun l => l.serving.isSome && l.settings.endpoint.conflicts address

/-- How listeners are started and shut down. -/
def listenerLifecycle : Lifecycle Installation Nat where
  start n x :=
    match x.listeners[n]? with
    | none => (.ok (), x)
    | some l =>
      if x.isFree l.settings.endpoint then
        (.ok (), { x with listeners := x.listeners.set n { l with serving := some l.routes } })
      else (.error (.start "Address already in use (os error 98)"), x)
  shutdown n x :=
    let stop (l : Listener) : Listener := { l with serving := none }
    (.ok (), { x with listeners := x.listeners.modify n stop })

/-- Starts a component. -/
def startComponent (host : Table ComponentId Component) (c : Component) (s : State) :
    Except ComponentError Unit × State :=
  let x := s.installed
  match c with
  | .idle | .memory _ => (.ok (), s)
  | .recorder label failsStart _ =>
    let outcome := if failsStart then .error (.start (label ++ " refused to start")) else .ok ()
    (outcome, { s with installed := x.record ("start " ++ label) })
  | .gatherer n =>
    let start (g : Gatherer) : Gatherer :=
      if g.stopped then g else { g with ticks := g.ticks ++ [x.now + g.settings.timeout] }
    (.ok (), { s with installed := x.updateGatherer n start })
  | .exporter n =>
    let (outcome, x) := x.startExporter host n
    (outcome, { s with installed := x })
  | .listener n =>
    let (outcome, shared, x) := x.shared.start listenerLifecycle n x
    (outcome, { s with installed := { x with shared := shared } })
  | .files settings =>
    let (outcome, vault) := x.exporting.state.storage.startFiles settings
    (outcome, { s with installed := x.updateWorks fun w => { w with storage := vault } })

/-- Shuts a component down. -/
def shutdownComponent (c : Component) (s : State) : Except ComponentError Unit × State :=
  let x := s.installed
  match c with
  | .idle | .memory _ | .files _ => (.ok (), s)
  | .recorder label _ failsShutdown =>
    let outcome :=
      if failsShutdown then .error (.shutdown (label ++ " refused to stop")) else .ok ()
    (outcome, { s with installed := x.record ("shutdown " ++ label) })
  | .gatherer n =>
    let x := x.updateGatherer n fun g => { g with ticks := [], stopped := true }
    (.ok (), { s with installed := x }.flush n)
  | .exporter n => (.ok (), { s with installed := x.shutdownExporter n })
  | .listener n =>
    let (outcome, shared, x) := x.shared.shutdown listenerLifecycle n x
    (outcome, { s with installed := { x with shared := shared } })

/-- How components are started and shut down, given the extensions that run. -/
def lifecycle (host : Table ComponentId Component) : Lifecycle State Component :=
  ⟨startComponent host, shutdownComponent⟩

/-- Lets everything go on until all wait. -/
def State.settle (s : State) : State := { s with installed := s.installed.settle }

/-- The first time after now, and at most `target`, at which something happens by itself. -/
def Installation.nextDue? (x : Installation) (target : Nat) : Option Nat :=
  let ticks := (x.gatherers.flatMap Gatherer.ticks).filter fun d => x.now < d && d ≤ target
  (ticks ++ (x.exporting.nextDue? (taskRules x.outside) target).toList).min?

/-- Passes on what a processor holds back, for each of its ticks that are due; each comes again after
the same time. -/
def State.tick (s : State) (number : Nat) : State :=
  match s.installed.gatherers[number]? with
  | none => s
  | some g =>
    let now := s.installed.now
    if g.ticks.contains now then
      let ticks := g.ticks.map fun d => if d = now then now + g.settings.timeout else d
      { s with installed := s.installed.updateGatherer number fun g => { g with ticks := ticks } }.flush
        number
    else s

/-- Sets the clock to a time at which something happens, and lets it happen. -/
def State.moveTo (s : State) (now : Nat) : State :=
  let x := s.installed
  let exporting := { x.exporting with now := now }.wake (taskRules x.outside)
  let s := { s with installed := { x with exporting := exporting }.settle }
  ((List.range x.gatherers.length).foldl State.tick s).settle

/-- The states in which the clock stops on its way to a time, in at most so many stops; the last is the
one at that time. -/
def State.stops : Nat → Nat → State → List State
  | 0, _, s => [s]
  | fuel + 1, target, s =>
    match s.installed.nextDue? target with
    | some d =>
      let s := s.moveTo d
      s :: stops fuel target s
    | none =>
      let x := s.installed
      [{ s with installed := { x with exporting := { x.exporting with now := max x.now target } } }]

/-- The states in which the clock stops on its way over so many milliseconds: where something happens
by itself, and at the end. Every stop is later than the one before. -/
def State.elapse (s : State) (ms : Nat) : List State := s.stops (ms + 1) (s.installed.now + ms)

/-- Sets the clock forward by so many milliseconds, stopping wherever something happens by itself. -/
def State.advance (s : State) (ms : Nat) : State := (s.elapse ms).getLastD s

end Telemetry.Agent
