import Telemetry.Component.Factory
import Telemetry.Component.Shared
import Telemetry.Exporter.Sending
import Telemetry.Flow.Gathering
import Telemetry.Flow.Sink
import Telemetry.Gzip.Member
import Telemetry.Http.Posting
import Telemetry.Storage.Vault

/-!
# What an agent consists of

The components of an agent are numbers into the tables kept here: the ends of the pipelines, the
processors that hold batches back, the exporters with their queues, the listeners, and storage.
-/

namespace Telemetry.Agent

open Queue (Works)
open Scheduling (Turns)
open Storage (Vault)

/-- Where an exporter sends batches. -/
inductive Target
  /-- They are described in the agent's own log. -/
  | log
  /-- They are posted to a server. -/
  | server (settings : HttpSettings) (endpoint : String)

/-- Whose exporter it is and where it sends batches. -/
structure Station where
  /-- The id of the component. -/
  id : ComponentId
  /-- The type of its batches. -/
  type : BatchType
  /-- Where it sends them. -/
  target : Target

/-- What exporters send to. -/
structure Outside where
  /-- The exporters, by number. -/
  stations : List Station
  /-- What can be reached. -/
  network : Http.Network
  /-- The calls to shut an exporter down that are over. -/
  ended : List Nat

/-- The work on one batch. -/
structure Posting where
  /-- The number of the exporter. -/
  exporter : Nat
  /-- The token it works under. -/
  token : Nat
  /-- The batch. -/
  request : Request

/-- Sends a batch to the target of its exporter. -/
def Posting.send (p : Posting) (tokens : Tokens) (o : Outside) :
    Outcome × Outside :=
  match o.stations[p.exporter]?.map Station.target with
  | some (.server settings endpoint) =>
    if tokens.isCancelled p.token then (.error .cancelled, o)
    else
      let (outcome, network) := Http.post Gzip.pack settings endpoint p.request o.network
      (outcome, { o with network := network })
  | _ => (.ok (), o)

/-- The targets as exporters see them: every batch is answered at once. -/
def destination : Destination Outside Posting where
  begin exporter token r o := (⟨exporter, token, r⟩, o)
  canGo _ _ _ := true
  due _ := []
  turn _ p tokens o :=
    let (outcome, o) := p.send tokens o
    (.inr outcome, tokens, o)
  answered _ _ _ o := o
  stopped _ _ call o := { o with ended := call :: o.ended }

/-- An end of the pipelines. -/
inductive Port
  /-- The exporter with a number. -/
  | exporter (number : Nat)
  /-- A sink. -/
  | sink (sink : Sink)

/-- A processor that holds batches back. -/
structure Gatherer where
  /-- Its settings. -/
  settings : BatchSettings
  /-- What it holds back. -/
  held : Gathering
  /-- Where its batches go. -/
  next : Consumer
  /-- The times at which it passes on what it holds. -/
  ticks : List Nat
  /-- Whether it was shut down. -/
  stopped : Bool

/-- Where the batches of each type go; a type that is not there is refused. -/
abbrev Routes := BatchType → Option Consumer

/-- No type goes anywhere. -/
def Routes.none : Routes := fun _ => Option.none

/-- Sends the batches of a type to a consumer. -/
def Routes.set (type : BatchType) (c : Consumer) (r : Routes) : Routes :=
  fun t => if t = type then some c else r t

/-- A receiver that listens for requests. -/
structure Listener where
  /-- Its settings. -/
  settings : ReceiverSettings
  /-- Where its batches are to go. -/
  routes : Routes
  /-- Where its batches go since it was started; it occupies its address as long as this is known. -/
  serving : Option Routes
  /-- The number of requests whose batches were delivered. -/
  accepted : Nat

/-- A component of an agent. -/
inductive Component
  /-- Does nothing when it is started or shut down. -/
  | idle
  /-- Writes down when it is started and shut down, and may refuse. -/
  | recorder (label : String) (failsStart failsShutdown : Bool)
  /-- A processor that holds batches back, by number. -/
  | gatherer (number : Nat)
  /-- An exporter, by number. -/
  | exporter (number : Nat)
  /-- A receiver that listens, by its number among the shared ones. -/
  | listener (number : Nat)
  /-- Storage in memory, by the number of its store. -/
  | memory (store : Nat)
  /-- Storage in files. -/
  | files (settings : FileStorageSettings)

/-- Whether a component is storage. -/
def Component.isStorage : Component → Bool
  | memory _ | files _ => true
  | _ => false

/-- The exporters of an agent with their tasks, and the clock. -/
abbrev Exporting := Turns (Works Request Vault (Exporters Outside)) (Queue.Task (Sending Posting))

/-- The components made so far. -/
structure Installation where
  /-- The ends of the pipelines, by place. -/
  ports : List Port
  /-- The processors that hold batches back, by number. -/
  gatherers : List Gatherer
  /-- The exporters. -/
  exporting : Exporting
  /-- The listeners, by number. -/
  listeners : List Listener
  /-- The listeners that are shared between signals. -/
  shared : SharedComponents Nat
  /-- The stores in memory that belong to ids. -/
  stores : Table ComponentId Nat
  /-- What recorders wrote down. -/
  journal : List String

namespace Installation

/-- Nothing was made. -/
def empty (network : Http.Network) : Installation :=
  ⟨[], [], .start ⟨[], .empty, ⟨#[], [], ⟨[], network, []⟩⟩⟩, [], .empty, [], []⟩

/-- The time. -/
def now (x : Installation) : Nat := x.exporting.now

/-- Changes the exporters and what surrounds them. -/
def updateWorks (x : Installation)
    (f : Works Request Vault (Exporters Outside) → Works Request Vault (Exporters Outside)) :
    Installation :=
  { x with exporting := { x.exporting with state := f x.exporting.state } }

/-- Adds an end of the pipelines; the first result is a consumer that leads there. -/
def addPort (p : Port) (x : Installation) : Consumer × Installation :=
  (.leaf false x.ports.length, { x with ports := x.ports ++ [p] })

/-- Adds a processor that holds batches back. -/
def addGatherer (s : BatchSettings) (next : Consumer) (x : Installation) :
    Inlet Component × Installation :=
  let n := x.gatherers.length
  (⟨.gatherer n, .gather n next⟩,
    { x with gatherers := x.gatherers ++ [⟨s, .empty, next, [], false⟩] })

/-- Adds an exporter. -/
def addExporter (s : ExportSettings) (station : Station) (x : Installation) :
    Inlet Component × Installation :=
  let n := x.exporting.state.lines.length
  let x := x.updateWorks fun w =>
    let e := w.outside.add s
    { w.addLine (Queue.SendingQueue.ofSettings? s.queue) with
      outside := { e with outside := { e.outside with stations := e.outside.stations ++ [station] } } }
  let (consumer, x) := x.addPort (.exporter n)
  (⟨.exporter n, consumer⟩, x)

/-- Makes the receiver of an id that listens for requests, unless it is there, and sends its batches of
a type to a consumer. -/
def addListener (id : ComponentId) (type : BatchType) (s : ReceiverSettings) (next : Consumer)
    (x : Installation) : Except ComponentError Component × Installation :=
  let make (x : Installation) : Except ComponentError Nat × Installation :=
    (.ok x.listeners.length, { x with listeners := x.listeners ++ [⟨s, .none, none, 0⟩] })
  let (made, shared, x) := x.shared.getOrAdd id make x
  let x := { x with shared := shared }
  match made with
  | .error e => (.error e, x)
  | .ok n =>
    let place := (shared.inner? n).getD x.listeners.length
    let listeners := x.listeners.modify place fun l => { l with routes := l.routes.set type next }
    (.ok (.listener n), { x with listeners := listeners })

/-- The store in memory that belongs to an id, which is made if there is none. -/
def storeFor (id : ComponentId) (x : Installation) : Nat × Installation :=
  match x.stores.get? id with
  | some store => (store, x)
  | none =>
    let (store, vault) := x.exporting.state.storage.newMemory
    (store, { x.updateWorks fun w => { w with storage := vault } with
      stores := x.stores.insert id store })

/-- Writes a line into the journal. -/
def record (line : String) (x : Installation) : Installation :=
  { x with journal := x.journal ++ [line] }

end Installation

/-- The state of an agent: its components and the batches they hold. -/
structure State where
  /-- The batches. -/
  heap : Heap
  /-- The components. -/
  installed : Installation

end Telemetry.Agent
