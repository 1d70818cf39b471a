import Telemetry.Exporter.Policy
import Telemetry.Net.SocketAddress

/-!
# Settings of components

The settings of every component of the agent: their types, their defaults, how they are read, and
their JSON form.
-/

namespace Telemetry

/-- Settings of a processor that gathers batches. -/
structure BatchSettings where
  /-- The number of items at which the gathered batch is passed on. -/
  sendBatchSize : Nat
  /-- The longest time between two batches passed on, in milliseconds. -/
  timeout : Nat
deriving DecidableEq, Repr

namespace BatchSettings

/-- Eight thousand items, or a fifth of a second. -/
def default : BatchSettings := ⟨8192, 200⟩

/-- Reads the settings; members that are no fields are refused. -/
def read : Settings.Reader BatchSettings :=
  Settings.record "BatchConfig" ⟨true, false⟩
    [Settings.field "send_batch_size" Settings.count fun v s => { s with sendBatchSize := v },
     Settings.field "timeout" Settings.milliseconds fun v s => { s with timeout := v }] default

/-- The JSON form. -/
def toJson (s : BatchSettings) : Json :=
  .ofMembers [("send_batch_size", .ofNat s.sendBatchSize), ("timeout", .ofNat s.timeout)]

end BatchSettings

/-- What an edit of an attribute does. -/
inductive EditAction
  /-- Sets the attribute, whether or not it is there. -/
  | upsert
  /-- Sets the attribute if it is not there. -/
  | insert
  /-- Sets the attribute if it is there. -/
  | update
  /-- Removes the attribute. -/
  | delete
deriving DecidableEq, Repr

/-- The names of the actions. -/
def EditAction.names : List (String × EditAction) :=
  [("upsert", .upsert), ("insert", .insert), ("update", .update), ("delete", .delete)]

/-- The name of an action. -/
def EditAction.text : EditAction → String
  | .upsert => "upsert"
  | .insert => "insert"
  | .update => "update"
  | .delete => "delete"

/-- An edit of an attribute as it is configured. -/
structure EditSettings where
  /-- The attribute's key. -/
  key : String
  /-- The value to set. -/
  value : Option Json
  /-- What to do. -/
  action : EditAction

namespace EditSettings

/-- Reads an edit; only the key must be given. -/
def read : Settings.Reader EditSettings :=
  Settings.record "AttributeAction" ⟨true, false⟩
    [Settings.requiredField "key" Settings.text fun v s => { s with key := v },
     Settings.field "value" (Settings.optional .ok) fun v s => { s with value := v },
     Settings.field "action" (Settings.enumeration EditAction.names) fun v s =>
       { s with action := v }] ⟨"", none, .upsert⟩

/-- The JSON form. -/
def toJson (s : EditSettings) : Json :=
  .ofMembers [("key", .string s.key), ("value", s.value.getD .null),
    ("action", .string s.action.text)]

end EditSettings

/-- Settings of a processor that edits the attributes of resources: the edits, in order. -/
structure ResourceSettings where
  /-- The edits. -/
  attributes : List EditSettings

namespace ResourceSettings

/-- No edits. -/
def default : ResourceSettings := ⟨[]⟩

/-- Reads the settings; members that are no fields are refused. -/
def read : Settings.Reader ResourceSettings :=
  Settings.record "ResourceConfig" ⟨true, false⟩
    [Settings.field "attributes" (Settings.list EditSettings.read) fun v _ => ⟨v⟩] default

/-- The JSON form. -/
def toJson (s : ResourceSettings) : Json :=
  .ofMembers [("attributes", .array (s.attributes.map EditSettings.toJson))]

end ResourceSettings

/-- The name and the description of a metric. -/
structure MetricLabel where
  /-- The metric's name. -/
  name : String
  /-- The metric's description. -/
  description : String
deriving DecidableEq, Repr

namespace MetricLabel

/-- Reads a label; only the name must be given. -/
def read : Settings.Reader MetricLabel :=
  Settings.record "MetricInfo" ⟨true, false⟩
    [Settings.requiredField "name" Settings.text fun v s => { s with name := v },
     Settings.field "description" Settings.text fun v s => { s with description := v }] ⟨"", ""⟩

/-- The JSON form. -/
def toJson (s : MetricLabel) : Json :=
  .ofMembers [("name", .string s.name), ("description", .string s.description)]

end MetricLabel

/-- Settings of a connector that counts items: the labels of the metrics it makes. -/
structure CountSettings where
  /-- The label of the count of spans. -/
  spans : MetricLabel
  /-- The label of the count of data points. -/
  datapoints : MetricLabel
  /-- The label of the count of log records. -/
  logs : MetricLabel
deriving DecidableEq, Repr

namespace CountSettings

/-- The usual labels. -/
def default : CountSettings where
  spans := ⟨"trace.span.count", "The number of spans observed."⟩
  datapoints := ⟨"metric.datapoint.count", "The number of data points observed."⟩
  logs := ⟨"log.record.count", "The number of log records observed."⟩

/-- Reads the settings; members that are no fields are refused. -/
def read : Settings.Reader CountSettings :=
  Settings.record "CountConfig" ⟨true, false⟩
    [Settings.field "spans" MetricLabel.read fun v s => { s with spans := v },
     Settings.field "datapoints" MetricLabel.read fun v s => { s with datapoints := v },
     Settings.field "logs" MetricLabel.read fun v s => { s with logs := v }] default

/-- The JSON form. -/
def toJson (s : CountSettings) : Json :=
  .ofMembers [("spans", s.spans.toJson), ("datapoints", s.datapoints.toJson),
    ("logs", s.logs.toJson)]

end CountSettings

/-- How much an exporter that describes batches writes about them. -/
inductive Verbosity
  | basic
  | detailed
deriving DecidableEq, Repr

/-- The name of a verbosity. -/
def Verbosity.text : Verbosity → String
  | .basic => "basic"
  | .detailed => "detailed"

/-- The members of an object that are no fields of its record, kept in order. -/
abbrev Leftover := List (String × Json)

/-- Refuses members that are no fields. -/
def Leftover.refuse (unknown : Leftover) : Except SettingsError Unit :=
  if unknown.isEmpty then .ok ()
  else .error (.rule ("unknown field(s) " ++
    ", ".intercalate (unknown.map fun m => SettingsError.backquoted m.1)))

/-- Reads an object whose own fields come first, whose exporter settings stand among them, and
whose other members are kept. -/
def readExporter {σ : Type} (name : String) (own : List (Settings.Field σ)) (start : σ)
    (finish : σ → ExportSettings → Leftover → σ) : Settings.Reader σ
  | .object members => do
    let isOwn (m : String × Json) : Bool := own.any fun f => f.name == m.1
    let s ← Settings.storeMembers own false members start
    let gathered := members.filter fun m => !isOwn m
    let fields := ExportSettings.fields true
    let exports ← Settings.storeMembers fields false gathered .default
    let leftover := gathered.filter fun m => !fields.any fun f => f.name == m.1
    return finish s exports leftover
  | v => .error (.wrongType v ("struct " ++ name))

/-- Settings of an exporter that describes batches. -/
structure DebugSettings where
  /-- How much it writes. -/
  verbosity : Verbosity
  /-- The settings every exporter has. -/
  exports : ExportSettings
  /-- Members that are no fields. -/
  unknown : Leftover

namespace DebugSettings

/-- A line per batch, without a queue and without retries. -/
def default : DebugSettings where
  verbosity := .basic
  exports :=
    { ExportSettings.default with
      retry := { RetryPolicy.default with enabled := false }
      queue := { QueueSettings.default with enabled := false } }
  unknown := []

/-- Reads the settings; members that are no fields are kept. -/
def read : Settings.Reader DebugSettings :=
  readExporter "DebugConfig"
    [Settings.field "verbosity"
      (Settings.enumeration [("basic", Verbosity.basic), ("detailed", .detailed)])
      fun v s => { s with verbosity := v }]
    default fun s e u => { s with exports := e, unknown := u }

/-- The JSON form. -/
def toJson (s : DebugSettings) : Json :=
  .ofMembers ([("verbosity", .string s.verbosity.text)] ++ s.exports.members ++ s.unknown)

end DebugSettings

/-- How the body of a request is compressed. -/
inductive Compression
  | none
  | gzip
deriving DecidableEq, Repr

/-- The name of a compression. -/
def Compression.text : Compression → String
  | .none => "none"
  | .gzip => "gzip"

/-- Settings of an exporter that posts batches to a server. -/
structure HttpSettings where
  /-- The base of the URL. -/
  endpoint : Option String
  /-- How request bodies are compressed. -/
  compression : Compression
  /-- Headers sent with every request. -/
  headers : Table String String
  /-- The settings every exporter has. -/
  exports : ExportSettings
  /-- Members that are no fields. -/
  unknown : Leftover

namespace HttpSettings

/-- Compressed bodies, no further headers, and an endpoint yet to be given. -/
def default : HttpSettings := ⟨.none, .gzip, [], .default, []⟩

/-- Reads the settings; members that are no fields are kept. -/
def read : Settings.Reader HttpSettings :=
  readExporter "OtlpHttpConfig"
    [Settings.field "endpoint" (Settings.optional Settings.text) fun v s =>
       { s with endpoint := v },
     Settings.field "compression"
       (Settings.enumeration [("none", Compression.none), ("gzip", .gzip)]) fun v s =>
       { s with compression := v },
     Settings.field "headers" (Settings.table .ok Settings.text) fun v s => { s with headers := v }]
    default fun s e u => { s with exports := e, unknown := u }

/-- The JSON form. -/
def toJson (s : HttpSettings) : Json :=
  .ofMembers ([("endpoint", .ofOption s.endpoint), ("compression", .string s.compression.text),
    ("headers", .object (s.headers.mapValues .string))] ++ s.exports.members ++ s.unknown)

end HttpSettings

/-- Settings of a receiver that listens for requests. -/
structure ReceiverSettings where
  /-- The address it listens on. -/
  endpoint : Net.SocketAddress
  /-- The longest request body, in bytes, before and after it is inflated. -/
  maxRequestBodySize : Nat
  /-- How long a shutdown waits for requests in flight, in milliseconds. -/
  shutdownTimeout : Nat
deriving DecidableEq, Repr

namespace ReceiverSettings

/-- The standard port on the local host, and twenty mebibytes. -/
def default : ReceiverSettings := ⟨.v4 127 0 0 1 4318, 20 * 1024 * 1024, 2000⟩

/-- Reads a socket address. -/
def address : Settings.Reader Net.SocketAddress
  | .string s => (Net.SocketAddress.parse? s).elim (.error .badAddress) .ok
  | v => .error (.wrongType v "socket address")

/-- Reads the settings; members that are no fields are refused. -/
def read : Settings.Reader ReceiverSettings :=
  Settings.record "OtlpReceiverConfig" ⟨true, false⟩
    [Settings.field "endpoint" address fun v s => { s with endpoint := v },
     Settings.field "max_request_body_size" Settings.count fun v s =>
       { s with maxRequestBodySize := v },
     Settings.field "shutdown_timeout" Settings.milliseconds fun v s =>
       { s with shutdownTimeout := v }] default

/-- The JSON form. -/
def toJson (s : ReceiverSettings) : Json :=
  .ofMembers [("endpoint", .string s.endpoint.text),
    ("max_request_body_size", .ofNat s.maxRequestBodySize),
    ("shutdown_timeout", .ofNat s.shutdownTimeout)]

end ReceiverSettings

/-- Settings of storage in files. -/
structure FileStorageSettings where
  /-- The directory of the files. -/
  directory : String
  /-- Whether the directory is made when it is missing. -/
  createDirectory : Bool
deriving DecidableEq, Repr

namespace FileStorageSettings

/-- The usual directory, made when it is missing. -/
def default : FileStorageSettings := ⟨"/var/lib/otel-agent/file_storage", true⟩

/-- Reads the settings; members that are no fields are refused. -/
def read : Settings.Reader FileStorageSettings :=
  Settings.record "FileStorageConfig" ⟨true, false⟩
    [Settings.field "directory" Settings.path fun v s => { s with directory := v },
     Settings.field "create_directory" Settings.bool fun v s => { s with createDirectory := v }]
    default

/-- The JSON form. -/
def toJson (s : FileStorageSettings) : Json :=
  .ofMembers [("directory", .string s.directory), ("create_directory", .bool s.createDirectory)]

end FileStorageSettings

end Telemetry
