import Telemetry.Failure.Consume
import Telemetry.Identity.Node

/-!
# Failures of components and of their graph

What can go wrong while components are created, started and stopped, while factories are
registered, and while a service is built from its configuration.
-/

namespace Telemetry

/-- A failure of one component, or of several. -/
inductive ComponentError
  | signalNotSupported (kind : Kind) (id : ComponentId) (signal : Signal)
  | connectionNotSupported (id : ComponentId) (source target : Signal)
  | invalidConfig (id : ComponentId) (reason : String)
  | start (reason : String)
  | shutdown (reason : String)
  | queue (source : QueueError)
  | joined (members : List ComponentError)
deriving Inhabited

namespace ComponentError

mutual

/-- The wording of a component error. -/
def message : ComponentError → String
  | signalNotSupported kind id signal =>
    kind.text ++ " \"" ++ id.text ++ "\" does not support the " ++ signal.text ++ " signal"
  | connectionNotSupported id source target =>
    "connector \"" ++ id.text ++ "\" cannot connect " ++ source.text ++ " to " ++ target.text
  | invalidConfig id reason => "invalid configuration for \"" ++ id.text ++ "\": " ++ reason
  | start reason => "failed to start: " ++ reason
  | shutdown reason => "failed to shut down: " ++ reason
  | queue source => source.message
  | joined members => "; ".intercalate (messages members)

/-- The wordings of several component errors. -/
def messages : List ComponentError → List String
  | [] => []
  | e :: rest => message e :: messages rest

end

/-- The outcome of several calls: no error if none failed, the error itself if one did. -/
def join : List ComponentError → Except ComponentError Unit
  | [] => .ok ()
  | [e] => .error e
  | es => .error (joined es)

end ComponentError

/-- A second factory for a type of component. -/
structure DuplicateFactory where
  /-- The kind of component both factories make. -/
  kind : Kind
  /-- The type of component both factories make. -/
  type : ComponentType
deriving DecidableEq

/-- The wording of a registration failure. -/
def DuplicateFactory.message (e : DuplicateFactory) : String :=
  "duplicate " ++ e.kind.text ++ " factory \"" ++ e.type.text ++ "\""

/-- Where a configuration refers to a component. -/
inductive ReferencePlace
  | pipeline (id : PipelineId)
  | service
deriving DecidableEq

/-- How a place is named in messages. -/
def ReferencePlace.text : ReferencePlace → String
  | pipeline id => "pipeline \"" ++ id.text ++ "\""
  | service => "service"

/-- What a start or a shutdown failure is about. -/
inductive ServicePart
  | node (id : NodeId)
  | extension (id : ComponentId)
deriving DecidableEq

/-- How a part of a service is named in messages. -/
def ServicePart.text : ServicePart → String
  | node id => id.text
  | extension id => "extension \"" ++ id.text ++ "\""

/-- Why a service could not be built, started or stopped. -/
inductive GraphError
  | noPipelines
  | invalidPipelineId (key : String) (source : IdError)
  | unknownSignal (key signal : String)
  | missingReceivers (pipeline : PipelineId)
  | missingExporters (pipeline : PipelineId)
  | duplicateProcessor (pipeline : PipelineId) (id : ComponentId)
  | notConfigured (place : ReferencePlace) (kind : Kind) (id : ComponentId)
  | factoryNotFound (kind : Kind) (id : ComponentId)
  | connectorUnused (id : ComponentId) (pipeline : PipelineId) (usedAs missingAs : Kind)
  | nilNextConsumer
  | cycle (path : List NodeId)
  | create (part : ServicePart) (source : ComponentError)
  | start (part : ServicePart) (source : ComponentError)
  | shutdown (part : ServicePart) (source : ComponentError)
  | joined (members : List GraphError)
deriving Inhabited

namespace GraphError

mutual

/-- The wording of a graph error. -/
def message : GraphError → String
  | noPipelines => "service must have at least one pipeline"
  | invalidPipelineId key _ => "invalid pipeline id " ++ Text.quoted key
  | unknownSignal key signal =>
    "pipeline " ++ Text.quoted key ++ ": unknown signal " ++ Text.quoted signal
  | missingReceivers pipeline =>
    "pipeline \"" ++ pipeline.text ++ "\" must have at least one receiver"
  | missingExporters pipeline =>
    "pipeline \"" ++ pipeline.text ++ "\" must have at least one exporter"
  | duplicateProcessor pipeline id =>
    "pipeline \"" ++ pipeline.text ++ "\" references processor \"" ++ id.text ++ "\" multiple times"
  | notConfigured place kind id =>
    place.text ++ " references " ++ kind.text ++ " \"" ++ id.text ++ "\" which is not configured"
  | factoryNotFound kind id => kind.text ++ " factory not available for \"" ++ id.text ++ "\""
  | connectorUnused id pipeline usedAs missingAs =>
    "connector \"" ++ id.text ++ "\" used as " ++ usedAs.text ++ " in \"" ++ pipeline.text ++
      "\" but not used in any supported " ++ missingAs.text ++ " pipeline"
  | nilNextConsumer => "nil next consumer"
  | cycle path => "cycle detected: " ++ " -> ".intercalate (path.map NodeId.text)
  | create part source => "failed to create " ++ part.text ++ ": " ++ source.message
  | start part source => "failed to start " ++ part.text ++ ": " ++ source.message
  | shutdown part source => "failed to shut down " ++ part.text ++ ": " ++ source.message
  | joined members => "; ".intercalate (messages members)

/-- The wordings of several graph errors. -/
def messages : List GraphError → List String
  | [] => []
  | e :: rest => message e :: messages rest

end

/-- The outcome of several calls: no error if none failed, the error itself if one did. -/
def join : List GraphError → Except GraphError Unit
  | [] => .ok ()
  | [e] => .error e
  | es => .error (joined es)

end GraphError

end Telemetry
