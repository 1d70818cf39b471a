import Telemetry.Configuration.Service

/-!
# Building a configuration step by step

Each step adds a component or a pipeline to a configuration. A text that is no id adds nothing and
is remembered; the first such text is what building the configuration fails with.
-/

namespace Telemetry

/-- A text that is no component id, and why. -/
structure BadComponentId where
  /-- The text. -/
  text : String
  /-- What is wrong with it. -/
  source : IdError
deriving DecidableEq

/-- The wording of the failure. -/
def BadComponentId.message (e : BadComponentId) : String :=
  "invalid component id " ++ Text.quoted e.text

/-- A step of building a configuration. -/
inductive BuildStep
  | component (kind : Kind) (id : String) (settings : Json)
  | pipeline (id : String) (receivers processors exporters : List String)

/-- A configuration under construction. -/
structure ConfigBuilder where
  /-- What has been added so far. -/
  config : ServiceConfig
  /-- The texts that were no ids, in order. -/
  errors : List BadComponentId

namespace ConfigBuilder

/-- Nothing added so far. -/
def empty : ConfigBuilder := ⟨.empty, []⟩

/-- The id a text stands for, if it is one, and the builder that remembers if not. -/
def parse (b : ConfigBuilder) (text : String) : Option ComponentId × ConfigBuilder :=
  match ComponentId.parse text with
  | .ok id => (some id, b)
  | .error e => (none, { b with errors := b.errors ++ [⟨text, e⟩] })

/-- The ids among some texts. -/
def parseAll (b : ConfigBuilder) : List String → List ComponentId × ConfigBuilder
  | [] => ([], b)
  | text :: rest =>
    let (id, b) := b.parse text
    let (ids, b) := b.parseAll rest
    (id.toList ++ ids, b)

/-- Enters the settings of a component; an extension is also listed to run. -/
def enter (c : ServiceConfig) (kind : Kind) (id : ComponentId) (settings : Json) :
    ServiceConfig :=
  match kind with
  | .receiver => { c with receivers := c.receivers.insert id settings }
  | .processor => { c with processors := c.processors.insert id settings }
  | .exporter => { c with exporters := c.exporters.insert id settings }
  | .connector => { c with connectors := c.connectors.insert id settings }
  | .extension =>
    { c with
      extensions := c.extensions.insert id settings
      service := { c.service with extensions := c.service.extensions ++ [id] } }

/-- Carries out a step. -/
def step (b : ConfigBuilder) : BuildStep → ConfigBuilder
  | .component kind text settings =>
    match b.parse text with
    | (some id, b) => { b with config := enter b.config kind id settings }
    | (none, b) => b
  | .pipeline key receivers processors exporters =>
    let (receivers, b) := b.parseAll receivers
    let (processors, b) := b.parseAll processors
    let (exporters, b) := b.parseAll exporters
    let service := b.config.service
    let pipelines := service.pipelines.insert key ⟨receivers, processors, exporters⟩
    { b with config := { b.config with service := { service with pipelines := pipelines } } }

/-- The configuration, if every text was an id. -/
def build (b : ConfigBuilder) : Except BadComponentId ServiceConfig :=
  match b.errors with
  | [] => .ok b.config
  | e :: _ => .error e

/-- The configuration some steps build. -/
def run (steps : List BuildStep) : Except BadComponentId ServiceConfig :=
  (steps.foldl step empty).build

end ConfigBuilder

end Telemetry
