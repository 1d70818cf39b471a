import Telemetry.Text.Quoted

/-!
# Signals, kinds and stability levels

The kinds of telemetry a pipeline carries, the kinds of components, and how mature a component is
for a signal. Each has a text, and an order: the one in which the constructors are listed.
-/

namespace Telemetry

/-- Why a text is not an id. -/
inductive IdError
  | emptyType
  | invalidType (text : String)
  | emptyName
  | invalidName (name : String)
  | unknownSignal (text : String)
deriving DecidableEq, Repr

/-- The wording of an id error. -/
def IdError.message : IdError → String
  | .emptyType => "id must not have an empty type"
  | .invalidType text => "invalid character(s) in type " ++ Text.quoted text
  | .emptyName => "name part must be specified after '/' in id"
  | .invalidName name => "invalid character(s) in name " ++ Text.quoted name
  | .unknownSignal text => "unknown signal " ++ Text.quoted text

/-- A kind of telemetry. -/
inductive Signal
  | traces
  | metrics
  | logs
  | profiles
deriving DecidableEq, Repr

namespace Signal

/-- The name of a signal. -/
def text : Signal → String
  | traces => "traces"
  | metrics => "metrics"
  | logs => "logs"
  | profiles => "profiles"

/-- The position of a signal in the order of signals. -/
def rank : Signal → Nat
  | traces => 0
  | metrics => 1
  | logs => 2
  | profiles => 3

instance : Ord Signal := ⟨fun a b => compare a.rank b.rank⟩

/-- Every signal, in order. -/
def all : List Signal := [traces, metrics, logs, profiles]

/-- The signal with a given name. -/
def parse (s : String) : Except IdError Signal :=
  match s with
  | "traces" => .ok traces
  | "metrics" => .ok metrics
  | "logs" => .ok logs
  | "profiles" => .ok profiles
  | "" => .error .emptyType
  | other => .error (.unknownSignal other)

end Signal

/-- What a component does in a service. -/
inductive Kind
  | receiver
  | processor
  | exporter
  | connector
  | extension
deriving DecidableEq, Repr

namespace Kind

/-- The name of a kind. -/
def text : Kind → String
  | receiver => "receiver"
  | processor => "processor"
  | exporter => "exporter"
  | connector => "connector"
  | extension => "extension"

/-- The position of a kind in the order of kinds. -/
def rank : Kind → Nat
  | receiver => 0
  | processor => 1
  | exporter => 2
  | connector => 3
  | extension => 4

instance : Ord Kind := ⟨fun a b => compare a.rank b.rank⟩

/-- Every kind, in order. -/
def all : List Kind := [receiver, processor, exporter, connector, extension]

/-- The kind with a given name. -/
def ofText? (s : String) : Option Kind := all.find? fun k => k.text == s

end Kind

/-- How mature a component is for a signal. -/
inductive Stability
  | undefined
  | unmaintained
  | deprecated
  | development
  | alpha
  | beta
  | stable
deriving DecidableEq, Repr

namespace Stability

/-- The name of a level. -/
def text : Stability → String
  | undefined => "undefined"
  | unmaintained => "unmaintained"
  | deprecated => "deprecated"
  | development => "development"
  | alpha => "alpha"
  | beta => "beta"
  | stable => "stable"

/-- The position of a level in the order of levels. -/
def rank : Stability → Nat
  | undefined => 0
  | unmaintained => 1
  | deprecated => 2
  | development => 3
  | alpha => 4
  | beta => 5
  | stable => 6

instance : Ord Stability := ⟨fun a b => compare a.rank b.rank⟩

/-- A level without a statement about maturity is the default. -/
instance : Inhabited Stability := ⟨undefined⟩

/-- Every level, in order. -/
def all : List Stability :=
  [undefined, unmaintained, deprecated, development, alpha, beta, stable]

/-- The same level for every signal but profiles, for which there is none. -/
def general (level : Stability) (signal : Signal) : Stability :=
  if signal = .profiles then undefined else level

/-- Whether the component can be used for the signal at all. -/
def isSupported (level : Stability) : Bool := level != undefined

end Stability

end Telemetry
