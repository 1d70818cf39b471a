import Telemetry.Identity.Signal
import Telemetry.Text.Split

/-!
# Component and pipeline ids

A component id is a type and an optional name, a pipeline id a signal and an optional name, written
with a slash between the two. The conditions on types and names are part of the id types, so every
id is well formed by construction.
-/

namespace Telemetry

/-- The longest component type, in bytes. -/
def maxTypeLength : Nat := 63

/-- Whether a character may stand after the first letter of a component type. -/
def isTypeChar (c : Char) : Bool := c.isAlphanum || c = '_'

/-- A component type starts with a letter and goes on with letters, digits and underscores. -/
def isTypeName : List Char → Bool
  | [] => false
  | c :: rest => c.isAlpha && rest.length < maxTypeLength && rest.all isTypeChar

/-- The name part of an id is not empty and holds neither blanks nor control characters. -/
def isIdName (cs : List Char) : Bool :=
  !cs.isEmpty && cs.all fun c => !(Text.isBlank c || Text.isControl c)

/-- The type of a component, such as `batch`. -/
structure ComponentType where
  /-- The text of the type. -/
  text : String
  /-- The text follows the rule for types. -/
  valid : isTypeName text.toList = true
deriving DecidableEq

/-- The name part of an id. -/
structure IdName where
  /-- The text of the name. -/
  text : String
  /-- The text follows the rule for names. -/
  valid : isIdName text.toList = true
deriving DecidableEq

/-- Accepts a text as a component type, exactly as it stands. -/
def ComponentType.parse (s : String) : Except IdError ComponentType :=
  if h : isTypeName s.toList = true then .ok ⟨s, h⟩
  else if s.isEmpty then .error .emptyType
  else .error (.invalidType s)

/-- Accepts a text as the name part of an id, exactly as it stands. -/
def IdName.parse (s : String) : Except IdError IdName :=
  if h : isIdName s.toList = true then .ok ⟨s, h⟩
  else if s.isEmpty then .error .emptyName
  else .error (.invalidName s)

instance : Ord ComponentType := ⟨fun a b => compare a.text b.text⟩

/-- An absent name comes before every name; names are in the order of their texts. -/
def compareNames : Option IdName → Option IdName → Ordering
  | none, none => .eq
  | none, some _ => .lt
  | some _, none => .gt
  | some a, some b => compare a.text b.text

/-- The id of a component. -/
structure ComponentId where
  /-- The component's type. -/
  type : ComponentType
  /-- The name that tells components of one type apart. -/
  name : Option IdName
deriving DecidableEq

namespace ComponentId

instance : Ord ComponentId := ⟨fun a b => (compare a.type b.type).then (compareNames a.name b.name)⟩

/-- The written form: the type, and a slash and the name if there is one. -/
def text (id : ComponentId) : String :=
  match id.name with
  | none => id.type.text
  | some name => id.type.text ++ "/" ++ name.text

/-- The id of a type and a name, the type being checked first. -/
def withName (type : ComponentType) (name : String) : Except IdError ComponentId := do
  return ⟨type, some (← IdName.parse name)⟩

/-- Reads an id; blanks around the type and around the name do not count. -/
def parse (s : String) : Except IdError ComponentId :=
  match Text.splitOnce '/' s.toList with
  | (type, none) => do return ⟨← ComponentType.parse (.ofList (Text.trim type)), none⟩
  | (type, some name) => do
    withName (← ComponentType.parse (.ofList (Text.trim type))) (.ofList (Text.trim name))

end ComponentId

/-- The id of a pipeline. -/
structure PipelineId where
  /-- What the pipeline carries. -/
  signal : Signal
  /-- The name that tells pipelines of one signal apart. -/
  name : Option IdName
deriving DecidableEq

namespace PipelineId

instance : Ord PipelineId := ⟨fun a b => (compare a.signal b.signal).then (compareNames a.name b.name)⟩

/-- The written form: the signal, and a slash and the name if there is one. -/
def text (id : PipelineId) : String :=
  match id.name with
  | none => id.signal.text
  | some name => id.signal.text ++ "/" ++ name.text

/-- The id of a signal and a name. -/
def withName (signal : Signal) (name : String) : Except IdError PipelineId := do
  return ⟨signal, some (← IdName.parse name)⟩

/-- Reads an id; blanks around the signal and around the name do not count. -/
def parse (s : String) : Except IdError PipelineId :=
  match Text.splitOnce '/' s.toList with
  | (signal, none) => do return ⟨← Signal.parse (.ofList (Text.trim signal)), none⟩
  | (signal, some name) => do
    withName (← Signal.parse (.ofList (Text.trim signal))) (.ofList (Text.trim name))

end PipelineId

end Telemetry
