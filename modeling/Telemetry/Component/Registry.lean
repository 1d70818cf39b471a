import Telemetry.Failure.Component
import Telemetry.Table

/-!
# Registries

A registry holds the factories of one kind of component, at most one per type, in the order of their
types.
-/

namespace Telemetry

/-- The factories of one kind, by type. -/
structure Registry (φ : Type) where
  /-- The kind of component the factories make. -/
  kind : Kind
  /-- The factories. -/
  entries : Table ComponentType φ

namespace Registry

variable {φ : Type}

/-- A registry without factories. -/
def empty (kind : Kind) : Registry φ := ⟨kind, []⟩

/-- A registry of factories of different types. -/
def ofList (kind : Kind) (factories : List (ComponentType × φ)) : Registry φ :=
  ⟨kind, .ofList factories⟩

/-- The factory for a type. -/
def get? (r : Registry φ) (type : ComponentType) : Option φ := r.entries.get? type

/-- Adds a factory for a type that has none. -/
def register (r : Registry φ) (type : ComponentType) (factory : φ) :
    Except DuplicateFactory (Registry φ) :=
  if r.entries.contains type then .error ⟨r.kind, type⟩
  else .ok { r with entries := r.entries.insert type factory }

/-- Adds factories for types that have none, in turn, up to the first that is refused. -/
def registerAll (r : Registry φ) (factories : List (ComponentType × φ)) :
    Except DuplicateFactory (Registry φ) :=
  factories.foldlM (fun r (type, factory) => r.register type factory) r

/-- The types with a factory, in order. -/
def types (r : Registry φ) : List ComponentType := r.entries.keys

end Registry

end Telemetry
