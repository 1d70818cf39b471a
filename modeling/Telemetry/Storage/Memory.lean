import Telemetry.Storage.Client
import Telemetry.Table

/-!
# Storage in memory

A store is a table of namespaces, a namespace a table of values by key. A batch is carried out as a
whole; only a closed client refuses it.
-/

namespace Telemetry.Storage

open Text (Bytes)

/-- The values of one namespace, by key. -/
abbrev Space := Table String Bytes

namespace Space

/-- What a step leaves of a namespace. -/
def apply (space : Space) : Operation → Space
  | .get _ => space
  | .set key value => space.insert key value
  | .delete key => space.erase key

/-- Carries out steps in order; each read sees what came before it. -/
def run (space : Space) : List Operation → Reads × Space
  | [] => ([], space)
  | .get key :: rest =>
    let (reads, last) := run space rest
    (space.get? key :: reads, last)
  | op :: rest => run (space.apply op) rest

end Space

/-- The namespaces of a store. -/
abbrev MemoryStore := Table String Space

namespace MemoryStore

/-- The values of a namespace. -/
def space (store : MemoryStore) (name : String) : Space := (store.get? name).getD []

/-- The number of keys of a namespace. -/
def keyCount (store : MemoryStore) (name : String) : Nat := (store.space name).length

end MemoryStore

/-- A client of a store in memory. -/
structure MemoryClient where
  /-- The namespace it addresses. -/
  space : String
  /-- Whether it was given up. -/
  closed : Bool
deriving DecidableEq, Repr

namespace MemoryClient

/-- The client for a namespace. -/
def ofSpace (space : String) : MemoryClient := ⟨space, false⟩

/-- Carries out a batch. -/
def batch (c : MemoryClient) (ops : List Operation) (store : MemoryStore) : Reply × MemoryStore :=
  if c.closed then (.failed .closed ops, store)
  else
    let (reads, space) := (store.space c.space).run ops
    (⟨.ok (), reads⟩, store.insert c.space space)

end MemoryClient

end Telemetry.Storage
