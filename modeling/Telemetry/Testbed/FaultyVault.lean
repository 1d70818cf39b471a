import Telemetry.Queue.Sending
import Telemetry.Storage.Vault

/-!
# Storage that can be made to fail

A vault whose clients can be told to refuse every batch, and that counts the clients given up.
-/

namespace Telemetry.Storage

/-- A vault with a switch. -/
structure FaultyVault where
  /-- The vault. -/
  vault : Vault
  /-- Whether every batch is refused. -/
  failing : Bool
  /-- The number of times a client was given up. -/
  closings : Nat

namespace FaultyVault

/-- A vault with one empty store in memory. -/
def empty : FaultyVault := ⟨Vault.empty.newMemory.2, false, 0⟩

/-- The answer of a client that was told to fail. -/
def injected : StorageError := .backend "injected storage failure"

/-- Carries out a batch of the client with a number, unless told not to. -/
def batch (n : Nat) (ops : List Operation) (v : FaultyVault) : Reply × FaultyVault :=
  if v.failing then (.failed injected ops, v)
  else
    let (reply, inner) := v.vault.batch n ops
    (reply, { v with vault := inner })

/-- Gives the client with a number up. -/
def close (n : Nat) (v : FaultyVault) : FaultyVault :=
  { v with vault := v.vault.close n, closings := v.closings + 1 }

/-- The client with a number as programs use it. -/
def client (n : Nat) : Client FaultyVault := ⟨batch n, close n⟩

/-- Opens a client for a namespace of the store. -/
def openClient (space : String) (v : FaultyVault) : Nat × FaultyVault :=
  let (n, inner) := v.vault.openMemory 0 space
  (n, { v with vault := inner })

/-- One batch in a namespace, by a client of its own. -/
def batchIn (space : String) (ops : List Operation) (v : FaultyVault) : Reply × FaultyVault :=
  let (n, v) := v.openClient space
  v.batch n ops

/-- The values of a namespace, whether or not batches are refused. -/
def space (name : String) (v : FaultyVault) : Space := (v.vault.memory 0).space name

end FaultyVault

/-- What stands under the name of a storage extension. -/
inductive StorageSite
  /-- Storage that can be made to fail. -/
  | faulty
  /-- An extension that is no storage. -/
  | other
  /-- Nothing. -/
  | absent
deriving DecidableEq, Repr

/-- Where a queue gets its clients from, given the namespace it uses. -/
def StorageSite.depot (site : StorageSite) (space : String) : Queue.Depot FaultyVault :=
  ⟨FaultyVault.client, fun id v => match site with
    | faulty => let (n, v) := v.openClient space; (.ok n, v)
    | other => (.error (.wrongExtensionType id), v)
    | absent => (.error (.noStorageClient id none), v)⟩

/-- What a persistent queue keeps in its namespace. -/
structure QueueContent where
  /-- The read index. -/
  read : Option Text.Bytes
  /-- The write index. -/
  write : Option Text.Bytes
  /-- The list of the batches being sent. -/
  dispatched : Option Text.Bytes
  /-- The batches under the indices below sixty-four, by their keys. -/
  items : List (String × Text.Bytes)

/-- Reads what a persistent queue keeps in its namespace. -/
def QueueContent.ofSpace (space : Space) : QueueContent where
  read := space.get? Queue.readKey
  write := space.get? Queue.writeKey
  dispatched := space.get? Queue.dispatchedKey
  items := (List.range 64).filterMap fun i =>
    let key := Queue.itemKey (UInt64.ofNat i)
    (space.get? key).map fun value => (key, value)

end Telemetry.Storage
