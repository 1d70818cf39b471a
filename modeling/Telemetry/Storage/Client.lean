import Telemetry.Failure.Consume
import Telemetry.Text.Hex

/-!
# Storage clients

A storage client is a handle onto the keys of one namespace. Its one operation is a batch of reads,
writes and removals that are applied in order; the values that were read come back in the same
order. A namespace belongs to a component and a purpose.

What uses a client is written as a program of accesses, each of which waits for the answer to a
batch. A program does not know what answers it: it can be run against any client, and cut short
after any access. On its way it may check something, such as that a sum fits its word. Where a check
fails the program panics, or it goes on, if it was built without the check.
-/

namespace Telemetry.Storage

open Text (Bytes)

/-- One step of a batch. -/
inductive Operation
  | get (key : String)
  | set (key : String) (value : Bytes)
  | delete (key : String)
deriving DecidableEq, Repr

namespace Operation

/-- The key a step addresses. -/
def key : Operation → String
  | get key | set key _ | delete key => key

/-- Whether a step reads. -/
def isGet : Operation → Bool
  | get _ => true
  | _ => false

end Operation

/-- What a batch read: one entry per `get`, in order, absent keys as `none`. -/
abbrev Reads := List (Option Bytes)

/-- The answer to a batch. A batch that failed may have read something before. -/
structure Reply where
  /-- Whether the batch was carried out. -/
  outcome : Except StorageError Unit
  /-- What was read; reads that were not carried out count as absent. -/
  reads : Reads

/-- The answer to a batch of which nothing was carried out. -/
def Reply.failed (e : StorageError) (ops : List Operation) : Reply :=
  ⟨.error e, (ops.filter Operation.isGet).map fun _ => none⟩

/-- A client as it is used: what a batch and a closing do to the state behind it. -/
structure Client (σ : Type) where
  /-- Carries out a batch. -/
  batch : List Operation → σ → Reply × σ
  /-- Gives the client up. -/
  close : σ → σ

/-- No client at all: every batch is refused. -/
def Client.absent {σ : Type} : Client σ := ⟨fun ops s => (.failed .closed ops, s), id⟩

/-- A program of accesses to a client. -/
inductive Access (α : Type) where
  /-- The program is over. -/
  | done (result : α)
  /-- Waits for the answer to a batch. -/
  | batch (ops : List Operation) (next : Except StorageError Reads → Access α)
  /-- Gives the client up. -/
  | close (next : Access α)
  /-- Goes on if a check holds. -/
  | check (holds : Bool) (next : Access α)

namespace Access

variable {α β σ : Type}

/-- Goes on with a second program. -/
def bind : Access α → (α → Access β) → Access β
  | done a, f => f a
  | batch ops next, f => batch ops fun r => (next r).bind f
  | close next, f => close (next.bind f)
  | check holds next, f => check holds (next.bind f)

instance : Monad Access where
  pure := done
  bind := bind

theorem bind_assoc {γ : Type} (x : Access α) (f : α → Access β) (g : β → Access γ) :
    (x.bind f).bind g = x.bind fun a => (f a).bind g := by
  induction x with
  | done a => rfl
  | batch ops next ih => exact congrArg (batch ops) (funext ih)
  | close next ih => exact congrArg close ih
  | check holds next ih => exact congrArg (check holds) ih

theorem bind_done (x : Access α) : x.bind done = x := by
  induction x with
  | done a => rfl
  | batch ops next ih => exact congrArg (batch ops) (funext ih)
  | close next ih => exact congrArg close ih
  | check holds next ih => exact congrArg (check holds) ih

instance : LawfulMonad Access :=
  .mk' Access (fun x => bind_done x) (fun _ _ => rfl) fun x f g => bind_assoc x f g

/-- One batch. -/
def perform (ops : List Operation) : Access (Except StorageError Reads) := batch ops done

/-- Reads one key. -/
def get (key : String) : Access (Except StorageError (Option Bytes)) :=
  batch [.get key] fun r => done (r.map fun reads => reads.head?.join)

/-- Writes one key. -/
def set (key : String) (value : Bytes) : Access (Except StorageError Unit) :=
  batch [.set key value] fun r => done (r.map fun _ => ())

/-- Removes one key. -/
def delete (key : String) : Access (Except StorageError Unit) :=
  batch [.delete key] fun r => done (r.map fun _ => ())

/-- Gives the client up. -/
def hangUp : Access Unit := close (done ())

/-- Panics unless a check holds. -/
def require (holds : Bool) : Access Unit := check holds (done ())

/-- Runs a program against a client. The program goes on after every check: it was built without
them, or they hold. -/
def run (client : Client σ) : Access α → σ → α × σ
  | done a, s => (a, s)
  | batch ops next, s =>
    let (reply, s) := client.batch ops s
    (next (reply.outcome.map fun _ => reply.reads)).run client s
  | close next, s => next.run client (client.close s)
  | check _ next, s => next.run client s

/-- Runs a program with its checks against a client. At the first one that fails the program panics,
without a result; what it has done until then stays. -/
def attempt (client : Client σ) : Access α → σ → Option α × σ
  | done a, s => (some a, s)
  | batch ops next, s =>
    let (reply, s) := client.batch ops s
    (next (reply.outcome.map fun _ => reply.reads)).attempt client s
  | close next, s => next.attempt client (client.close s)
  | check holds next, s => if holds then next.attempt client s else (none, s)

@[simp] theorem run_pure (client : Client σ) (a : α) (s : σ) :
    (pure a : Access α).run client s = (a, s) := rfl

/-- One program after another is run from where the first one left the state. -/
theorem run_bind (client : Client σ) (x : Access α) (f : α → Access β) (s : σ) :
    (x >>= f).run client s = (f (x.run client s).1).run client (x.run client s).2 := by
  change (x.bind f).run client s = _
  induction x generalizing s with
  | done a => rfl
  | batch ops next ih => exact ih _ _
  | close next ih => exact ih _
  | check holds next ih => exact ih s

@[simp] theorem run_perform (client : Client σ) (ops : List Operation) (s : σ) :
    (perform ops).run client s =
      (((client.batch ops s).1.outcome.map fun _ => (client.batch ops s).1.reads),
        (client.batch ops s).2) := rfl

end Access

/-- The namespace of a component's client: the kind, the type, the name if there is one, and the
purpose if there is one, joined by underscores. -/
def clientNamespace (kind : Kind) (owner : ComponentId) (purpose : String) : String :=
  let name := match owner.name with
    | none => ""
    | some name => "_" ++ name.text
  let suffix := if purpose.isEmpty then "" else "_" ++ purpose
  kind.text ++ "_" ++ owner.type.text ++ name ++ suffix

end Telemetry.Storage
