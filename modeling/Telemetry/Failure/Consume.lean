import Telemetry.Identity.Id
import Telemetry.Text.Duration

/-!
# Failures on the way of a batch

What can go wrong in storage, in a sending queue and while a batch is consumed. Every cause is a
constructor; its wording is the `message` function of the type. A consumer that passes a batch on
decides by two questions: whether sending it again can help (`isPermanent`) and whether the batch
was only held up by a shutdown (`isShutdown`).
-/

namespace Telemetry

/-- A failure of a storage client. -/
inductive StorageError
  | closed
  | io (cause : String)
  | backend (cause : String)
deriving DecidableEq, Repr

namespace StorageError

/-- The wording of a storage failure. -/
def message : StorageError → String
  | closed => "storage client is closed"
  | io _ => "storage I/O error"
  | backend cause => "storage backend error: " ++ cause

end StorageError

/-- A failure of a sending queue. -/
inductive QueueError
  | queueFull
  | notStarted
  | noStorageClient (id : ComponentId) (source : Option StorageError)
  | wrongExtensionType (id : ComponentId)
  | storage (source : StorageError)
  | decode (signal : Signal)
  | invalidIndex (reason : String)
deriving DecidableEq

/-- The wording used where bytes are not a batch of a signal. -/
def decodeFailure (signal : Signal) : String := "failed to decode " ++ signal.text ++ " batch"

namespace QueueError

/-- The wording of a queue failure. -/
def message : QueueError → String
  | queueFull => "sending queue is full"
  | notStarted => "sending queue is not started"
  | noStorageClient id _ => "storage client for \"" ++ id.text ++ "\" not available"
  | wrongExtensionType id => "extension \"" ++ id.text ++ "\" is not a storage extension"
  | storage _ => "storage operation failed"
  | decode _ => "stored item could not be decoded"
  | invalidIndex reason => "invalid index encoding: " ++ reason

end QueueError

/-- The outcome of a consume call that did not deliver its batch. -/
inductive ConsumeError
  /-- Sending the batch again may help. -/
  | transient (cause : String)
  /-- One attempt took longer than its limit, given in milliseconds. -/
  | timedOut (limit : Nat)
  /-- The batch will never be accepted. -/
  | permanent (cause : String)
  /-- The time for retries is used up; the last attempt failed with the given error. -/
  | exhausted (last : ConsumeError)
  /-- The sending queue has no room. -/
  | queueFull
  /-- The caller gave up. -/
  | cancelled
  /-- A shutdown came first. -/
  | shutdown (cause : String)
  /-- A shutdown ended the wait for the next attempt; the last one failed with the given error. -/
  | interrupted (last : ConsumeError)
  /-- Several consumers failed. -/
  | joined (members : List ConsumeError)
deriving Inhabited, Repr

namespace ConsumeError

mutual

/-- The wording of a consume error. -/
def message : ConsumeError → String
  | transient cause => "transient error: " ++ cause
  | timedOut limit => "transient error: export attempt timed out after " ++ Text.durationText limit
  | permanent cause => "permanent error: " ++ cause
  | exhausted last => "permanent error: no more retries left: " ++ message last
  | queueFull => "sending queue is full"
  | cancelled => "request is cancelled or timed out"
  | shutdown cause => "interrupted due to shutdown: " ++ cause
  | interrupted last => "interrupted due to shutdown: " ++ message last
  | joined members => "; ".intercalate (messages members)

/-- The wordings of several consume errors. -/
def messages : List ConsumeError → List String
  | [] => []
  | e :: rest => message e :: messages rest

end

mutual

/-- The errors that were joined to make an error, those inside joined ones included, in order. -/
def leaves : ConsumeError → List ConsumeError
  | joined members => leavesOfAll members
  | e => [e]

/-- The leaves of several errors, in order. -/
def leavesOfAll : List ConsumeError → List ConsumeError
  | [] => []
  | e :: rest => leaves e ++ leavesOfAll rest

end

/-- Whether an error that is not joined rules out a later success. -/
def refuses : ConsumeError → Bool
  | permanent _ | exhausted _ | queueFull => true
  | _ => false

/-- Whether some part of the error rules out a later success of the same batch. -/
def isPermanent (e : ConsumeError) : Bool := e.leaves.any refuses

/-- Whether some part of the error is a queue without room. -/
def isQueueFull (e : ConsumeError) : Bool := e.leaves.any fun l => l matches queueFull

/-- Whether the batch was held up by a shutdown and nothing else. -/
def isShutdown : ConsumeError → Bool
  | shutdown _ | interrupted _ => true
  | _ => false

/-- The outcome of several consume calls: no error if none failed, the error itself if one did. -/
def join : List ConsumeError → Except ConsumeError Unit
  | [] => .ok ()
  | [e] => .error e
  | es => .error (joined es)

/-- How a failure of a sending queue looks to the one who offered a batch. -/
def ofQueue : QueueError → ConsumeError
  | .queueFull => queueFull
  | .decode signal => permanent (decodeFailure signal)
  | e => transient e.message

end ConsumeError

/-- The outcome of a consume call. -/
abbrev Outcome := Except ConsumeError Unit

/-- The error of an outcome, if there is one, as a list. -/
def Outcome.errors : Outcome → List ConsumeError
  | .ok () => []
  | .error e => [e]

end Telemetry
