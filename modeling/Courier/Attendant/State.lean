import Courier.Codec
import Courier.Config
import Courier.Event
import Courier.Outbox.Writer
import Courier.Throttle

/-!
# State — one supervised connection

An attendant owns a connection.  Its parts are changed by different tasks at different times:

- the status, the token and the receiver that waits for the start, by callers that start and stop it and by
  its own read loop,
- the read loop, which turns the incoming stream into events,
- the writing end, which takes outgoing frames.

`Call` and `Reader` say how far an operation and the read loop have come between two accesses to what they
share with others.
-/

namespace Courier

/-- An operation that a caller has begun. -/
inductive Call (μ : Type) [Marshaler μ] where
  /-- A start that has claimed the attendant. -/
  | claimed
  /-- A start that has taken the receiver and has the start to report. -/
  | announcing (r : Marshaler.Receiver μ)
  /-- A start that has reported and has the read loop to begin. -/
  | handing (r : Marshaler.Receiver μ)
  | started (result : Except Error Unit)
  /-- A stop that has made the status final and has the token to fire. -/
  | firing (wasNew : Bool)
  /-- A stop of a new attendant that has its receiver to drop. -/
  | dropping
  | stopped (result : Except Error Unit)
  /-- A message that has been encoded and has to be queued. -/
  | queueing (frame : Bytes)
  | sent (result : Except Error Unit)

namespace Call

variable {μ : Type} [Marshaler μ]

/-- How an operation came out; none while it is under way. -/
def result? : Call μ → Option (Except Error Unit)
  | .started r => some r
  | .stopped r => some r
  | .sent r => some r
  | _ => none

/-- Whether an operation holds the receiver. -/
def holdsReceiver : Call μ → Bool
  | .announcing _ => true
  | .handing _ => true
  | _ => false

end Call

/-- Where the read loop is. -/
inductive Reader (μ : Type) [Marshaler μ] where
  /-- It has not begun. -/
  | absent
  | receiving (r : Marshaler.Receiver μ)
  /-- Receiving has failed. -/
  | failed (e : Error)
  /-- A message has been received and not judged. -/
  | judging (r : Marshaler.Receiver μ) (m : Message)
  /-- A message waits for room; a refused one comes with its instant and its lapse. -/
  | publishing (r : Marshaler.Receiver μ) (m : Message) (refusal : Option (Nat × Nat))
  /-- The loop has been left. -/
  | left (ending : Ending)
  /-- The ending is settled, the token has to be fired. -/
  | firing (ending : Ending)
  /-- The receiver has to be dropped. -/
  | releasing (ending : Ending)
  /-- The end has to be reported. -/
  | announcing (ending : Ending)
  | finished

namespace Reader

variable {μ : Type} [Marshaler μ]

/-- Whether the read loop holds the receiver, and with it the reading end of the connection. -/
def holdsReceiver : Reader μ → Bool
  | .absent | .announcing _ | .finished => false
  | _ => true

/-- Whether the read loop may still report something. -/
def holdsPorts : Reader μ → Bool
  | .absent | .finished => false
  | _ => true

end Reader

/-- One supervised connection. -/
structure Attendant (μ : Type) [Marshaler μ] where
  codec : μ
  status : Status := .new
  /-- Least spacing between admitted messages; zero admits every message. -/
  throttle : Nat
  /-- Values that callers keep with the attendant. -/
  context : Entries := []
  /-- Whether the token that ends the tasks of the attendant has fired. -/
  fired : Bool := false
  /-- The receiver, until a start takes it. -/
  pending : Option (Marshaler.Receiver μ)
  /-- All operations ever begun, oldest first. -/
  calls : List (Call μ) := []
  reader : Reader μ := .absent
  gate : Gate := {}
  /-- Every message that has been received, oldest first. -/
  received : List Message := []
  outbox : Outbox

/-- The channels on which an attendant reports. -/
structure Ports where
  lifecycle : Channel Notice
  messages : Channel Delivery
  throttled : Channel Deferral

namespace Ports

/-- Fresh channels, with every capacity raised to its floor. -/
def ofCapacities (lifecycle messages : Nat) : Ports :=
  let c := Config.normalized { lifecycle, messages }
  ⟨{ capacity := c.lifecycle }, { capacity := c.messages }, { capacity := c.messages }⟩

/-- The channels once their receiving ends are gone. -/
def close (p : Ports) : Ports :=
  ⟨p.lifecycle.close, p.messages.close, p.throttled.close⟩

end Ports

namespace Attendant

variable {μ : Type} [Marshaler μ]

/-- The attendant of a fresh connection. -/
def create (codec : μ) (throttle writer : Nat) : Attendant μ where
  codec
  throttle := holdThrottle throttle
  pending := some (Marshaler.start codec)
  outbox := .start writer

/-- Whether something may still report on the channels of the attendant. -/
def holdsPorts (a : Attendant μ) : Bool :=
  a.pending.isSome || a.calls.any Call.holdsReceiver || a.reader.holdsPorts

/-- Whether the reading end of the connection has been released. -/
def readReleased (a : Attendant μ) : Bool :=
  !(a.pending.isSome || a.calls.any Call.holdsReceiver || a.reader.holdsReceiver)

/-- Whether the writing end of the connection has been released. -/
def writeReleased (a : Attendant μ) : Bool :=
  a.outbox.isEnded

/-! ## Settings -/

/-- Changes the throttle, which counts from the next message on. -/
def setThrottle (a : Attendant μ) (nanos : Nat) : Attendant μ :=
  { a with throttle := holdThrottle nanos }

/-- Changes the throttle to the absolute value of a number. -/
def setThrottleSigned (a : Attendant μ) (nanos : Int) : Attendant μ :=
  a.setThrottle nanos.natAbs

/-- The value kept under a key. -/
def contextAt (a : Attendant μ) (key : String) : Option Value :=
  Entries.find? key a.context

/-- Keeps a value under a key. -/
def setContext (a : Attendant μ) (key : String) (v : Value) : Attendant μ :=
  { a with context := Entries.insert key v a.context }

/-- Forgets the value kept under a key. -/
def removeContext (a : Attendant μ) (key : String) : Attendant μ :=
  { a with context := Entries.erase key a.context }

end Attendant
end Courier
