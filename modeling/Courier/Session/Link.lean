import Courier.Attendant.Step
import Courier.Session.Reply

/-!
# Link — the peer's end of a connection

A connection is a byte stream in each direction.  What the peer has written waits until the attendant reads
it; what the attendant has written is with the peer at once.
-/

namespace Courier

/-- How far the peer has gone. -/
inductive PeerEnd where
  | active
  /-- It writes nothing more. -/
  | finished
  /-- It is gone; `told` says whether the attendant has written since. -/
  | closed (told : Bool)
  /-- It has reset the connection. -/
  | reset
deriving DecidableEq, Repr

/-- The peer's end of a connection. -/
structure Link where
  /-- What the peer has written and the attendant has not read. -/
  inbound : Bytes := []
  peer : PeerEnd := .active
  /-- How much of what the attendant has written the peer has read. -/
  seen : Nat := 0

namespace Link

variable {μ : Type} [Marshaler μ]

/-- The peer writes. -/
def write (l : Link) (data : Bytes) : Link :=
  match l.peer with
  | .active => { l with inbound := l.inbound ++ data }
  | _ => l

/-- The peer ends its sending side. -/
def finish (l : Link) : Link :=
  match l.peer with
  | .active => { l with peer := .finished }
  | _ => l

/-- The peer closes its end. -/
def close (l : Link) : Link :=
  match l.peer with
  | .active | .finished => { l with peer := .closed false }
  | _ => l

/-- The peer resets the connection. -/
def reset (l : Link) : Link :=
  { l with peer := .reset }

/-- What the attendant reads next; none when it has to wait. -/
def arrival (l : Link) : Option ReadEvent :=
  match l.inbound, l.peer with
  | [], .active => none
  | [], .finished | [], .closed _ => some .ended
  | [], .reset => some (.failed .resetByPeer)
  | data, _ => some (.data data)

/-- What becomes of a write of the attendant. -/
def respond (l : Link) (bytes : Nat) : Option Outcome :=
  match l.peer with
  | .active | .finished | .closed false => some (.took bytes)
  | .closed true => some (.failed .pipeBroken)
  | .reset => some (.failed .resetByPeer)

/-- The peer's end after a move of the attendant. -/
def after (l : Link) : Attendant.Move → Link
  | .read (.data _) => { l with inbound := [] }
  | .writer (.write _) =>
    match l.peer with
    | .closed _ => { l with peer := .closed true }
    | _ => l
  | _ => l

/-- What the peer reads of everything the attendant has written. -/
def unread (l : Link) (a : Attendant μ) : Bytes :=
  match l.peer with
  | .active | .finished => a.outbox.delivered.drop l.seen
  | _ => []

/-- Whether the stream to the peer has ended. -/
def isEnded (l : Link) (a : Attendant μ) : Bool :=
  match l.peer with
  | .active | .finished => a.writeReleased
  | _ => true

/-- The peer reads all there is. -/
def read (l : Link) (a : Attendant μ) : Link :=
  { l with seen := l.seen + (l.unread a).length }

end Link

namespace Attendant

variable {μ : Type} [Marshaler μ]

/-- A task of an attendant. -/
inductive Task where
  /-- The caller of operation `i`. -/
  | caller (i : Nat)
  | reader
  | writer
deriving BEq

/-- The tasks of an attendant. -/
def tasks (a : Attendant μ) : List Task :=
  (List.range a.calls.length).map .caller ++ [.reader, .writer]

/-- The moves that a task may make next. -/
def proposals (a : Attendant μ) (l : Link) : Task → List Move
  | .caller i => [.advance i]
  | .reader => [.quit, .proceed] ++ (l.arrival.map Move.read).toList
  | .writer => ((a.outbox.next a.fired true l.respond none).map Move.writer).toList

/-! ## Requests -/

/-- What a caller asks of an attendant. -/
inductive Request where
  | start
  | stop
  | send (m : Message)
  | setThrottle (nanos : Nat)
  | setThrottleSigned (nanos : Int)
  | throttle
  | context (key : String)
  | setContext (key : String) (v : Value)
  | removeContext (key : String)
  | status

/-- The move that begins a request, for those that are operations with an outcome. -/
def Request.operation? : Request → Option Move
  | .start => some .start
  | .stop => some .stop
  | .send m => some (.send m.command m.args m.kwargs)
  | _ => none

/-- Answers a request that is no operation. -/
def answer (a : Attendant μ) : Request → Reply × Attendant μ
  | .setThrottle nanos =>
    let a := a.setThrottle nanos
    (.nanos a.throttle, a)
  | .setThrottleSigned nanos =>
    let a := a.setThrottleSigned nanos
    (.nanos a.throttle, a)
  | .throttle => (.nanos a.throttle, a)
  | .context key => (.value (a.contextAt key), a)
  | .setContext key v => (.outcome (.ok ()), a.setContext key v)
  | .removeContext key => (.value (a.contextAt key), a.removeContext key)
  | .status => (.status a.status, a)
  | _ => (.nothing, a)

/-- The name of a status. -/
def statusName : Status → String
  | .new => "New"
  | .running => "Running"
  | .stopped => "Stopped"

end Attendant
end Courier
