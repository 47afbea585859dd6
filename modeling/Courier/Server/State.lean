import Courier.Attendant.Step
import Courier.Dispatcher.Step

/-!
# State — a server and the attendants it has accepted

Every accepted connection becomes an attendant that is started at once by the accept loop.  Attendants report
messages on the channels of the server themselves.  Their starts and ends go through the inbox of the run that
accepted them to a registrar, one per run, which keeps the set of attendants up to date and passes each report
on once the set reflects it.

- `Round` is what a run sets up when its listener is bound,
- `Duty` says how far the accept loop has come inside a callback,
- `Registrar` says how far the registrar has come,
- `Server.Call` says how far a caller has come that runs or stops the server.
-/

namespace Courier

/-- The channels on which a server reports. -/
structure Outlets where
  started : Channel Address
  acceptFailed : Channel IoError
  attendantStarted : Channel AttendantId
  messages : Channel Delivery
  throttled : Channel Deferral
  attendantStopped : Channel (AttendantId × Ending)
  stopped : Channel Unit

namespace Outlets

/-- Fresh channels. -/
def ofConfig (c : Config) : Outlets where
  started := { capacity := c.lifecycle }
  acceptFailed := { capacity := c.lifecycle }
  attendantStarted := { capacity := c.lifecycle }
  messages := { capacity := c.messages }
  throttled := { capacity := c.messages }
  attendantStopped := { capacity := c.lifecycle }
  stopped := { capacity := c.lifecycle }

end Outlets

/-- Where the registrar of a run is. -/
inductive Registrar where
  /-- It has not begun. -/
  | absent
  /-- It waits for a report. -/
  | waiting
  /-- A start has been taken from the inbox. -/
  | entering (a : AttendantId)
  /-- An end has been taken from the inbox. -/
  | erasing (a : AttendantId) (ending : Ending)
  /-- The set reflects a start, which has to be passed on. -/
  | announcing (a : AttendantId)
  /-- The set reflects an end, which has to be passed on. -/
  | reporting (a : AttendantId) (ending : Ending)
  /-- The loop has been left, the inbox has to be closed. -/
  | closing
  /-- What is left in the inbox is looked through. -/
  | clearing
  | finished
deriving Inhabited

namespace Registrar

/-- Whether the registrar waits, for a report or for room to pass one on, or until it is told to end. -/
def waits : Registrar → Bool
  | .waiting | .announcing _ | .reporting _ _ => true
  | _ => false

/-- Where a report that is taken from the inbox leads. -/
def ofNotice : Notice → Registrar
  | .started a => .entering a
  | .stopped a ending => .erasing a ending

end Registrar

/-- What a run of the server sets up. -/
structure Round where
  /-- Reports of the attendants that the run has accepted. -/
  inbox : Channel Notice
  /-- Whether the registrar has been told to end. -/
  quit : Bool := false
  registrar : Registrar := .absent
  /-- Whether the registrar, which waits, has just seen that it has not been told to end. -/
  poised : Bool := false

namespace Round

/-- Room for one report. -/
def inboxCapacity : Nat := 1

/-- A fresh round. -/
def fresh : Round where
  inbox := { capacity := inboxCapacity }

end Round

/-- What the accept loop is doing inside a callback. -/
inductive Duty where
  /-- Nothing: no callback is under way. -/
  | idle
  /-- Bound: sets up a round. -/
  | opening (a : Address)
  /-- Bound: lowers the flag that refuses connections. -/
  | reopening (r : Nat) (a : Address)
  /-- Bound: begins the registrar. -/
  | hiring (r : Nat) (a : Address)
  /-- Bound: reports it. -/
  | announcing (a : Address)
  /-- Accepted: looks at the flag that refuses connections. -/
  | admitting (peer : PeerId)
  /-- Accepted: looks for the round. -/
  | joining (peer : PeerId)
  /-- Accepted: makes the attendant and begins its start. -/
  | founding (peer : PeerId) (r : Nat)
  /-- Accepted: waits for the start of the attendant. -/
  | starting (a : AttendantId)
  /-- Not accepted: reports it. -/
  | reporting (e : IoError)
  /-- Ended: takes the round away. -/
  | retiring
  /-- Ended: tells the registrar to end. -/
  | dismissing (r : Nat)
  /-- Ended: reports it. -/
  | parting
  /-- The callback is about to return. -/
  | done
deriving Inhabited

namespace Duty

/-- Where the work of a callback begins. -/
def ofCallback : Callback → Duty
  | .started a => .opening a
  | .accepted peer => .admitting peer
  | .acceptFailed e => .reporting e
  | .stopped => .retiring

end Duty

/-- An attendant that a server has accepted. -/
structure Member (μ : Type) [Marshaler μ] where
  attendant : Attendant μ
  /-- The round whose inbox it reports to. -/
  round : Nat
  peer : PeerId

/-- An operation that a caller has begun on a server. -/
inductive Server.Call where
  /-- Run `k` of the dispatcher is binding. -/
  | binding (k : Nat)
  /-- Run `k` is bound; the means to end it has to be kept. -/
  | keeping (k : Nat)
  | ran (result : Except Error Unit)
  /-- A stop of run `k` that has to raise the flag that refuses connections. -/
  | barring (k : Nat)
  /-- A stop that has to ask run `k` to end. -/
  | closing (k : Nat)
  /-- A stop that has to empty the set. -/
  | emptying
  /-- A stop that has attendants to stop. -/
  | stopping (left : List AttendantId)
  | halted (result : Except Error Unit)

namespace Server.Call

/-- How an operation came out; none while it is under way. -/
def result? : Server.Call → Option (Except Error Unit)
  | .ran r => some r
  | .halted r => some r
  | _ => none

end Server.Call

/-- A server with every attendant it has ever accepted. -/
structure Server (μ : Type := Codec) [Marshaler μ] where
  codec : μ
  config : Config
  dispatcher : Dispatcher := {}
  /-- The run that a stop ends. -/
  closer : Option Nat := none
  /-- Whether connections are refused. -/
  closing : Bool := false
  /-- The round that new attendants join. -/
  round : Option Nat := none
  /-- The attendants that the server tracks. -/
  tracked : List AttendantId := []
  /-- What every run has set up, oldest first. -/
  rounds : List Round := []
  /-- What the accept loop of every run is doing. -/
  duties : List Duty := []
  /-- Every attendant ever accepted, oldest first. -/
  members : List (Member μ) := []
  outlets : Outlets
  /-- All operations ever begun, oldest first. -/
  calls : List Server.Call := []
  /-- The time in nanoseconds. -/
  now : Nat := 0
  /-- Whether the server has been dropped. -/
  dropped : Bool := false

/-- The settings of a server to be built. -/
structure Builder (μ : Type := Codec) where
  codec : Option μ := none
  config : Config := {}

namespace Builder

/-- Builds the server.  A codec is required. -/
def build {μ : Type} [Marshaler μ] (b : Builder μ) : Except Error (Server μ) :=
  match b.codec with
  | none => .error (.argument "marshaler")
  | some codec =>
    let config := b.config.normalized
    .ok { codec, config, outlets := .ofConfig config }

end Builder

namespace Server

variable {μ : Type} [Marshaler μ]

/-- The number of tracked attendants. -/
def length (s : Server μ) : Nat :=
  s.tracked.length

/-- Whether no attendant is tracked. -/
def isEmpty (s : Server μ) : Bool :=
  s.tracked.isEmpty

/-- The bound address. -/
def address (s : Server μ) : Except Error Address :=
  s.dispatcher.address

/-- An attendant that the server has accepted. -/
def attendant? (s : Server μ) (a : AttendantId) : Option (Attendant μ) :=
  s.members[a]?.map (·.attendant)

/-- The status of an attendant. -/
def statusOf (s : Server μ) (a : AttendantId) : Status :=
  match s.attendant? a with
  | some attendant => attendant.status
  | none => .stopped

/-- The channels on which a member reports. -/
def portsOf (s : Server μ) (r : Round) : Ports :=
  ⟨r.inbox, s.outlets.messages, s.outlets.throttled⟩

/-- Tracks an attendant. -/
def track (s : Server μ) (a : AttendantId) : Server μ :=
  if a ∈ s.tracked then s else { s with tracked := s.tracked ++ [a] }

/-- Stops tracking an attendant. -/
def untrack (s : Server μ) (a : AttendantId) : Server μ :=
  { s with tracked := s.tracked.filter (· != a) }

/-- Begins to stop an attendant. -/
def stopAttendant (s : Server μ) (a : AttendantId) : Server μ :=
  match s.members[a]? with
  | some m => { s with members := s.members.set a { m with attendant := m.attendant.beginStop } }
  | none => s

/-- Whether the server, or an accept loop of it, may still report something. -/
def isHeld (s : Server μ) : Bool :=
  !s.dropped || s.dispatcher.runs.any (·.phase != .finished)

/-- Whether a registrar is at work. -/
def hasRegistrar (s : Server μ) : Bool :=
  s.rounds.any fun r =>
    match r.registrar with
    | .absent | .finished => false
    | _ => true

/-- Whether nothing can report on the channels any more. -/
def isEnded (s : Server μ) : Bool :=
  !(s.isHeld || s.hasRegistrar || s.members.any (·.attendant.holdsPorts))

end Server
end Courier
