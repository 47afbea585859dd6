import Courier.Dispatcher.Step
import Courier.Net.Network
import Courier.Session.Reply
import Courier.Session.Schedule

/-!
# Dispatch — sessions with dispatchers

A session holds one or more dispatchers on one host.  The handler of each records its calls and returns at
once.  Each step of the session acts on one of the dispatchers or dials it; then everything runs until it is
quiet.
-/

namespace Courier

/-- A dispatcher of a session with what waits in front of it. -/
structure Post where
  dispatcher : Dispatcher := {}
  /-- Connections that have not been accepted, oldest first. -/
  backlog : List PeerId := []
  /-- How the next attempt to accept fails. -/
  failure : Option IoError := none
  /-- The address that a listener was last bound to. -/
  address : Option Address := none
  /-- How many calls of the handler have been shown. -/
  shown : Nat := 0

/-- A session with dispatchers. -/
structure DispatchSession where
  network : Network
  posts : List Post
  /-- Every run that has succeeded, with its dispatcher. -/
  closers : List (Nat × Nat) := []
  /-- How many peers have dialed. -/
  dialed : Nat := 0
  now : Nat := 0

/-- The host that a dispatcher is asked to listen at. -/
inductive HostChoice where
  | host (text : String)
  /-- Where dispatcher `k` has listened. -/
  | sameAs (k : Nat)

/-- A step of a session, about one of its dispatchers. -/
inductive DispatchSession.Command where
  | run (choice : HostChoice)
  | close (closer : Nat)
  | closedFlags
  | address
  | advance (nanos : Nat)
  | connect (failure : Option IoError)
  | describe
  | seen

namespace Post

/-- Lets a dispatcher move. -/
def move (now : Nat) (p : Post) (m : Dispatcher.Move) : Option Post :=
  (p.dispatcher.step now m).map fun dispatcher =>
    match m with
    | .accept _ (.ok _) => { p with dispatcher, backlog := p.backlog.drop 1 }
    | .accept _ (.error _) => { p with dispatcher, failure := none }
    | .leave _ => { p with dispatcher, backlog := [], failure := none }
    | _ => { p with dispatcher }

/-- What accepting yields next; none when no connection waits. -/
def arrival (p : Post) : Option (Except IoError PeerId) :=
  match p.backlog, p.failure with
  | [], _ => none
  | _ :: _, some e => some (.error e)
  | peer :: _, none => some (.ok peer)

/-- The moves that the accept loops may make next. -/
def proposals (p : Post) : List Dispatcher.Move :=
  (List.range p.dispatcher.runs.length).flatMap fun k =>
    -- A loop looks for a connection only when there is one.
    let wait := match p.arrival with
      | some outcome => [.look k, .accept k outcome]
      | none => [.rest k]
    [.begin k, .call k, .finish k, .quit k, .resume k, .leave k] ++ wait

/-- Lets the accept loops run until they are quiet. -/
def quiet (now : Nat) (p : Post) : Post :=
  settle (move now) proposals patience p

end Post

namespace Dispatcher

/-- The text that describes what a dispatcher owns, its port left out. -/
def describeState : ListenerState → String
  | .idle => "Idle"
  | .binding => "Binding"
  | .listening a => s!"Listening({a.host.textBeforePort}:#)"

/-- The text that describes a dispatcher to a developer. -/
def describe (d : Dispatcher) : String :=
  s!"Dispatcher \x7b state: {describeState d.state}, .. \x7d"

end Dispatcher

namespace DispatchSession

/-- A session with idle dispatchers. -/
def start (network : Network) (count : Nat) : DispatchSession where
  network
  posts := List.replicate count {}

/-- The addresses of all bound listeners. -/
def bound (s : DispatchSession) : List Address :=
  s.posts.filterMap fun p =>
    match p.dispatcher.state with
    | .listening a => some a
    | _ => none

/-- Lets everything run until it is quiet. -/
def quiet (s : DispatchSession) : DispatchSession :=
  { s with posts := s.posts.map (·.quiet s.now) }

/-- Changes a dispatcher. -/
def setPost (s : DispatchSession) (i : Nat) (p : Post) : DispatchSession :=
  { s with posts := s.posts.set i p }

/-- The address that stands for one that is not shown. -/
def maskedAddress : String := "ADDR"

/-- Resolves and binds as chosen. -/
def listen (s : DispatchSession) : HostChoice → Except Error Address
  | .host text => s.network.listen s.bound text
  | .sameAs k =>
    match s.posts[k]?.bind (·.address) with
    | some a => (s.network.bind s.bound a).mapError (.bind maskedAddress)
    | none => .error .notListening

/-- Runs dispatcher `i`. -/
def run (s : DispatchSession) (i : Nat) (p : Post) (choice : HostChoice) :
    Except Error Unit × DispatchSession :=
  match p.dispatcher.claim with
  | .error e => (.error e, s)
  | .ok dispatcher =>
    let k := p.dispatcher.runs.length
    let p := { p with dispatcher }
    match s.listen choice with
    | .error e => (.error e, s.setPost i (attempt (Post.move s.now) p (.forgo k)))
    | .ok a =>
      let p := attempt (Post.move s.now) { p with address := some a } (.bound k a)
      (.ok (), { s.setPost i p with closers := s.closers ++ [(i, k)] })

/-- Asks a run that has succeeded to end. -/
def close (s : DispatchSession) (closer : Nat) : Option (Bool × DispatchSession) :=
  match s.closers[closer]? with
  | none => none
  | some (i, k) =>
    match s.posts[i]? with
    | none => none
    | some p =>
      let p := attempt (Post.move s.now) p (.close k)
      some (p.dispatcher.isClosed k, s.setPost i p)

/-- Whether a run that has succeeded has been asked to end. -/
def isClosed (s : DispatchSession) (i k : Nat) : Bool :=
  match s.posts[i]? with
  | some p => p.dispatcher.isClosed k
  | none => false

/-- Carries a step about dispatcher `i` out, without letting anything else run; none when it names what does
not exist. -/
def perform (s : DispatchSession) (i : Nat) (c : Command) : Option (Reply × DispatchSession) :=
  match s.posts[i]? with
  | none => none
  | some p =>
    match c with
    | .run choice =>
      let (result, s) := s.run i p choice
      some (.outcome result, s)
    | .close closer => (s.close closer).map fun (b, s) => (.flag b, s)
    | .closedFlags => some (.flags (s.closers.map fun (i, k) => s.isClosed i k), s)
    | .address => some (.address p.dispatcher.address, s)
    | .advance nanos => some (.nothing, { s with now := s.now + nanos })
    | .connect failure =>
      if s.network.connects && p.dispatcher.isListening then
        let p := { p with backlog := p.backlog ++ [s.dialed], failure }
        some (.connection true, { s.setPost i p with dialed := s.dialed + 1 })
      else some (.connection false, s)
    | .describe => some (.text p.dispatcher.describe, s)
    | .seen =>
      let calls := p.dispatcher.calls
      some (.callbacks ((calls.drop p.shown).map Prod.snd),
        s.setPost i { p with shown := calls.length })

/-- Which dispatchers have a bound listener. -/
def listening (s : DispatchSession) : List Bool :=
  s.posts.map (·.dispatcher.isListening)

end DispatchSession
end Courier
