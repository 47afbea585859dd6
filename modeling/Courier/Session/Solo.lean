import Courier.Attendant.Solo
import Courier.Net.Network
import Courier.Session.Link
import Courier.Session.Reply
import Courier.Session.Schedule

/-!
# Solo — sessions with one attendant

A session holds an attendant and the peer's end of its connection.  Each step of the session acts on one of
the two or on the consumer of the events; then everything runs until it is quiet.
-/

namespace Courier

/-- A task of a session. -/
inductive SoloSession.Task where
  | attendant (t : Attendant.Task)
  | funnel
deriving BEq

/-- A session with one attendant. -/
structure SoloSession where
  solo : Solo Codec
  link : Link := {}
  /-- Whether the handler of a funnel sends every message back. -/
  echo : Bool
  /-- Whether the handler of the funnel does nothing at all. -/
  noop : Bool := false
  /-- The operation by which the handler sends a message back. -/
  echoing : Option Nat := none
  /-- Operations in the background that have not been shown. -/
  background : List Nat := []
  /-- How many calls of the handler have been shown. -/
  shown : Nat := 0
  /-- The tasks in the order of their turns. -/
  order : List SoloSession.Task := []

/-- The channels of an attendant. -/
inductive Port where
  | lifecycle
  | messages
  | throttled
deriving DecidableEq, Repr

/-- A step of a session. -/
inductive SoloSession.Command where
  | request (r : Attendant.Request) (background : Bool)
  /-- Shows the outcomes in the background. -/
  | outcomes
  | peerWrite (data : Bytes)
  | peerFinish
  | peerClose
  | peerReset
  | peerRead
  | advance (nanos : Nat)
  | clone
  | describe
  | events (only : List Port) (limit : Option Nat)
  | ended
  | dropEvents
  | funnel (noop : Bool)
  | journal
  | funnelDone

/-- What happens next in a session. -/
inductive SoloSession.Move where
  | solo (m : Solo.Move)
  /-- The handler goes on with what it does with a call. -/
  | handle

namespace Port

/-- The channels in the order in which a session shows them. -/
def all : List Port := [.lifecycle, .messages, .throttled]

end Port

namespace Ports

/-- Takes the oldest event of a channel.  `status` is the status of the attendant. -/
def take? (p : Ports) (status : Status) : Port → Option (Event × Ports)
  | .lifecycle =>
    p.lifecycle.take?.map fun (n, lifecycle) =>
      let e := match n with
        | .started a => Event.attendantStarted a status
        | .stopped a ending => .attendantStopped a ending
      (e, { p with lifecycle })
  | .messages => p.messages.take?.map fun (d, messages) => (.message d, { p with messages })
  | .throttled => p.throttled.take?.map fun (d, throttled) => (.throttled d, { p with throttled })

/-- The number of events queued on a channel. -/
def queued (p : Ports) : Port → Nat
  | .lifecycle => p.lifecycle.queue.length
  | .messages => p.messages.queue.length
  | .throttled => p.throttled.queue.length

/-- Takes up to so many events off a channel. -/
def drain (status : Status) (port : Port) : Nat → Ports → List Event × Ports
  | 0, p => ([], p)
  | n + 1, p =>
    match p.take? status port with
    | none => ([], p)
    | some (e, p) =>
      let (events, p) := drain status port n p
      (e :: events, p)

/-- Takes up to `limit` events off each of the given channels, one channel after the other; all that are
queued without a limit. -/
def drainAll (status : Status) (limit : Option Nat) : List Port → Ports → List Event × Ports
  | [], p => ([], p)
  | port :: ports, p =>
    let (events, p) := drain status port (limit.getD (p.queued port)) p
    let (more, p) := drainAll status limit ports p
    (events ++ more, p)

end Ports

namespace SoloSession

/-- Begins a session; none when the connection cannot be established. -/
def open? (n : Network) (codec : Codec) (c : Config) (echo : Bool) : Option SoloSession :=
  if n.connects then some { solo := .create codec c, echo } else none

/-- What the handler does next with the call under way. -/
def handle (s : SoloSession) : Option SoloSession :=
  match s.solo.funnel with
  | none => none
  | some f =>
    if !f.busy then none
    else
      let returns (s : SoloSession) : Option SoloSession :=
        (s.solo.step .handled).map fun solo => { s with solo, echoing := none }
      match s.echoing with
      | some i =>
        if (s.solo.attendant.calls[i]?.bind Call.result?).isSome then returns s else none
      | none =>
        match s.echo && !s.noop, f.calls.getLast? with
        | true, some (.message d) =>
          let m := d.message
          (s.solo.step (.attendant (.send m.command m.args m.kwargs))).map fun solo =>
            { s with solo, echoing := some s.solo.attendant.calls.length }
        | _, _ => returns s

/-- The session after a move; none when the move is not possible. -/
def step (s : SoloSession) : Move → Option SoloSession
  | .solo m =>
    (s.solo.step m).map fun solo =>
      match m with
      | .attendant m => { s with solo, link := s.link.after m }
      | _ => { s with solo }
  | .handle => s.handle

/-- The tasks of a session. -/
def tasks (s : SoloSession) : List Task :=
  s.solo.attendant.tasks.map .attendant ++ [.funnel]

/-- The moves that a task may make next. -/
def proposals (t : Task) (s : SoloSession) : List Move :=
  match t with
  | .attendant t => (s.solo.attendant.proposals s.link t).map fun m => .solo (.attendant m)
  | .funnel => [.handle, .solo .scan]

/-- Lets everything run until it is quiet. -/
def quiet (s : SoloSession) : SoloSession :=
  let (order, s) := takeTurns step tasks proposals patience s.order s
  { s with order }

/-- Lets operation `i` go on as far as it can. -/
def runCall (s : SoloSession) (i : Nat) : SoloSession :=
  settle step (fun _ => [.solo (.attendant (.advance i))]) patience s

/-- Carries a request out. -/
def request (s : SoloSession) (r : Attendant.Request) (background : Bool) : Reply × SoloSession :=
  match r.operation? with
  | none =>
    let (reply, attendant) := s.solo.attendant.answer r
    (reply, { s with solo := { s.solo with attendant } })
  | some m =>
    let i := s.solo.attendant.calls.length
    let s := attempt step s (.solo (.attendant m))
    if background then (.nothing, { s with background := s.background ++ [i] })
    else
      let s := s.runCall i
      let reply := match s.solo.attendant.calls[i]?.bind Call.result? with
        | some result => Reply.outcome result
        | none => .nothing
      (reply, s)

/-- Whether the receiving ends are with the session. -/
def holdsEvents (s : SoloSession) : Bool :=
  s.solo.funnel.isNone && !s.solo.ports.lifecycle.closed

/-- Whether every channel has ended with nothing left on it, channel by channel. -/
def endedFlags (s : SoloSession) : List Bool :=
  let ended := s.solo.isEnded
  let p := s.solo.ports
  [ended && p.lifecycle.isEmpty, ended && p.messages.isEmpty, ended && p.throttled.isEmpty]

/-- The text that describes an attendant to a developer, numbers that differ from run to run left out. -/
def describe (a : Attendant Codec) : String :=
  let status := Attendant.statusName a.status
  s!"Attendant \x7b id: AttendantId(#), peer_addr: 127.0.0.1:#, status: {status}, .. \x7d"

/-- Carries a step out, without letting anything else run. -/
def perform (s : SoloSession) : Command → Reply × SoloSession
  | .request r background => s.request r background
  | .outcomes =>
    let results := s.background.map fun i => s.solo.attendant.calls[i]?.bind Call.result?
    let left := s.background.filter fun i => (s.solo.attendant.calls[i]?.bind Call.result?).isNone
    (.outcomes (results.filterMap id), { s with background := left })
  | .peerWrite data => (.nothing, { s with link := s.link.write data })
  | .peerFinish => (.nothing, { s with link := s.link.finish })
  | .peerClose => (.nothing, { s with link := s.link.close })
  | .peerReset => (.nothing, { s with link := s.link.reset })
  | .peerRead =>
    let a := s.solo.attendant
    (.received (s.link.unread a) (s.link.isEnded a), { s with link := s.link.read a })
  | .advance nanos => (.nothing, attempt step s (.solo (.tick nanos)))
  | .clone => (.clone s.solo.attendant.status, s)
  | .describe => (.text (describe s.solo.attendant), s)
  | .events only limit =>
    if s.holdsEvents then
      let (events, ports) := s.solo.ports.drainAll s.solo.attendant.status limit
        (Port.all.filter (· ∈ only))
      (.events events, { s with solo := { s.solo with ports } })
    else (.events [], s)
  | .ended => (if s.holdsEvents then .flags s.endedFlags else .nothing, s)
  | .dropEvents => (.nothing, if s.holdsEvents then attempt step s (.solo .drop) else s)
  | .funnel noop =>
    (.nothing, if s.holdsEvents then attempt step { s with noop } (.solo .pour) else s)
  | .journal =>
    match s.solo.funnel with
    | some f =>
      (.events (if s.noop then [] else f.calls.drop s.shown), { s with shown := f.calls.length })
    | none => (.events [], s)
  | .funnelDone =>
    (.flags (match s.solo.funnel with
      | some f => [f.isDone]
      | none => []), s)

end SoloSession
end Courier
