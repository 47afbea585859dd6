import Courier.Server.House
import Courier.Session.Dispatch
import Courier.Session.Link

/-!
# Serve — sessions with a server

A session holds a server on a host, the clients that have dialed it and the consumer of its events.  Each step
of the session acts on one of them; then everything runs until it is quiet.  Attendants go by the names of
their clients.
-/

namespace Courier

/-- A client that has established a connection. -/
structure Client where
  name : String
  link : Link := {}

/-- A task of a session. -/
inductive ServeSession.Task where
  /-- The caller of operation `i` on the server. -/
  | caller (i : Nat)
  /-- The accept loop of run `k`. -/
  | loop (k : Nat)
  /-- The registrar of round `r`. -/
  | registrar (r : Nat)
  | attendant (a : AttendantId) (t : Attendant.Task)
  | funnel
deriving BEq

/-- A session with a server. -/
structure ServeSession where
  house : House Codec
  network : Network
  /-- The clients in the order in which they dialed. -/
  clients : List Client := []
  /-- Connections that have not been accepted, oldest first. -/
  backlog : List PeerId := []
  /-- How the next attempt to accept fails. -/
  failure : Option IoError := none
  /-- The attendants that the session remembers. -/
  kept : List AttendantId := []
  /-- Whether the handler of a funnel sends every message back. -/
  echo : Bool
  /-- Whether the handler of the funnel does nothing at all. -/
  noop : Bool := false
  /-- The operation by which the handler sends a message back. -/
  echoing : Option (AttendantId × Nat) := none
  /-- Calls of the handlers of finished funnels that have not been shown. -/
  past : List Event := []
  /-- How many calls of the handler of the funnel have been shown. -/
  shown : Nat := 0
  /-- The tasks in the order of their turns. -/
  order : List ServeSession.Task := []

/-- How a client dials. -/
structure Dialing where
  /-- How the attempt to accept the connection fails first. -/
  failure : Option IoError := none
  /-- Whether the client resets the connection before it is accepted. -/
  reset : Bool := false

/-- A step of a session. -/
inductive ServeSession.Command where
  | run (host : String)
  | stop
  | address
  | drop
  | connect (client : String) (how : Dialing)
  | write (client : String) (data : Bytes)
  | read (client : String)
  | close (client : String)
  | finish (client : String)
  | reset (client : String)
  | advance (nanos : Nat)
  | events (only : List Outlet) (limit : Option Nat)
  | broadcast (m : Message)
  | enumerate (stop : Bool)
  | keep
  | kept (client : String) (r : Attendant.Request)
  | describe
  | dropEvents
  | funnel (noop : Bool)
  | journal
  | funnelDone

/-- What happens next in a session. -/
inductive ServeSession.Move where
  | house (m : House.Move)
  /-- The handler goes on with what it does with a call. -/
  | handle

namespace ServeSession

/-- The server of the session. -/
def server (s : ServeSession) : Server :=
  s.house.server

/-- The name of an attendant: that of its client. -/
def nameOf (s : ServeSession) (a : AttendantId) : String :=
  match s.server.members[a]?.bind fun m => s.clients[m.peer]? with
  | some c => c.name
  | none => ""

/-- The client with a name that dialed last. -/
def client? (s : ServeSession) (name : String) : Option PeerId :=
  ((List.range s.clients.length).filter fun i => (s.clients[i]?.map Client.name) = some name).getLast?

/-- The attendant of a client. -/
def memberOf? (s : ServeSession) (peer : PeerId) : Option AttendantId :=
  s.server.members.findIdx? (·.peer = peer)

/-- Changes the peer's end of a connection. -/
def setLink (s : ServeSession) (peer : PeerId) (f : Link → Link) : ServeSession :=
  match s.clients[peer]? with
  | some c => { s with clients := s.clients.set peer { c with link := f c.link } }
  | none => s

/-- Whether a connection has not been reset by its client. -/
def isIntact (s : ServeSession) (peer : PeerId) : Bool :=
  match s.clients[peer]? with
  | some c => c.link.peer != .reset
  | none => false

/-! ## Running -/

/-- What the handler does next with the call under way. -/
def handle (s : ServeSession) : Option ServeSession :=
  match s.house.funnel with
  | none => none
  | some f =>
    if !f.busy then none
    else
      let returns (s : ServeSession) : Option ServeSession :=
        (s.house.step .handled).map fun house => { s with house, echoing := none }
      match s.echoing with
      | some (a, i) =>
        if ((s.server.attendant? a).bind fun x => x.calls[i]?.bind Call.result?).isSome then returns s
        else none
      | none =>
        match s.echo && !s.noop, f.calls.getLast? with
        | true, some (.message d) =>
          let m := d.message
          let i := ((s.server.attendant? d.attendant).map (·.calls.length)).getD 0
          (s.house.step (.server (.attendant d.attendant (.send m.command m.args m.kwargs)))).map
            fun house => { s with house, echoing := some (d.attendant, i) }
        | _, _ => returns s

/-- The session after a move; none when the move is not possible. -/
def step (s : ServeSession) : Move → Option ServeSession
  | .house m =>
    (s.house.step m).map fun house =>
      let s := { s with house }
      match m with
      | .server (.attendant a m) =>
        match s.server.members[a]? with
        | some member => s.setLink member.peer (·.after m)
        | none => s
      | .server (.loop (.accept _ (.ok _))) => { s with backlog := s.backlog.drop 1 }
      | .server (.loop (.accept _ (.error _))) => { s with failure := none }
      | .server (.loop (.leave _)) => { s with backlog := [], failure := none }
      | _ => s
  | .handle => s.handle

/-- What accepting yields next; none when no connection waits. -/
def arrival (s : ServeSession) : Option (Except IoError PeerId) :=
  match s.backlog, s.failure with
  | [], _ => none
  | _ :: _, some e => some (.error e)
  | peer :: _, none => some (.ok peer)

/-- Whether the connection that a duty makes an attendant of is still there. -/
def isIntactFor (s : ServeSession) : Option Duty → Bool
  | some (.founding peer _) => s.isIntact peer
  | _ => true

/-- The tasks of a session. -/
def tasks (s : ServeSession) : List Task :=
  let server := s.server
  let attendants := (List.range server.members.length).flatMap fun a =>
    match server.attendant? a with
    | some x => x.tasks.map (Task.attendant a)
    | none => []
  (List.range server.calls.length).map .caller ++ (List.range server.duties.length).map .loop
    ++ (List.range server.rounds.length).map .registrar ++ attendants ++ [.funnel]

/-- The moves of the server that a task may make next. -/
def serverProposals (s : ServeSession) : Task → List Server.Move
  | .caller i => [.advance i]
  | .loop k =>
    -- A loop looks for a connection only when there is one.
    let wait : List Dispatcher.Move := match s.arrival with
      | some outcome => [.look k, .accept k outcome]
      | none => [.rest k]
    [.loop (.begin k), .loop (.call k), .work k (s.isIntactFor s.server.duties[k]?), .loop (.quit k),
      .loop (.resume k), .loop (.leave k)] ++ wait.map .loop
  | .registrar r => [.register r]
  | .attendant a t =>
    match s.server.members[a]? with
    | some m =>
      let link := (s.clients[m.peer]?.map Client.link).getD {}
      (m.attendant.proposals link t).map (Server.Move.attendant a)
    | none => []
  | .funnel => []

/-- The moves that a task may make next. -/
def proposals (t : Task) (s : ServeSession) : List Move :=
  match t with
  | .funnel => [.handle, .house .scan]
  | t => (s.serverProposals t).map fun m => .house (.server m)

/-- Lets everything run until it is quiet. -/
def quiet (s : ServeSession) : ServeSession :=
  let (order, s) := takeTurns step tasks proposals patience s.order s
  { s with order }

/-- Lets operation `i` on the server go on as far as it can. -/
def runCall (s : ServeSession) (i : Nat) : ServeSession :=
  settle step (fun _ => [.house (.server (.advance i))]) patience s

/-- Begins an operation on an attendant and lets it go on as far as it can. -/
def operate (s : ServeSession) (a : AttendantId) (m : Attendant.Move) :
    Option (Except Error Unit) × ServeSession :=
  let i := ((s.server.attendant? a).map (·.calls.length)).getD 0
  let s := attempt step s (.house (.server (.attendant a m)))
  let s := settle step (fun _ => [.house (.server (.attendant a (.advance i)))]) patience s
  ((s.server.attendant? a).bind (fun x => x.calls[i]?.bind Call.result?), s)

/-- Begins the same operation on several attendants, one after the other, and shows the outcomes by name. -/
def operateAll (s : ServeSession) (m : Attendant.Move) :
    List AttendantId → List (String × Except Error Unit) × ServeSession
  | [] => ([], s)
  | a :: rest =>
    let (result, s) := s.operate a m
    let (results, s) := operateAll s m rest
    match result with
    | some r => ((s.nameOf a, r) :: results, s)
    | none => (results, s)

/-! ## Steps -/

/-- Begins a session. -/
def start (network : Network) (server : Server) (echo : Bool) : ServeSession where
  house := { server }
  network
  echo

/-- Runs the server. -/
def run (s : ServeSession) (host : String) : Reply × ServeSession :=
  let i := s.server.calls.length
  let s := attempt step s (.house (.server .run))
  let s := match s.server.calls[i]? with
    | some (.binding _) => attempt step s (.house (.server (.bind i (s.network.listen [] host))))
    | _ => s
  let s := s.runCall i
  (showCall s i, s)
where
  /-- How operation `i` on the server came out. -/
  showCall (s : ServeSession) (i : Nat) : Reply :=
    match s.server.calls[i]?.bind Server.Call.result? with
    | some result => .outcome result
    | none => .nothing

/-- Begins an operation on the server and lets it go on as far as it can. -/
def operateServer (s : ServeSession) (m : Server.Move) : Reply × ServeSession :=
  let i := s.server.calls.length
  let s := (attempt step s (.house (.server m))).runCall i
  (run.showCall s i, s)

/-- A client dials. -/
def connect (s : ServeSession) (name : String) (how : Dialing) : Reply × ServeSession :=
  if s.network.connects && s.server.dispatcher.isListening then
    let link : Link := {}
    let client : Client := { name, link := if how.reset then link.reset else link }
    (.connection true,
      { s with
        clients := s.clients ++ [client]
        backlog := s.backlog ++ [s.clients.length]
        failure := how.failure })
  else (.connection false, s)

/-- Whether the receiving ends are with the session; it takes them back from a funnel only when it asks whether
the funnel has finished. -/
def holdsEvents (s : ServeSession) : Bool :=
  s.house.funnel.isNone && !s.server.outlets.stopped.closed

/-- What a client reads, and the session afterwards. -/
def read (s : ServeSession) (peer : PeerId) : Reply × ServeSession :=
  match s.memberOf? peer, s.clients[peer]? with
  | some a, some c =>
    match s.server.attendant? a with
    | some x =>
      (.received (c.link.unread x) (c.link.isEnded x), s.setLink peer (·.read x))
    | none => (.nothing, s)
  | _, _ => (.received [] (!(s.backlog.contains peer)), s)

/-- The remembered attendant of a client. -/
def keptOf? (s : ServeSession) (name : String) : Option AttendantId :=
  s.kept.find? fun a => s.nameOf a = name

/-- Carries a request to a remembered attendant out. -/
def request (s : ServeSession) (a : AttendantId) (r : Attendant.Request) : Reply × ServeSession :=
  match s.server.members[a]?, r.operation? with
  | none, _ => (.nothing, s)
  | some _, some m => outcome (s.operate a m)
  | some member, none =>
    let (reply, attendant) := member.attendant.answer r
    let members := s.server.members.set a { member with attendant }
    (reply, { s with house := { s.house with server := { s.server with members } } })
where
  /-- Shows how an operation came out. -/
  outcome : Option (Except Error Unit) × ServeSession → Reply × ServeSession
    | (some result, s) => (.outcome result, s)
    | (none, s) => (.nothing, s)

/-- The text that describes a server to a developer. -/
def describe (s : Server) : String :=
  s!"Server \x7b dispatcher: {s.dispatcher.describe}, attendants: {s.length}, .. \x7d"

/-- Shows the calls of handlers that have not been shown. -/
def journal (s : ServeSession) : List Event × ServeSession :=
  match s.house.funnel with
  | none => (s.past, { s with past := [] })
  | some f =>
    let fresh := if s.noop then [] else f.calls.drop s.shown
    (s.past ++ fresh, { s with past := [], shown := f.calls.length })

/-- Takes the receiving ends back from a funnel that has finished. -/
def regain (s : ServeSession) : ServeSession :=
  let (events, s) := s.journal
  { s with past := events, shown := 0, house := { s.house with funnel := none } }

/-- Acts on the connection of a client; none when there is no such client. -/
def onLink (s : ServeSession) (name : String) (f : Link → Link) : Option (Reply × ServeSession) :=
  (s.client? name).map fun peer => (.nothing, s.setLink peer f)

/-- Carries a step out, without letting anything else run; none when it names a client or an attendant that
does not exist. -/
def perform (s : ServeSession) : Command → Option (Reply × ServeSession)
  | .run host => some (s.run host)
  | .stop => some (s.operateServer .stop)
  | .address => some (.address s.server.address, s)
  | .drop => some (.nothing, (s.operateServer .drop).2)
  | .connect name how => some (s.connect name how)
  | .write name data => s.onLink name (·.write data)
  | .read name => (s.client? name).map s.read
  | .close name => s.onLink name Link.close
  | .finish name => s.onLink name Link.finish
  | .reset name => s.onLink name Link.reset
  | .advance nanos => some (.nothing, attempt step s (.house (.server (.tick nanos))))
  | .events only limit =>
    if s.holdsEvents then
      let (events, outlets) := s.server.outlets.drainAll s.server.statusOf limit
        (Outlet.all.filter (· ∈ only))
      some (.events events, { s with house := s.house.setOutlets outlets })
    else some (.events [], s)
  | .broadcast m =>
    let (results, s) := s.operateAll (.send m.command m.args m.kwargs) s.server.tracked
    some (.outcomesOf (Reply.sortByName results), s)
  | .enumerate stop =>
    if stop then
      let (results, s) := s.operateAll .stop s.server.tracked
      some (.outcomesOf (Reply.sortByName results), s)
    else
      let statuses := s.server.tracked.map fun a => (s.nameOf a, s.server.statusOf a)
      some (.statusesOf (Reply.sortByName statuses), s)
  | .keep =>
    let kept := s.kept ++ s.server.tracked.filter (!s.kept.contains ·)
    let names := Reply.sortByName (kept.map fun a => (s.nameOf a, ()))
    some (.names (names.map Prod.fst), { s with kept })
  | .kept name r => (s.keptOf? name).map fun a => s.request a r
  | .describe => some (.text (describe s.server), s)
  | .dropEvents =>
    some (.nothing,
      if s.holdsEvents then Outlet.all.foldl (fun s o => attempt step s (.house (.close o))) s else s)
  | .funnel noop =>
    some (.nothing, if s.holdsEvents then attempt step { s with noop } (.house .pour) else s)
  | .journal =>
    let (events, s) := s.journal
    some (.events events, s)
  | .funnelDone =>
    match s.house.funnel with
    | none => some (.nothing, s)
    | some f => some (.flag f.isDone, if f.isDone then s.regain else s)

/-- The number of tracked attendants; none once the server has been dropped. -/
def length? (s : ServeSession) : Option Nat :=
  if s.server.dropped then none else some s.server.length

end ServeSession
end Courier
