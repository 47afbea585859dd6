import Courier.Server.State

/-!
# Step — how a server moves

`Server.step` lets one task make one access to what it shares with the others: a caller, the accept loop of a
run, a registrar, or a task of an attendant.  A registrar that waits, for a report or for room to pass one on,
looks whether it has been told to end first and at the channel then, so it may still take or pass on one report
that it is told to leave in between.  The stop of an attendant that another task asks for makes its status final
at once and is finished as an operation of the attendant.

- `Server.advance` moves an operation of a caller.
- `Server.work` moves an accept loop inside a callback.
- `Server.register` moves a registrar, `Server.wake` wakes one.
-/

namespace Courier

/-- What happens to a server next. -/
inductive Server.Move where
  | run
  /-- Resolving and binding for operation `i` has come out. -/
  | bind (i : Nat) (outcome : Except Error Address)
  | stop
  /-- Operation `i` goes on. -/
  | advance (i : Nat)
  /-- An accept loop moves outside its callbacks. -/
  | loop (m : Dispatcher.Move)
  /-- The accept loop of run `k` goes on inside a callback; `intact` says whether a connection that it makes
  an attendant of is still there. -/
  | work (k : Nat) (intact : Bool)
  /-- The registrar of round `r` goes on. -/
  | register (r : Nat)
  /-- The registrar of round `r`, which waits, is woken before there is anything for it to do. -/
  | wake (r : Nat)
  | attendant (a : AttendantId) (m : Attendant.Move)
  | tick (nanos : Nat)
  /-- The server is dropped, which stops it. -/
  | drop

namespace Server

variable {μ : Type} [Marshaler μ]

/-! ## Operations -/

/-- Records an operation. -/
def record (s : Server μ) (c : Call) : Server μ :=
  { s with calls := s.calls ++ [c] }

/-- Begins a run, which claims the dispatcher. -/
def beginRun (s : Server μ) : Server μ :=
  match s.dispatcher.claim with
  | .error e => s.record (.ran (.error e))
  | .ok dispatcher =>
    { s with dispatcher, duties := s.duties ++ [Duty.idle] }.record (.binding s.dispatcher.runs.length)

/-- Begins a stop, which takes the means to end the run. -/
def beginStop (s : Server μ) : Server μ :=
  match s.closer with
  | none => s.record (.halted (.error .notListening))
  | some k => { s with closer := none }.record (.barring k)

/-- Ends the binding of a run; none when the operation is at another point. -/
def bind (s : Server μ) (c : Call) (outcome : Except Error Address) : Option (Server μ × Call) :=
  match c with
  | .binding k =>
    match outcome with
    | .ok a =>
      (s.dispatcher.step s.now (.bound k a)).map fun dispatcher => ({ s with dispatcher }, .keeping k)
    | .error e =>
      -- The dispatcher is idle again, and no callback is made.
      (s.dispatcher.step s.now (.forgo k)).map fun dispatcher =>
        ({ s with dispatcher }, .ran (.error e))
  | _ => none

/-- Lets an operation go on; none when it has to wait or has come out. -/
def advance (s : Server μ) : Call → Option (Server μ × Call)
  | .keeping k => some ({ s with closer := some k }, .ran (.ok ()))
  | .barring k => some ({ s with closing := true }, .closing k)
  | .closing k =>
    (s.dispatcher.step s.now (.close k)).map fun dispatcher => ({ s with dispatcher }, .emptying)
  -- The set is empty before the first attendant is stopped.
  | .emptying => some ({ s with tracked := [] }, .stopping s.tracked)
  | .stopping [] => some (s, .halted (.ok ()))
  | .stopping (a :: left) => some (s.stopAttendant a, .stopping left)
  | .binding _ | .ran _ | .halted _ => none

/-! ## The accept loop -/

/-- Lets an accept loop move outside its callbacks; a call of the handler sets it to work. -/
def loop (s : Server μ) (m : Dispatcher.Move) : Option (Server μ) :=
  match m with
  | .begin k | .look k | .rest k | .accept k _ | .call k | .resume k | .quit k | .leave k =>
    (s.dispatcher.step s.now m).map fun dispatcher =>
      -- The duty is read off the new phase: a callback begins its work, anything else ends it.
      let duty := match dispatcher.runs[k]? with
        | some { phase := .calling c, .. } => Duty.ofCallback c
        | _ => .idle
      { s with dispatcher, duties := s.duties.set k duty }
  | _ => none

/-- Changes a round. -/
def setRound (s : Server μ) (r : Nat) (f : Round → Round) : Server μ :=
  match s.rounds[r]? with
  | some round => { s with rounds := s.rounds.set r (f round) }
  | none => s

/-- Makes an attendant of a connection and begins its start. -/
def found (s : Server μ) (peer : PeerId) (r : Nat) : Server μ :=
  let attendant := Attendant.create s.codec s.config.throttle s.config.writer
  { s with members := s.members ++ [⟨attendant.beginStart, r, peer⟩] }

/-- Whether the start of an attendant, its first operation, has come out. -/
def hasStarted (s : Server μ) (a : AttendantId) : Bool :=
  match s.attendant? a with
  | some attendant =>
    match attendant.calls.head? with
    | some c => c.result?.isSome
    | none => false
  | none => false

/-- Lets the accept loop of run `k` go on with its work; none when it has to wait. -/
def work (s : Server μ) (k : Nat) (intact : Bool) : Duty → Option (Server μ × Duty)
  | .idle => none
  | .opening a =>
    let r := s.rounds.length
    some ({ s with rounds := s.rounds ++ [.fresh], round := some r }, .reopening r a)
  | .reopening r a => some ({ s with closing := false }, .hiring r a)
  | .hiring r a =>
    some (s.setRound r fun round => { round with registrar := .waiting }, .announcing a)
  | .announcing a =>
    (s.outlets.started.offer? a).map fun started =>
      ({ s with outlets := { s.outlets with started } }, .done)
  | .admitting peer => some (s, if s.closing then .done else .joining peer)
  | .joining peer =>
    match s.round with
    | none => some (s, .done)
    | some r => some (s, .founding peer r)
  | .founding peer r =>
    if intact then some (s.found peer r, .starting s.members.length) else some (s, .done)
  -- The loop waits here, so the next connection is not accepted before this one has started.
  | .starting a => if s.hasStarted a then some (s, .done) else none
  | .reporting e =>
    (s.outlets.acceptFailed.offer? e).map fun acceptFailed =>
      ({ s with outlets := { s.outlets with acceptFailed } }, .done)
  | .retiring =>
    match s.round with
    | none => some (s, .parting)
    | some r => some ({ s with round := none }, .dismissing r)
  | .dismissing r => some (s.setRound r fun round => { round with quit := true }, .parting)
  | .parting =>
    (s.outlets.stopped.offer? ()).map fun stopped =>
      ({ s with outlets := { s.outlets with stopped } }, .done)
  | .done =>
    (s.dispatcher.step s.now (.finish k)).map fun dispatcher => ({ s with dispatcher }, .idle)

/-! ## Registrars -/

/-- Changes a round once its registrar has gone on, which forgets what the registrar has seen. -/
def setRegister (s : Server μ) (r : Nat) (round : Round) (registrar : Registrar) : Server μ :=
  { s with rounds := s.rounds.set r { round with registrar, poised := false } }

/-- Notes whether the registrar of a round has just seen that it has not been told to end. -/
def setPoised (s : Server μ) (r : Nat) (round : Round) (poised : Bool) : Server μ :=
  { s with rounds := s.rounds.set r { round with poised } }

/-- Lets a registrar that waits go on.  `outcome` is the server once the wait is over; none while it lasts. -/
def await (s : Server μ) (r : Nat) (round : Round) (outcome : Option (Server μ)) : Option (Server μ) :=
  -- Whether it has been told to end since it looked is not seen here.
  if round.poised then some (outcome.getD (s.setPoised r round false))
  -- Told to end, it leaves its loop.  A report that it holds is lost, while the set already reflects it.
  else if round.quit then some (s.setRegister r round .closing)
  else outcome.map fun _ => s.setPoised r round true

/-- Lets the registrar of a round go on; none when it has to wait or is over. -/
def register (s : Server μ) (r : Nat) (round : Round) : Option (Server μ) :=
  match round.registrar with
  | .absent | .finished => none
  | .waiting =>
    s.await r round <| round.inbox.take?.map fun (notice, inbox) =>
      s.setRegister r { round with inbox } (.ofNotice notice)
  | .entering a =>
    -- An attendant whose start was under way when the server closed is not tracked but stopped.
    let s := if s.closing then s.stopAttendant a else s.track a
    some (s.setRegister r round (.announcing a))
  | .erasing a ending => some ((s.untrack a).setRegister r round (.reporting a ending))
  | .announcing a =>
    s.await r round <| (s.outlets.attendantStarted.offer? a).map fun attendantStarted =>
      { s with outlets := { s.outlets with attendantStarted } }.setRegister r round .waiting
  | .reporting a ending =>
    s.await r round <| (s.outlets.attendantStopped.offer? (a, ending)).map fun attendantStopped =>
      { s with outlets := { s.outlets with attendantStopped } }.setRegister r round .waiting
  -- Closing first, so that no report comes in behind the look through the rest.
  | .closing => some (s.setRegister r { round with inbox := round.inbox.close } .clearing)
  | .clearing =>
    match round.inbox.take? with
    | none => some (s.setRegister r round .finished)
    | some (.started a, inbox) => some ((s.stopAttendant a).setRegister r { round with inbox } .clearing)
    | some (.stopped _ _, inbox) => some (s.setRegister r { round with inbox } .clearing)

/-- Wakes the registrar of a round, which looks whether it has been told to end and sees that it has not; none
when it does not wait. -/
def wake (s : Server μ) (r : Nat) (round : Round) : Option (Server μ) :=
  if round.registrar.waits && !round.poised && !round.quit then some (s.setPoised r round true) else none

/-! ## Attendants -/

/-- Lets an attendant move. -/
def moveAttendant (s : Server μ) (a : AttendantId) (m : Attendant.Move) : Option (Server μ) :=
  match s.members[a]? with
  | none => none
  | some member =>
    match s.rounds[member.round]? with
    | none => none
    | some round =>
      (member.attendant.step a s.now (s.portsOf round) m).map fun (attendant, ports) =>
        { s with
          members := s.members.set a { member with attendant }
          -- Its lifecycle channel is the inbox of the round; the two others are the server's own.
          rounds := s.rounds.set member.round { round with inbox := ports.lifecycle }
          outlets := { s.outlets with messages := ports.messages, throttled := ports.throttled } }

/-! ## Moves -/

/-- The server after a move; none when the move is not possible. -/
def step (s : Server μ) : Move → Option (Server μ)
  | .run => if s.dropped then none else some s.beginRun
  | .bind i outcome =>
    match s.calls[i]? with
    | none => none
    | some c => (s.bind c outcome).map fun (s, c) => { s with calls := s.calls.set i c }
  | .stop => if s.dropped then none else some s.beginStop
  | .advance i =>
    match s.calls[i]? with
    | none => none
    | some c => (s.advance c).map fun (s, c) => { s with calls := s.calls.set i c }
  | .loop m => s.loop m
  | .work k intact =>
    match s.duties[k]? with
    | none => none
    | some duty => (s.work k intact duty).map fun (s, duty) => { s with duties := s.duties.set k duty }
  | .register r =>
    match s.rounds[r]? with
    | none => none
    | some round => s.register r round
  | .wake r =>
    match s.rounds[r]? with
    | none => none
    | some round => s.wake r round
  | .attendant a m => s.moveAttendant a m
  | .tick nanos => some { s with now := s.now + nanos }
  -- Dropping begins a stop like any other; no operation can be begun afterwards.
  | .drop => if s.dropped then none else some { s.beginStop with dropped := true }

/-- What can be reached from a state by moves. -/
inductive Reaches : Server μ → List Move → Server μ → Prop where
  | refl (s : Server μ) : Reaches s [] s
  | step {s t u : Server μ} {m : Move} {ms : List Move} :
      s.step m = some t → Reaches t ms u → Reaches s (m :: ms) u

end Server
end Courier
