import Courier.Attendant.State

/-!
# Step — how an attendant moves

`Attendant.step` lets one task make one access to what it shares with the others.  Callers, the read loop and
the writing task may move in any order, so what holds after all sequences of steps holds for every
interleaving.  Looking at the token and going on with a wait is one access.  A receiver that is being polled
may take more of the stream in although the token has fired since; the loop then meets the token where it
waits next.

- `Attendant.advance` moves an operation of a caller.
- `Attendant.proceed` moves the read loop.
-/

namespace Courier

/-- What happens to an attendant next. -/
inductive Attendant.Move where
  | start
  | stop
  /-- A caller sends a message, its named arguments in any order. -/
  | send (command : String) (args : List Value) (kwargs : List (String × Value))
  | setThrottle (nanos : Nat)
  | setThrottleSigned (nanos : Int)
  /-- Operation `i` goes on. -/
  | advance (i : Nat)
  /-- The stream yields something to the receiver. -/
  | read (e : ReadEvent)
  /-- The read loop goes on. -/
  | proceed
  /-- The read loop notices the token. -/
  | quit
  | writer (m : Outbox.Move)

namespace Attendant

variable {μ : Type} [Marshaler μ]

/-! ## Operations -/

/-- Records an operation. -/
def record (a : Attendant μ) (c : Call μ) : Attendant μ :=
  { a with calls := a.calls ++ [c] }

/-- Begins a start, which claims a new attendant. -/
def beginStart (a : Attendant μ) : Attendant μ :=
  match a.status with
  | .new => { a with status := .running }.record .claimed
  | _ => a.record (.started (.error .attendantNotNew))

/-- Begins a stop, which makes the status final. -/
def beginStop (a : Attendant μ) : Attendant μ :=
  match a.status with
  | .stopped => a.record (.stopped (.error .attendantAlreadyStopped))
  | status => { a with status := .stopped }.record (.firing (status == Status.new))

/-- Begins to send a message, which encodes it. -/
def beginSend (a : Attendant μ) (command : String) (args : List Value)
    (kwargs : List (String × Value)) : Attendant μ :=
  match a.status with
  | .stopped => a.record (.sent (.error .attendantStopped))
  | _ =>
    match Marshaler.encodeParts a.codec command args kwargs with
    | .error e => a.record (.sent (.error e))
    | .ok frame => a.record (.queueing frame)

/-- Lets an operation go on; none when it has to wait or has come out. -/
def advance (id : AttendantId) (a : Attendant μ) (p : Ports) : Call μ → Option (Attendant μ × Ports × Call μ)
  | .claimed =>
    match a.pending with
    -- Never met: a claim is made once, and only the stop of an unclaimed attendant drops the receiver.
    | none => some (a, p, .started (.error .attendantNotNew))
    | some r => some ({ a with pending := none }, p, .announcing r)
  | .announcing r =>
    (p.lifecycle.offer? (.started id)).map fun lifecycle => (a, { p with lifecycle }, .handing r)
  -- The loop begins after the report, so nothing it reports can overtake the start.
  | .handing r => some ({ a with reader := .receiving r }, p, .started (.ok ()))
  | .firing wasNew =>
    some ({ a with fired := true }, p, if wasNew then .dropping else .stopped (.ok ()))
  | .dropping => some ({ a with pending := none }, p, .stopped (.ok ()))
  | .queueing frame =>
    -- Only the end of the writing task closes the queue; a stop alone does not.
    if a.outbox.queue.closed then some (a, p, .sent (.error .connectionClosed))
    else
      (a.outbox.queue.offer? frame).map fun queue =>
        ({ a with outbox := { a.outbox with queue } }, p, .sent (.ok ()))
  | .started _ | .stopped _ | .sent _ => none

/-! ## The read loop -/

/-- Lets the receiver see what the stream yields; none when it does not wait for the stream. -/
def read (a : Attendant μ) (e : ReadEvent) : Option (Attendant μ) :=
  match a.reader with
  | .receiving r =>
    match Marshaler.poll r with
    -- A result at hand comes first: the stream is asked only when the bytes do not suffice.
    | (some _, _) => none
    | (none, r) =>
      match Marshaler.absorb r e with
      | (some e, _) => some { a with reader := .failed e }
      | (none, r) => some { a with reader := .receiving r }
  | _ => none

/-- The ending that an error of the receiver leads to: once the token has fired, whatever goes wrong is the
stop's doing. -/
def classify (fired : Bool) (e : Error) : Ending :=
  if fired then .requested else .ofError e

/-- The ending once the status is final.  Losing the change of status to a stop makes the ending requested,
whatever the loop has seen. -/
def settle (claimed : Bool) (ending : Ending) : Ending :=
  if claimed then ending else .requested

/-- Lets the read loop go on at an instant; none when it has to wait or is over. -/
def proceed (id : AttendantId) (now : Nat) (a : Attendant μ) (p : Ports) : Option (Attendant μ × Ports) :=
  match a.reader with
  | .absent | .finished => none
  | .receiving r =>
    match Marshaler.poll r with
    | (none, _) => none
    | (some (.error e), _) => some ({ a with reader := .failed e }, p)
    | (some (.ok m), r) =>
      some ({ a with reader := .judging r m, received := a.received ++ [m] }, p)
  | .failed e => some ({ a with reader := .left (classify a.fired e) }, p)
  | .judging r m =>
    -- The throttle is looked up for each message, so a change counts from the next one on.
    let (admission, gate) := a.gate.check a.throttle now
    let refusal := match admission with
      | .admitted => none
      | .refused lapse => some (now, lapse)
    some ({ a with gate, reader := .publishing r m refusal }, p)
  | .publishing r m refusal =>
    -- The loop leaves by `quit`, and the message in hand is lost.
    if a.fired then none
    else
      match refusal with
      | none =>
        (p.messages.offer? ⟨id, m⟩).map fun messages =>
          ({ a with reader := .receiving r }, { p with messages })
      | some (instant, lapse) =>
        (p.throttled.offer? ⟨id, m, instant, lapse⟩).map fun throttled =>
          ({ a with reader := .receiving r }, { p with throttled })
  | .left ending =>
    -- Of a stop and the loop only the first makes the status final.
    match a.status with
    | .running => some ({ a with status := .stopped, reader := .firing (settle true ending) }, p)
    | _ => some ({ a with reader := .firing (settle false ending) }, p)
  | .firing ending => some ({ a with fired := true, reader := .releasing ending }, p)
  | .releasing ending => some ({ a with reader := .announcing ending }, p)
  | .announcing ending =>
    (p.lifecycle.offer? (.stopped id ending)).map fun lifecycle =>
      ({ a with reader := .finished }, { p with lifecycle })

/-- The read loop leaves a wait because the token has fired. -/
def quit (a : Attendant μ) : Option (Attendant μ) :=
  if a.fired then
    match a.reader with
    | .receiving _ | .publishing _ _ _ => some { a with reader := .left .requested }
    | _ => none
  else none

/-! ## Moves -/

/-- The attendant and its channels after a move; none when the move is not possible. -/
def step (id : AttendantId) (now : Nat) (a : Attendant μ) (p : Ports) : Move → Option (Attendant μ × Ports)
  | .start => some (a.beginStart, p)
  | .stop => some (a.beginStop, p)
  | .send command args kwargs => some (a.beginSend command args kwargs, p)
  | .setThrottle nanos => some (a.setThrottle nanos, p)
  | .setThrottleSigned nanos => some (a.setThrottleSigned nanos, p)
  | .advance i =>
    match a.calls[i]? with
    | none => none
    | some c =>
      (a.advance id p c).map fun (a, p, c) => ({ a with calls := a.calls.set i c }, p)
  | .read e => (a.read e).map fun a => (a, p)
  | .proceed => a.proceed id now p
  | .quit => a.quit.map fun a => (a, p)
  | .writer m => (a.outbox.step a.fired true m).map fun outbox => ({ a with outbox }, p)

end Attendant
end Courier
