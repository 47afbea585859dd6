import Courier.Channel
import Courier.Outbox.Batch

/-!
# Writer — the task that owns the writing end of a connection

Frames wait in a bounded queue for one task, which takes the first of them with all others queued already,
writes them as one batch, flushes, and starts again.

- A fired token ends the task: between batches the sink is shut down first, in the middle of a batch it is
  given up as it is.
- Without any handle left, the task ends once the queue is empty, and the sink is shut down.
- A failing sink ends the task at once.

`Outbox.step` says what each move of the task does.  Whether the token has fired and whether a handle is left
is known outside, and so is what the sink does with a write.
-/

namespace Courier

/-- A call on a sink. -/
inductive SinkCall where
  | write (offered : List Bytes) (outcome : Outcome)
  | flush
  | shutdown

namespace SinkCall

/-- The bytes that a call has moved to the sink. -/
def taken : SinkCall → Bytes
  | .write offered (.took n) => offered.flatten.take n
  | _ => []

end SinkCall

/-- Where the writing task is. -/
inductive Outbox.Phase where
  /-- Waits for a frame or for the token. -/
  | waiting
  /-- Collects frames that are queued already. -/
  | gathering (frames : List Bytes)
  | writing (batch : Batch)
  | flushing
  /-- About to shut the sink down. -/
  | closing
  | ended (failure : Option IoError)

/-- What the writing task does next. -/
inductive Outbox.Move where
  /-- It takes the first frame of a batch. -/
  | take
  /-- It takes a further frame. -/
  | gather
  /-- It finds the batch complete. -/
  | seal
  | write (outcome : Outcome)
  | flush (failure : Option IoError)
  /-- It leaves its loop between two batches. -/
  | leave
  /-- It gives a batch up. -/
  | abandon
  | shutdown

/-- The writing end of a connection. -/
structure Outbox where
  queue : Channel Bytes
  phase : Outbox.Phase := .waiting
  /-- The calls on the sink, oldest first. -/
  calls : List SinkCall := []

namespace Outbox

/-- A writing end with room for `capacity` queued frames, at least one. -/
def start (capacity : Nat) : Outbox where
  queue := { capacity := max capacity 1 }

/-- Everything the sink has taken. -/
def delivered (b : Outbox) : Bytes :=
  b.calls.flatMap SinkCall.taken

/-- Whether the task has ended, which releases the sink. -/
def isEnded (b : Outbox) : Bool :=
  match b.phase with
  | .ended _ => true
  | _ => false

/-- Ends the task: the queue loses its receiver. -/
def finish (b : Outbox) (failure : Option IoError) : Outbox :=
  { b with phase := .ended failure, queue := b.queue.close }

/-- Records a call on the sink. -/
def record (b : Outbox) (call : SinkCall) : Outbox :=
  { b with calls := b.calls ++ [call] }

/-- The writing end after a move; none when the move is not possible.  `fired` says whether the token has
fired, `held` whether a handle is left. -/
def step (fired held : Bool) (b : Outbox) : Move → Option Outbox
  | .take =>
    match b.phase with
    | .waiting =>
      -- The token is minded first: `leave` is then the only way on.
      if fired then none
      else b.queue.take?.map fun (f, queue) => { b with queue, phase := .gathering [f] }
    | _ => none
  | .gather =>
    match b.phase with
    | .gathering frames =>
      if frames.length < Batch.maximum then
        b.queue.take?.map fun (f, queue) => { b with queue, phase := .gathering (frames ++ [f]) }
      else none
    | _ => none
  | .seal =>
    match b.phase with
    | .gathering frames =>
      if frames.length < Batch.maximum && !b.queue.isEmpty then none
      else
        -- A batch of empty frames has nothing to write and goes straight to its flush.
        let batch : Batch := { frames }
        some { b with phase := if batch.isWritten then .flushing else .writing batch }
    | _ => none
  | .write outcome =>
    match b.phase with
    | .writing batch =>
      if batch.admits outcome then
        let b := b.record (.write batch.offered outcome)
        match batch.accept outcome with
        | .error e => some (b.finish (some e))
        | .ok batch =>
          some { b with phase := if batch.isWritten then .flushing else .writing batch }
      else none
    | _ => none
  | .flush failure =>
    match b.phase with
    | .flushing =>
      let b := b.record .flush
      match failure with
      | some e => some (b.finish (some e))
      | none => some { b with phase := .waiting }
    | _ => none
  | .leave =>
    match b.phase with
    | .waiting =>
      -- Without a handle what is queued is still written; with the token fired it is lost.
      if fired || (!held && b.queue.isEmpty) then some { b with phase := .closing } else none
    | _ => none
  | .abandon =>
    match b.phase with
    -- Neither flushed nor shut down: the sink is dropped as it is.
    | .writing _ | .flushing => if fired then some (b.finish none) else none
    | _ => none
  | .shutdown =>
    match b.phase with
    | .closing => some ((b.record .shutdown).finish none)
    | _ => none

/-- The move that the task makes when it goes on as soon as it can: it minds the token first, and gathers all
that is queued.  `respond` says what the sink does with so many bytes, if it is ready, `failure` how a flush
fails. -/
def next (fired held : Bool) (respond : Nat → Option Outcome) (failure : Option IoError) (b : Outbox) :
    Option Move :=
  match b.phase with
  | .waiting =>
    if fired || (!held && b.queue.isEmpty) then some .leave
    else if b.queue.isEmpty then none
    else some .take
  | .gathering frames =>
    if frames.length < Batch.maximum && !b.queue.isEmpty then some .gather else some .seal
  | .writing batch =>
    if fired then some .abandon else (respond (batch.size - batch.written)).map .write
  | .flushing => if fired then some .abandon else some (.flush failure)
  | .closing => some .shutdown
  | .ended _ => none

end Outbox
end Courier
