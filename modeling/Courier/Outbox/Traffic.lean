import Courier.Outbox.Writer

/-!
# Traffic — senders in front of a writing task

Any number of tasks queue frames on clones of one handle, each its own frames one after the other, while the
writing task takes them out.  `Traffic.step` lets one of them move; runs are all the orders in which they
can.
-/

namespace Courier

/-- A task that queues frames one after the other. -/
structure Sender where
  /-- The frames it was given. -/
  frames : List Bytes
  /-- How many of them it has queued. -/
  queued : Nat := 0
  /-- How it came out; none while it is under way. -/
  result : Option (Except Error Unit) := none

/-- A writing end with everything that holds a handle on it. -/
structure Traffic where
  outbox : Outbox
  senders : List Sender := []
  /-- Whether the token has fired. -/
  fired : Bool := false
  /-- Whether the first handle is still held. -/
  kept : Bool := true

/-- What happens next. -/
inductive Traffic.Move where
  | writer (m : Outbox.Move)
  /-- Sender `i` goes on. -/
  | sender (i : Nat)
  /-- A new task starts to queue frames on a clone of the first handle. -/
  | send (frames : List Bytes)
  | cancel
  /-- The first handle is dropped. -/
  | release

namespace Sender

/-- Goes on: queues the next frame or comes to an end; none when it has to wait. -/
def step (s : Sender) (queue : Channel Bytes) : Option (Sender × Channel Bytes) :=
  match s.result with
  | some _ => none
  | none =>
    match s.frames.drop s.queued with
    | [] => some ({ s with result := some (.ok ()) }, queue)
    | f :: _ =>
      if queue.closed then some ({ s with result := some (.error .connectionClosed) }, queue)
      else (queue.offer? f).map fun queue => ({ s with queued := s.queued + 1 }, queue)

end Sender

namespace Traffic

/-- Nothing sent yet. -/
def start (capacity : Nat) : Traffic where
  outbox := .start capacity

/-- Whether some handle is left. -/
def isHeld (t : Traffic) : Bool :=
  t.kept || t.senders.any (·.result.isNone)

/-- The traffic after a move; none when the move is not possible. -/
def step (t : Traffic) : Move → Option Traffic
  | .writer m => (t.outbox.step t.fired t.isHeld m).map fun outbox => { t with outbox }
  | .sender i =>
    match t.senders[i]? with
    | none => none
    | some s =>
      (s.step t.outbox.queue).map fun (s, queue) =>
        { t with outbox := { t.outbox with queue }, senders := t.senders.set i s }
  | .send frames =>
    if t.kept then some { t with senders := t.senders ++ [{ frames }] } else none
  | .cancel => some { t with fired := true }
  | .release => if t.kept then some { t with kept := false } else none

/-- What can be reached from a state by moves. -/
inductive Reaches : Traffic → List Move → Traffic → Prop where
  | refl (t : Traffic) : Reaches t [] t
  | step {t u v : Traffic} {m : Move} {ms : List Move} :
      t.step m = some u → Reaches u ms v → Reaches t (m :: ms) v

end Traffic
end Courier
