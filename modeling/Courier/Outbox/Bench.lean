import Courier.Outbox.Traffic

/-!
# Bench — a writing task over a scripted sink

The moves of a `Traffic` in one fixed order.  Tasks take turns: the one that has been ready longest runs
until it has to wait or has used up its turn.  A task that has used up its turn is set aside; it is ready again
when no other task is, or at the end of a round of turns.  Of the tasks set aside the last one comes first.

Room in the queue goes to the senders in the order in which they began to wait, so a sender that comes later
never overtakes them.  The sink does what a script says, and takes everything after the script's end.
-/

namespace Courier

/-- What a scripted sink does with the next write. -/
inductive Response where
  /-- It takes at most `n` bytes. -/
  | takes (n : Nat)
  /-- It is not ready. -/
  | blocks
  | fails (e : IoError)

/-- A task of a bench. -/
inductive Bench.Task where
  | writer
  | sender (i : Nat)
deriving DecidableEq

/-- A writing task over a scripted sink, with its senders. -/
structure Bench where
  traffic : Traffic
  script : List Response
  /-- How the next flush fails. -/
  flushFailure : Option IoError := none
  /-- The tasks that can run, the one that has been ready longest first. -/
  ready : List Bench.Task := [.writer]
  /-- The senders that wait for room, in the order in which they began to wait. -/
  line : List Nat := []
  /-- How much of its turn the task that runs has used up. -/
  used : Nat := 0
  /-- The tasks that have been set aside, the last one first. -/
  aside : List Bench.Task := []
  /-- How many turns of the round have been taken. -/
  turns : Nat := 0

namespace Bench

/-- A turn covers so many frames that are queued, or so many that are waited for and taken. -/
def turnLength : Nat := 128

/-- A round has so many turns. -/
def roundLength : Nat := 61

/-- A bench on which nothing has run. -/
def start (capacity : Nat) (script : List Response) (flushFailure : Option IoError) : Bench where
  traffic := .start capacity
  script
  flushFailure

/-- Makes a task ready, unless it has been set aside. -/
def wake (b : Bench) (t : Task) : Bench :=
  if t ∈ b.ready ++ b.aside then b else { b with ready := b.ready ++ [t] }

/-- A round ends: the tasks set aside are ready again. -/
def endRound (b : Bench) : Bench :=
  { b with ready := b.ready ++ b.aside, aside := [], turns := 0 }

/-- The task that runs has to wait or is done, which ends its turn. -/
def rest (b : Bench) : Bench :=
  let b := { b with ready := b.ready.drop 1, used := 0, turns := b.turns + 1 }
  if b.turns < roundLength then b else b.endRound

/-- The task that runs has used up its turn and is set aside. -/
def setAside (b : Bench) : Bench :=
  rest { b with aside := b.ready.take 1 ++ b.aside }

/-- Whether the task that runs has used up its turn. -/
def isSpent (b : Bench) : Bool :=
  turnLength ≤ b.used

/-- The task that runs uses up a part of its turn. -/
def spend (b : Bench) : Bench :=
  { b with used := b.used + 1 }

/-- How many senders in line have room. -/
def granted (b : Bench) : Nat :=
  let queue := b.traffic.outbox.queue
  queue.taken + queue.capacity - queue.sent.length

/-- Wakes the sender in line that the last frame taken out has made room for. -/
def grant (b : Bench) : Bench :=
  match b.line[b.granted - 1]? with
  | some i => b.wake (.sender i)
  | none => b

/-- Whether a sender may queue a frame now. -/
def mayQueue (b : Bench) (i : Nat) : Bool :=
  match b.line.idxOf? i with
  | some position => position < b.granted
  | none => b.line.length < b.granted

/-- Wakes every sender in line. -/
def dismiss (b : Bench) : Bench :=
  b.line.foldl (fun b i => b.wake (.sender i)) { b with line := [] }

/-- Lets one of the tasks make a move; the bench as it is when the move is not possible. -/
def apply (b : Bench) (m : Traffic.Move) : Bench :=
  match b.traffic.step m with
  | some traffic => { b with traffic }
  | none => b

/-- What the sink does with so many bytes, as the script has it; none when it is not ready. -/
def respond (b : Bench) (bytes : Nat) : Option Outcome :=
  match b.script with
  | [] => some (.took bytes)
  | .takes n :: _ => some (.took (min n bytes))
  | .blocks :: _ => none
  | .fails e :: _ => some (.failed e)

/-- The next move of the writing task; none when the task has to wait. -/
def nextWrite (b : Bench) : Option Outbox.Move :=
  b.traffic.outbox.next b.traffic.fired b.traffic.isHeld b.respond b.flushFailure

/-- Lets the writing task make a move. -/
def moveWriter (b : Bench) (m : Outbox.Move) : Bench :=
  let b := b.apply (.writer m)
  match m with
  | .take => b.spend.grant
  | .gather => b.grant
  | .write _ => if b.traffic.outbox.isEnded then dismiss { b with script := b.script.drop 1 }
    else { b with script := b.script.drop 1 }
  | .flush _ => if b.traffic.outbox.isEnded then b.dismiss else { b with flushFailure := none }
  | .abandon | .shutdown => b.dismiss
  | .seal | .leave => b

/-- Whether the writing task can only make a move while its turn lasts: collecting frames that are queued
already and shutting down go through in any case. -/
def needsTurn : Outbox.Move → Bool
  | .gather | .seal | .shutdown => false
  | .take | .write _ | .flush _ | .leave | .abandon => true

/-- Lets the writing task go on. -/
def runWriter (b : Bench) : Bench :=
  match b.nextWrite with
  | none => b.rest
  | some m => if b.isSpent && needsTurn m then b.setAside else b.moveWriter m

/-- Lets a sender go on; it joins the line when there is no room. -/
def runSender (b : Bench) (i : Nat) : Bench :=
  match b.traffic.senders[i]? with
  | none => b.rest
  | some s =>
    if s.result.isSome then b.rest
    else if s.frames.length ≤ s.queued then ((b.apply (.sender i)).wake .writer).rest
    else if b.isSpent then b.setAside
    else if b.traffic.outbox.queue.closed then ((b.apply (.sender i)).wake .writer).rest
    else if b.mayQueue i then
      (apply { b with line := b.line.erase i } (.sender i)).spend.wake .writer
    else if i ∈ b.line then b.rest
    else rest { b with line := b.line ++ [i] }

/-- Lets the task that has been ready longest go on; none when everything is quiet. -/
def step (b : Bench) : Option Bench :=
  match b.ready with
  | [] => if b.aside.isEmpty then none else some b.endRound
  | .writer :: _ => some b.runWriter
  | .sender i :: _ => some (b.runSender i)

/-- Lets everything run, for at most `fuel` steps. -/
def run : Nat → Bench → Bench
  | 0, b => b
  | fuel + 1, b =>
    match b.step with
    | some b => run fuel b
    | none => b

/-- More steps than a bench can make until it is quiet: every frame is queued and taken once, every response
is used once, and a task that runs makes one of these steps or ends its turn. -/
def workload (b : Bench) : Nat :=
  let frames := (b.traffic.senders.map fun s => s.frames.length + 2).sum
  16 * (frames + b.script.length + b.ready.length + 4)

/-- Lets everything run until it is quiet, in rounds of their own. -/
def settle (b : Bench) : Bench :=
  run b.workload { b with turns := 0 }

/-! ## Commands -/

/-- What can be asked of a bench. -/
inductive Command where
  /-- A new task sends frames; nothing when the first handle is gone. -/
  | send (frames : List Bytes)
  | cancel
  | release
  /-- The sink becomes ready. -/
  | unblock

/-- Carries a command out, without letting anything run. -/
def perform (b : Bench) : Command → Bench
  | .send frames =>
    if b.traffic.kept then (b.apply (.send frames)).wake (.sender b.traffic.senders.length) else b
  | .cancel => (b.apply .cancel).wake .writer
  | .release => (b.apply .release).wake .writer
  | .unblock =>
    match b.script with
    | .blocks :: script => wake { b with script } .writer
    | _ => b

end Bench
end Courier
