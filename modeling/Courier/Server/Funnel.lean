import Courier.Server.State

/-!
# Funnel — the events of a server, one handler call at a time

A funnel takes the events of a server off its channels and hands them to a handler, which is called again only
after it has returned.  Of the events at hand it takes the one that comes first in the order of `scan`; the
end of the server is the last call.
-/

namespace Courier

/-- A task that drains the channels of a server into a handler. -/
structure Server.Funnel where
  /-- Whether nothing more is taken. -/
  finished : Bool := false
  /-- Whether a call of the handler is under way. -/
  busy : Bool := false
  /-- The calls of the handler, oldest first. -/
  calls : List Event := []

/-- The channels of a server. -/
inductive Outlet where
  | started
  | acceptFailed
  | attendantStarted
  | messages
  | throttled
  | attendantStopped
  | stopped
deriving DecidableEq, Repr

namespace Outlet

/-- The channels in the order in which a funnel looks at them. -/
def all : List Outlet :=
  [.started, .acceptFailed, .attendantStarted, .messages, .throttled, .attendantStopped, .stopped]

end Outlet

namespace Outlets

/-- Takes the oldest event of a channel.  `statusOf` gives the status of an attendant. -/
def take? (o : Outlets) (statusOf : AttendantId → Status) : Outlet → Option (Event × Outlets)
  | .started => o.started.take?.map fun (a, started) => (.started a, { o with started })
  | .acceptFailed =>
    o.acceptFailed.take?.map fun (e, acceptFailed) => (.acceptFailed e, { o with acceptFailed })
  | .attendantStarted =>
    o.attendantStarted.take?.map fun (a, attendantStarted) =>
      (.attendantStarted a (statusOf a), { o with attendantStarted })
  | .messages => o.messages.take?.map fun (d, messages) => (.message d, { o with messages })
  | .throttled => o.throttled.take?.map fun (d, throttled) => (.throttled d, { o with throttled })
  | .attendantStopped =>
    o.attendantStopped.take?.map fun ((a, ending), attendantStopped) =>
      (.attendantStopped a ending, { o with attendantStopped })
  | .stopped => o.stopped.take?.map fun (_, stopped) => (.stopped, { o with stopped })

/-- The channels once the receiving end of one of them has been given up. -/
def close (o : Outlets) : Outlet → Outlets
  | .started => { o with started := o.started.close }
  | .acceptFailed => { o with acceptFailed := o.acceptFailed.close }
  | .attendantStarted => { o with attendantStarted := o.attendantStarted.close }
  | .messages => { o with messages := o.messages.close }
  | .throttled => { o with throttled := o.throttled.close }
  | .attendantStopped => { o with attendantStopped := o.attendantStopped.close }
  | .stopped => { o with stopped := o.stopped.close }

/-- The number of events queued on a channel. -/
def queued (o : Outlets) : Outlet → Nat
  | .started => o.started.queue.length
  | .acceptFailed => o.acceptFailed.queue.length
  | .attendantStarted => o.attendantStarted.queue.length
  | .messages => o.messages.queue.length
  | .throttled => o.throttled.queue.length
  | .attendantStopped => o.attendantStopped.queue.length
  | .stopped => o.stopped.queue.length

/-- Takes up to so many events off a channel. -/
def drain (statusOf : AttendantId → Status) (outlet : Outlet) : Nat → Outlets → List Event × Outlets
  | 0, o => ([], o)
  | n + 1, o =>
    match o.take? statusOf outlet with
    | none => ([], o)
    | some (e, o) =>
      let (events, o) := drain statusOf outlet n o
      (e :: events, o)

/-- Takes up to `limit` events off each of the given channels, one channel after the other; all that are
queued without a limit. -/
def drainAll (statusOf : AttendantId → Status) (limit : Option Nat) :
    List Outlet → Outlets → List Event × Outlets
  | [], o => ([], o)
  | outlet :: outlets, o =>
    let (events, o) := drain statusOf outlet (limit.getD (o.queued outlet)) o
    let (more, o) := drainAll statusOf limit outlets o
    (events ++ more, o)

end Outlets

namespace Server.Funnel

/-- Whether the funnel has finished. -/
def isDone (f : Funnel) : Bool :=
  f.finished && !f.busy

/-- Looks through the channels once and hands the first event over; none when there is nothing to do.
`statusOf` gives the status of an attendant, `ended` says that nothing can report on the channels any
more. -/
def scan (f : Funnel) (statusOf : AttendantId → Status) (ended : Bool) (o : Outlets) :
    Option (Funnel × Outlets) :=
  if f.busy || f.finished then none
  else
    match Outlet.all.findSome? (o.take? statusOf) with
    -- Whatever is queued behind the end of the server stays where it is.
    | some (.stopped, o) =>
      some ({ f with finished := true, busy := true, calls := f.calls ++ [.stopped] }, o)
    | some (e, o) => some ({ f with busy := true, calls := f.calls ++ [e] }, o)
    | none => if ended then some ({ f with finished := true }, o) else none

/-- The call of the handler returns; none when there is none. -/
def handled (f : Funnel) : Option Funnel :=
  if f.busy then some { f with busy := false } else none

end Server.Funnel
end Courier
