import Courier.Attendant.State

/-!
# Funnel — the events of one attendant, one handler call at a time

A funnel takes the events of an attendant off its channels and hands them to a handler, which is called again
only after it has returned.  Reports on the life of the attendant come first; when the end is reported, the
messages still queued are handed over before it.
-/

namespace Courier

/-- Where a funnel of an attendant is. -/
inductive Attendant.Funnel.Phase where
  | scanning
  /-- The end has been reported; queued messages go first. -/
  | clearing (attendant : AttendantId) (ending : Ending)
  /-- Then the messages that came too early. -/
  | clearingThrottled (attendant : AttendantId) (ending : Ending)
  | finished

/-- A task that drains the channels of an attendant into a handler. -/
structure Attendant.Funnel where
  phase : Attendant.Funnel.Phase := .scanning
  /-- Whether a call of the handler is under way. -/
  busy : Bool := false
  /-- The calls of the handler, oldest first. -/
  calls : List Event := []

namespace Attendant.Funnel

/-- Calls the handler. -/
def call (f : Funnel) (e : Event) : Funnel :=
  { f with busy := true, calls := f.calls ++ [e] }

/-- Whether the funnel has finished. -/
def isDone (f : Funnel) : Bool :=
  match f.phase with
  | .finished => !f.busy
  | _ => false

/-- Looks through the channels once and hands the first event over; none when there is nothing to do.
`status` is the status of the attendant, `ended` says that nothing can report on the channels any more. -/
def scan (f : Funnel) (status : Status) (ended : Bool) (p : Ports) : Option (Funnel × Ports) :=
  if f.busy then none
  else
    match f.phase with
    | .scanning =>
      match p.lifecycle.take? with
      | some (.started a, lifecycle) =>
        some (f.call (.attendantStarted a status), { p with lifecycle })
      | some (.stopped a ending, lifecycle) =>
        some ({ f with phase := .clearing a ending }, { p with lifecycle })
      | none =>
        match p.messages.take? with
        | some (d, messages) => some (f.call (.message d), { p with messages })
        | none =>
          match p.throttled.take? with
          | some (d, throttled) => some (f.call (.throttled d), { p with throttled })
          | none => if ended then some ({ f with phase := .finished }, p) else none
    -- Nothing can follow the end on these channels, so once empty they stay empty.
    | .clearing a ending =>
      match p.messages.take? with
      | some (d, messages) => some (f.call (.message d), { p with messages })
      | none => some ({ f with phase := .clearingThrottled a ending }, p)
    | .clearingThrottled a ending =>
      match p.throttled.take? with
      | some (d, throttled) => some (f.call (.throttled d), { p with throttled })
      | none => some ({ f with phase := .finished }.call (.attendantStopped a ending), p)
    | .finished => none

/-- The call of the handler returns; none when there is none. -/
def handled (f : Funnel) : Option Funnel :=
  if f.busy then some { f with busy := false } else none

end Attendant.Funnel
end Courier
