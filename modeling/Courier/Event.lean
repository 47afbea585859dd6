import Courier.Message
import Courier.Net.Address

/-!
# Event — what attendants and servers report

An attendant reports its start and its end on one channel, so that the order of the two is kept, and its
messages on two others: one for admitted messages, one for those that came too early.
-/

namespace Courier

/-- Identity of an attendant: its place in the order in which attendants were made. -/
abbrev AttendantId := Nat

/-- How far an attendant has come.  It only moves forward. -/
inductive Status where
  | new
  | running
  | stopped
deriving DecidableEq, Repr

/-- Why an attendant stopped. -/
inductive Ending where
  /-- It was asked to on this side. -/
  | requested
  /-- The peer closed the connection cleanly. -/
  | closedByPeer
  /-- Reading or decoding failed. -/
  | failed (e : Error)

namespace Ending

/-- The error of an ending that is a failure. -/
def error? : Ending → Option Error
  | .failed e => some e
  | _ => none

/-- The ending that an error of the receiver comes to. -/
def ofError (e : Error) : Ending :=
  if e.isGraceful then .closedByPeer else .failed e

end Ending

/-- A report on the life of an attendant. -/
inductive Notice where
  | started (attendant : AttendantId)
  | stopped (attendant : AttendantId) (ending : Ending)

namespace Notice

/-- The attendant that a report is about. -/
def attendant : Notice → AttendantId
  | .started a => a
  | .stopped a _ => a

end Notice

/-- An admitted message. -/
structure Delivery where
  attendant : AttendantId
  message : Message

/-- A message that came too early. -/
structure Deferral where
  attendant : AttendantId
  message : Message
  /-- When it was received. -/
  instant : Nat
  /-- The time since the last admitted message. -/
  lapse : Nat

/-- An event as a consumer sees it. -/
inductive Event where
  | started (address : Address)
  | acceptFailed (e : IoError)
  /-- With the status of the attendant at the time when the event is seen. -/
  | attendantStarted (attendant : AttendantId) (status : Status)
  | message (delivery : Delivery)
  | throttled (deferral : Deferral)
  | attendantStopped (attendant : AttendantId) (ending : Ending)
  | stopped

end Courier
