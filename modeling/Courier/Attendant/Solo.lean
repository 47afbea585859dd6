import Courier.Attendant.Funnel
import Courier.Attendant.Step

/-!
# Solo — an attendant with its consumer

The attendant reports on channels of its own.  Their receiving ends are with a consumer that takes what it
wants, or with a funnel.
-/

namespace Courier

/-- An attendant with its channels, their consumer and a clock. -/
structure Solo (μ : Type) [Marshaler μ] where
  attendant : Attendant μ
  ports : Ports
  /-- The time in nanoseconds. -/
  now : Nat := 0
  /-- The funnel that holds the receiving ends. -/
  funnel : Option Attendant.Funnel := none

/-- What happens next. -/
inductive Solo.Move where
  | attendant (m : Attendant.Move)
  | tick (nanos : Nat)
  | takeNotice
  | takeMessage
  | takeThrottled
  /-- The consumer drops the receiving ends. -/
  | drop
  /-- The consumer hands the receiving ends to a funnel. -/
  | pour
  | scan
  | handled

namespace Solo

variable {μ : Type} [Marshaler μ]

/-- The identity of the attendant. -/
def id : AttendantId := 0

/-- A fresh attendant with fresh channels. -/
def create (codec : μ) (c : Config) : Solo μ where
  attendant := .create codec c.throttle c.normalized.writer
  ports := .ofCapacities c.lifecycle c.messages

/-- Whether nothing can report on the channels any more. -/
def isEnded (s : Solo μ) : Bool :=
  !s.attendant.holdsPorts

/-- The attendant and its consumer after a move; none when the move is not possible. -/
def step (s : Solo μ) : Move → Option (Solo μ)
  | .attendant m =>
    (s.attendant.step id s.now s.ports m).map fun (attendant, ports) => { s with attendant, ports }
  | .tick nanos => some { s with now := s.now + nanos }
  | .takeNotice =>
    if s.funnel.isSome then none
    else s.ports.lifecycle.take?.map fun (_, lifecycle) => { s with ports := { s.ports with lifecycle } }
  | .takeMessage =>
    if s.funnel.isSome then none
    else s.ports.messages.take?.map fun (_, messages) => { s with ports := { s.ports with messages } }
  | .takeThrottled =>
    if s.funnel.isSome then none
    else s.ports.throttled.take?.map fun (_, throttled) => { s with ports := { s.ports with throttled } }
  | .drop => if s.funnel.isSome then none else some { s with ports := s.ports.close }
  | .pour => if s.funnel.isSome then none else some { s with funnel := some {} }
  | .scan =>
    match s.funnel with
    | none => none
    | some f =>
      (f.scan s.attendant.status s.isEnded s.ports).map fun (f, ports) =>
        { s with funnel := some f, ports }
  | .handled =>
    match s.funnel with
    | none => none
    | some f => f.handled.map fun f => { s with funnel := some f }

/-- What can be reached from a state by moves. -/
inductive Reaches : Solo μ → List Move → Solo μ → Prop where
  | refl (s : Solo μ) : Reaches s [] s
  | step {s t u : Solo μ} {m : Move} {ms : List Move} :
      s.step m = some t → Reaches t ms u → Reaches s (m :: ms) u

end Solo
end Courier
