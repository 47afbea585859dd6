import Courier.Server.Funnel
import Courier.Server.Step

/-!
# House — a server with its consumer

The receiving ends of the channels of a server are with a consumer that takes what it wants and closes any of
them when it likes, or with a funnel, which hands them back when it has finished.
-/

namespace Courier

/-- A server with the consumer of its events. -/
structure House (μ : Type) [Marshaler μ] where
  server : Server μ
  /-- The last funnel that has been given the receiving ends. -/
  funnel : Option Server.Funnel := none

/-- What happens next. -/
inductive House.Move where
  | server (m : Server.Move)
  /-- The consumer takes an event. -/
  | take (outlet : Outlet)
  /-- The consumer closes or drops a receiving end. -/
  | close (outlet : Outlet)
  /-- The consumer hands the receiving ends to a funnel. -/
  | pour
  | scan
  | handled

namespace House

variable {μ : Type} [Marshaler μ]

/-- Whether the receiving ends are with the consumer. -/
def holdsEvents (h : House μ) : Bool :=
  match h.funnel with
  | none => true
  | some f => f.isDone

/-- Changes the channels of the server. -/
def setOutlets (h : House μ) (outlets : Outlets) : House μ :=
  { h with server := { h.server with outlets } }

/-- The server and its consumer after a move; none when the move is not possible. -/
def step (h : House μ) : Move → Option (House μ)
  | .server m => (h.server.step m).map fun server => { h with server }
  | .take outlet =>
    if h.holdsEvents then
      (h.server.outlets.take? h.server.statusOf outlet).map fun (_, outlets) => h.setOutlets outlets
    else none
  | .close outlet => if h.holdsEvents then some (h.setOutlets (h.server.outlets.close outlet)) else none
  | .pour => if h.holdsEvents then some { h with funnel := some {} } else none
  | .scan =>
    match h.funnel with
    | none => none
    | some f =>
      (f.scan h.server.statusOf h.server.isEnded h.server.outlets).map fun (f, outlets) =>
        { h.setOutlets outlets with funnel := some f }
  | .handled =>
    match h.funnel with
    | none => none
    | some f => f.handled.map fun f => { h with funnel := some f }

/-- What can be reached from a state by moves. -/
inductive Reaches : House μ → List Move → House μ → Prop where
  | refl (h : House μ) : Reaches h [] h
  | step {h i j : House μ} {m : Move} {ms : List Move} :
      h.step m = some i → Reaches i ms j → Reaches h (m :: ms) j

end House
end Courier
