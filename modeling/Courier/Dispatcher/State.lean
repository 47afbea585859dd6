import Courier.Net.Address

/-!
# State — a listener and its accept loop

A dispatcher owns at most one listener at a time.  Each run that claims it goes through binding, a first
callback, any number of accepted connections and failures, and a last callback; then the dispatcher is idle
again.  What a callback does is up to the handler; the loop waits until it returns.
-/

namespace Courier

/-- Identity of a connection: its place in the order in which peers dialed. -/
abbrev PeerId := Nat

/-- What a dispatcher owns. -/
inductive ListenerState where
  | idle
  | binding
  | listening (a : Address)
deriving DecidableEq, Repr

/-- A call of the handler. -/
inductive Callback where
  /-- The listener is bound. -/
  | started (a : Address)
  | accepted (peer : PeerId)
  | acceptFailed (e : IoError)
  /-- The loop has ended after a request. -/
  | stopped
deriving DecidableEq, Repr

/-- Outcomes are compared as their values or their errors are. -/
instance decidableEqOutcome {ε α : Type} [DecidableEq ε] [DecidableEq α] : DecidableEq (Except ε α)
  | .ok a, .ok b => decidable_of_iff (a = b) ⟨congrArg Except.ok, Except.ok.inj⟩
  | .error e, .error f => decidable_of_iff (e = f) ⟨congrArg Except.error, Except.error.inj⟩
  | .ok _, .error _ => isFalse nofun
  | .error _, .ok _ => isFalse nofun

/-- Where a run of a dispatcher is. -/
inductive Run.Phase where
  | binding
  /-- The listener is bound to an address, the loop has not begun. -/
  | spawned (a : Address)
  /-- A call of the handler is under way. -/
  | calling (c : Callback)
  /-- The loop waits for a connection, or until it is asked to end. -/
  | polling
  /-- The loop has seen that it has not been asked to end, and is about to look for a connection. -/
  | accepting
  /-- The wait is over, the handler has not been called about its outcome. -/
  | accepted (outcome : Except IoError PeerId)
  /-- The loop pauses after a failure. -/
  | pausing (deadline : Nat)
  /-- The last call has returned. -/
  | leaving
  | finished
deriving DecidableEq, Repr

/-- A run that has claimed its dispatcher. -/
structure Run where
  phase : Run.Phase := .binding
  /-- Whether the run has been asked to end. -/
  closed : Bool := false
deriving DecidableEq, Repr

/-- A listener, its accept loop and what they have done. -/
structure Dispatcher where
  state : ListenerState := .idle
  /-- Every run that has claimed the dispatcher, oldest first. -/
  runs : List Run := []
  /-- Every call of the handler with the run that made it, oldest first. -/
  calls : List (Nat × Callback) := []

namespace Dispatcher

/-- The pause after a failure to accept, in nanoseconds. -/
def backoff : Nat := 10000000

/-- Whether a listener is bound. -/
def isListening (d : Dispatcher) : Bool :=
  match d.state with
  | .listening _ => true
  | _ => false

/-- The bound address. -/
def address (d : Dispatcher) : Except Error Address :=
  match d.state with
  | .listening a => .ok a
  | _ => .error .notListening

/-- Whether a run has been asked to end. -/
def isClosed (d : Dispatcher) (k : Nat) : Bool :=
  match d.runs[k]? with
  | some r => r.closed
  | none => false

/-- Whether a run's last call has returned or the run never came to one. -/
def isFinished (d : Dispatcher) (k : Nat) : Bool :=
  match d.runs[k]? with
  | some r => r.phase == .finished
  | none => false

end Dispatcher
end Courier
