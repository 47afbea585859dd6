import Courier.Dispatcher.State

/-!
# Step — how a dispatcher moves

`Dispatcher.step` lets a caller or the accept loop of a run make one access to what they share.  How binding
comes out, what accepting yields and when a call of the handler returns is decided outside.

A request to end is minded wherever the loop waits: for a connection or in the pause after a failure.  A loop
that waits for a connection looks at the request first and for a connection then, so a connection may still be
accepted that arrives with a request made in between.
-/

namespace Courier

/-- What happens to a dispatcher next. -/
inductive Dispatcher.Move where
  /-- A caller claims an idle dispatcher for a new run. -/
  | claim
  /-- Binding of run `k` has come out. -/
  | bound (k : Nat) (a : Address)
  /-- Binding of run `k` has failed, or its caller has given it up. -/
  | forgo (k : Nat)
  /-- The loop of run `k` begins. -/
  | begin (k : Nat)
  /-- The loop, which waits for a connection, sees that it has not been asked to end. -/
  | look (k : Nat)
  /-- There is no connection yet: the loop goes back to wait. -/
  | rest (k : Nat)
  | accept (k : Nat) (outcome : Except IoError PeerId)
  /-- The loop calls the handler about what accepting has yielded. -/
  | call (k : Nat)
  /-- The call of the handler returns at an instant. -/
  | finish (k : Nat)
  /-- The pause is over. -/
  | resume (k : Nat)
  /-- The loop notices the request to end. -/
  | quit (k : Nat)
  /-- The listener is dropped. -/
  | leave (k : Nat)
  /-- Somebody asks run `k`, once it is bound, to end. -/
  | close (k : Nat)

namespace Dispatcher

/-- Changes the phase of a run. -/
def setPhase (d : Dispatcher) (k : Nat) (r : Run) (phase : Run.Phase) : Dispatcher :=
  { d with runs := d.runs.set k { r with phase } }

/-- Calls the handler. -/
def call (d : Dispatcher) (k : Nat) (r : Run) (c : Callback) : Dispatcher :=
  { d.setPhase k r (.calling c) with calls := d.calls ++ [(k, c)] }

/-- Claims an idle dispatcher for a new run. -/
def claim (d : Dispatcher) : Except Error Dispatcher :=
  match d.state with
  | .idle => .ok { d with state := .binding, runs := d.runs ++ [{}] }
  | _ => .error .alreadyListening

/-- The call that an outcome of accepting leads to. -/
def callbackOf : Except IoError PeerId → Callback
  | .ok peer => .accepted peer
  | .error e => .acceptFailed e

/-- Where a loop goes on after a call of the handler. -/
def phaseAfter (now : Nat) : Callback → Run.Phase
  | .acceptFailed _ => .pausing (now + backoff)
  | .stopped => .leaving
  | _ => .polling

/-- A move of run `k` at an instant; none when the move is not possible. -/
def stepRun (now : Nat) (d : Dispatcher) (k : Nat) (r : Run) : Move → Option Dispatcher
  | .bound _ a =>
    match r.phase with
    | .binding => some { d.setPhase k r (.spawned a) with state := .listening a }
    | _ => none
  | .forgo _ =>
    match r.phase with
    | .binding => some { d.setPhase k r .finished with state := .idle }
    | _ => none
  | .begin _ =>
    match r.phase with
    | .spawned a => some (d.call k r (.started a))
    | _ => none
  | .look _ =>
    match r.phase with
    | .polling => if r.closed then none else some (d.setPhase k r .accepting)
    | _ => none
  | .rest _ =>
    match r.phase with
    | .accepting => some (d.setPhase k r .polling)
    | _ => none
  | .accept _ outcome =>
    match r.phase with
    -- A request to end that has been made since the look is not seen here.
    | .accepting => some (d.setPhase k r (.accepted outcome))
    | _ => none
  | .call _ =>
    match r.phase with
    | .accepted outcome => some (d.call k r (callbackOf outcome))
    | _ => none
  | .finish _ =>
    match r.phase with
    | .calling c => some (d.setPhase k r (phaseAfter now c))
    | _ => none
  | .resume _ =>
    match r.phase with
    | .pausing deadline =>
      if !r.closed && deadline ≤ now then some (d.setPhase k r .polling) else none
    | _ => none
  | .quit _ =>
    match r.phase with
    -- A callback is never broken off: the request waits until it has returned.
    | .polling | .pausing _ => if r.closed then some (d.call k r .stopped) else none
    | _ => none
  | .leave _ =>
    match r.phase with
    | .leaving => some { d.setPhase k r .finished with state := .idle }
    | _ => none
  | .close _ =>
    match r.phase with
    -- Nobody holds the means to end a run that is not bound yet.
    | .binding => none
    | _ => some { d with runs := d.runs.set k { r with closed := true } }
  | .claim => none

/-- The run that a move is about. -/
def Move.run? : Move → Option Nat
  | .claim => none
  | .bound k _ | .forgo k | .begin k | .look k | .rest k | .accept k _ | .call k | .finish k | .resume k
  | .quit k | .leave k | .close k => some k

/-- The dispatcher after a move at an instant; none when the move is not possible. -/
def step (now : Nat) (d : Dispatcher) (m : Move) : Option Dispatcher :=
  match m.run? with
  | none => d.claim.toOption
  | some k =>
    match d.runs[k]? with
    | none => none
    | some r => stepRun now d k r m

/-- What can be reached from a state by moves, each at its instant. -/
inductive Reaches : Dispatcher → List (Nat × Move) → Dispatcher → Prop where
  | refl (d : Dispatcher) : Reaches d [] d
  | step {d e f : Dispatcher} {now : Nat} {m : Move} {ms : List (Nat × Move)} :
      d.step now m = some e → Reaches e ms f → Reaches d ((now, m) :: ms) f

end Dispatcher
end Courier
