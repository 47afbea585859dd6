import Courier.Proofs.Dispatcher
import Courier.Proofs.Revision
import Courier.Session.Dispatch

/-!
# Lifecycle — what becomes of the runs of a dispatcher

A dispatcher is shared by everybody who runs it, by the guard that gives a failed run up and by the loop of the run
that came out well.  Whoever has claimed it is the youngest run; it is the only one that binds or loops until it has put
the dispatcher back.

- `Dispatcher.Stride` — what a move does to the run that it is about,
- `Dispatcher.Told` — how far the handler has been told of a run,
- `Dispatcher.Regular`, `Dispatcher.regular_of_reaches` — who owns the dispatcher and what has been called, always,
- `Dispatcher.record_of_closed` — what is left to a run that has been asked to end,
- `Dispatcher.lifecycle_of_reaches` — the life of every run,
- `Dispatcher.accepted_of_late_request` — a connection that is handed over after its run has been asked to end.
-/

namespace Courier

/-- Whether a run binds or loops still. -/
def Run.isAlive (r : Run) : Bool :=
  r.phase != .finished

/-- What accepting has yielded a run that the handler has still to be called about. -/
def Run.due (r : Run) : List (Except IoError PeerId) :=
  match r.phase with
  | .accepted outcome => [outcome]
  | _ => []

/-- What a dispatcher owns while a run is alive that has been bound to an address, or not yet. -/
def ListenerState.ofBound : Option Address → ListenerState
  | none => .binding
  | some a => .listening a

namespace Dispatcher

/-! ## What has been decided outside -/

/-- The address that run `k` is bound to by a move. -/
def Move.address? (k : Nat) : Move → Option Address
  | .bound j a => if j = k then some a else none
  | _ => none

/-- What accepting yields run `k` by a move. -/
def Move.outcome? (k : Nat) : Move → Option (Except IoError PeerId)
  | .accept j outcome => if j = k then some outcome else none
  | _ => none

/-- The run whose loop makes a move. -/
def Move.loop? : Move → Option Nat
  | .begin k | .look k | .rest k | .accept k _ | .call k | .finish k | .resume k | .quit k | .leave k => some k
  | .claim | .bound _ _ | .forgo _ | .close _ => none

/-- What a dispatcher owns after a move. -/
def Move.stateAfter (st : ListenerState) : Move → ListenerState
  | .claim => .binding
  | .bound _ a => .listening a
  | .forgo _ | .leave _ => .idle
  | _ => st

/-- The address that run `k` has been bound to. -/
def boundAt? (k : Nat) (ms : List (Nat × Move)) : Option Address :=
  ms.findSome? (·.2.address? k)

/-- What accepting has yielded run `k`, oldest first. -/
def outcomesOf (k : Nat) (ms : List (Nat × Move)) : List (Except IoError PeerId) :=
  ms.filterMap (·.2.outcome? k)

/-- The moves that the loop of run `k` has made. -/
def loopMoves (k : Nat) (ms : List (Nat × Move)) : List (Nat × Move) :=
  ms.filter (·.2.loop? == some k)

/-- The calls that run `k` has made, oldest first. -/
def callsOf (d : Dispatcher) (k : Nat) : List Callback :=
  d.calls.filterMap fun c => if c.1 = k then some c.2 else none

/-- What accepting has yielded run `k` that the handler has still to be called about. -/
def dueOf (d : Dispatcher) (k : Nat) : List (Except IoError PeerId) :=
  match d.runs[k]? with
  | some r => r.due
  | none => []

/-- Whether the loop of run `k` is about to look for a connection. -/
def isAccepting (d : Dispatcher) (k : Nat) : Bool :=
  match d.runs[k]? with
  | some r => r.phase == .accepting
  | none => false

variable {now n : Nat} {d e f c : Dispatcher} {m : Move} {k j : Nat} {r r' q : Run} {new : List Callback}
  {ms ns : List (Nat × Move)} {a : Address} {b : Option Address} {os : List (Except IoError PeerId)}
  {cs : List Callback}

theorem address?_of_ne (hm : m.run? = some k) (hj : j ≠ k) : m.address? j = none := by
  cases m <;> simp_all [Move.run?, Move.address?, eq_comm]

theorem outcome?_of_ne (hm : m.run? = some k) (hj : j ≠ k) : m.outcome? j = none := by
  cases m <;> simp_all [Move.run?, Move.outcome?, eq_comm]

theorem boundAt?_concat : boundAt? k (ms ++ [(now, m)]) = (boundAt? k ms).or (m.address? k) := by
  simp [boundAt?, List.findSome?_append]

theorem outcomesOf_append : outcomesOf k (ms ++ ns) = outcomesOf k ms ++ outcomesOf k ns :=
  List.filterMap_append

theorem outcomesOf_concat : outcomesOf k (ms ++ [(now, m)]) = outcomesOf k ms ++ (m.outcome? k).toList := by
  rw [outcomesOf_append]
  cases hm : m.outcome? k <;> simp [outcomesOf, hm]

/-! ## One move of one run -/

/-- What a move does to the run that it is about, and the calls that the run makes. -/
inductive Stride (now : Nat) : Move → Run → Run → List Callback → Prop where
  | bound {k : Nat} {a : Address} {r : Run} (hp : r.phase = .binding) :
      Stride now (.bound k a) r { r with phase := .spawned a } []
  | forgo {k : Nat} {r : Run} (hp : r.phase = .binding) :
      Stride now (.forgo k) r { r with phase := .finished } []
  | begin {k : Nat} {a : Address} {r : Run} (hp : r.phase = .spawned a) :
      Stride now (.begin k) r { r with phase := .calling (.started a) } [.started a]
  | look {k : Nat} {r : Run} (hp : r.phase = .polling) (hc : r.closed = false) :
      Stride now (.look k) r { r with phase := .accepting } []
  | rest {k : Nat} {r : Run} (hp : r.phase = .accepting) :
      Stride now (.rest k) r { r with phase := .polling } []
  | accept {k : Nat} {r : Run} (outcome : Except IoError PeerId) (hp : r.phase = .accepting) :
      Stride now (.accept k outcome) r { r with phase := .accepted outcome } []
  | call {k : Nat} {r : Run} (outcome : Except IoError PeerId) (hp : r.phase = .accepted outcome) :
      Stride now (.call k) r { r with phase := .calling (callbackOf outcome) } [callbackOf outcome]
  | finish {k : Nat} {r : Run} (c : Callback) (hp : r.phase = .calling c) :
      Stride now (.finish k) r { r with phase := phaseAfter now c } []
  | resume {k : Nat} {r : Run} (deadline : Nat) (hp : r.phase = .pausing deadline) (hc : r.closed = false) :
      Stride now (.resume k) r { r with phase := .polling } []
  | quit {k : Nat} {r : Run} (hp : r.phase = .polling ∨ ∃ deadline, r.phase = .pausing deadline)
      (hc : r.closed = true) :
      Stride now (.quit k) r { r with phase := .calling .stopped } [.stopped]
  | leave {k : Nat} {r : Run} (hp : r.phase = .leaving) :
      Stride now (.leave k) r { r with phase := .finished } []
  | close {k : Nat} {r : Run} (hp : r.phase ≠ .binding) :
      Stride now (.close k) r { r with closed := true } []

/-- Run `k` goes on from `r` to `r'` and makes calls; no other run changes. -/
structure Advance (d : Dispatcher) (k : Nat) (r r' : Run) (new : List Callback) (e : Dispatcher) : Prop where
  found : d.runs[k]? = some r
  runs : e.runs = d.runs.set k r'
  calls : e.calls = d.calls ++ new.map (k, ·)

/-- A move is a claim, or a stride of one run. -/
theorem stride_of_turn (h : Turn now d m e) :
    (m = .claim ∧ d.state = .idle ∧ e = { d with state := .binding, runs := d.runs ++ [{}] }) ∨
    ∃ k r r' new, m.run? = some k ∧ Advance d k r r' new e ∧ Stride now m r r' new ∧
      e.state = m.stateAfter d.state := by
  cases h with
  | claim hd => exact .inl ⟨rfl, hd, rfl⟩
  | bound k r a hr hp => exact .inr ⟨k, r, _, _, rfl, ⟨hr, rfl, by simp [setPhase]⟩, .bound hp, rfl⟩
  | forgo k r hr hp => exact .inr ⟨k, r, _, _, rfl, ⟨hr, rfl, by simp [setPhase]⟩, .forgo hp, rfl⟩
  | begin k r a hr hp => exact .inr ⟨k, r, _, _, rfl, ⟨hr, rfl, rfl⟩, .begin hp, rfl⟩
  | look k r hr hp hc => exact .inr ⟨k, r, _, _, rfl, ⟨hr, rfl, by simp [setPhase]⟩, .look hp hc, rfl⟩
  | rest k r hr hp => exact .inr ⟨k, r, _, _, rfl, ⟨hr, rfl, by simp [setPhase]⟩, .rest hp, rfl⟩
  | accept k r outcome hr hp =>
      exact .inr ⟨k, r, _, _, rfl, ⟨hr, rfl, by simp [setPhase]⟩, .accept outcome hp, rfl⟩
  | call k r outcome hr hp => exact .inr ⟨k, r, _, _, rfl, ⟨hr, rfl, rfl⟩, .call outcome hp, rfl⟩
  | finish k r c hr hp => exact .inr ⟨k, r, _, _, rfl, ⟨hr, rfl, by simp [setPhase]⟩, .finish c hp, rfl⟩
  | resume k r deadline hr hp hc _ =>
      exact .inr ⟨k, r, _, _, rfl, ⟨hr, rfl, by simp [setPhase]⟩, .resume deadline hp hc, rfl⟩
  | quit k r hr hp hc => exact .inr ⟨k, r, _, _, rfl, ⟨hr, rfl, rfl⟩, .quit hp hc, rfl⟩
  | leave k r hr hp => exact .inr ⟨k, r, _, _, rfl, ⟨hr, rfl, by simp [setPhase]⟩, .leave hp, rfl⟩
  | close k r hr hp => exact .inr ⟨k, r, _, _, rfl, ⟨hr, rfl, by simp⟩, .close hp, rfl⟩

theorem Advance.length (h : Advance d k r r' new e) : e.runs.length = d.runs.length := by
  simp [h.runs]

theorem Advance.lt (h : Advance d k r r' new e) : k < d.runs.length :=
  (List.getElem?_eq_some_iff.1 h.found).1

theorem Advance.run_self (h : Advance d k r r' new e) : e.runs[k]? = some r' := by
  simp [h.runs, h.lt]

theorem Advance.run_of_ne (h : Advance d k r r' new e) (hj : j ≠ k) : e.runs[j]? = d.runs[j]? := by
  simp [h.runs, List.getElem?_set_ne (Ne.symm hj)]

theorem Advance.callsOf_self (h : Advance d k r r' new e) : e.callsOf k = d.callsOf k ++ new := by
  have hown : (fun c : Nat × Callback => if c.1 = k then some c.2 else none) ∘ (k, ·) = some :=
    funext fun _ => if_pos rfl
  rw [callsOf, h.calls, List.filterMap_append, List.filterMap_map, hown, List.filterMap_some, callsOf]

theorem Advance.callsOf_of_ne (h : Advance d k r r' new e) (hj : j ≠ k) : e.callsOf j = d.callsOf j := by
  simp [callsOf, h.calls, List.filterMap_append, List.filterMap_map, Ne.symm hj]

/-- A run that is over is only asked to end, which changes nothing else. -/
theorem Stride.close_of_over (h : Stride now m r r' new) (hr : r.isAlive = false) :
    ∃ k, m = .close k ∧ r' = { r with closed := true } ∧ new = [] := by
  have hover : r.phase = .finished := by simpa [Run.isAlive] using hr
  cases h with
  | close _ => exact ⟨_, rfl, rfl, rfl⟩
  | quit hp _ => simp [hover] at hp
  | _ => simp_all

/-- No run comes back to life. -/
theorem Stride.alive (h : Stride now m r r' new) (hr : r'.isAlive = true) : r.isAlive = true := by
  refine Bool.of_not_eq_false fun hover => ?_
  obtain ⟨-, -, rfl, -⟩ := h.close_of_over hover
  simp [Run.isAlive] at hover hr
  exact hr hover

/-- No stride leads back to binding. -/
theorem Stride.ne_binding (h : Stride now m r r' new) : r'.phase ≠ .binding := by
  cases h with
  | finish c _ => cases c <;> simp [phaseAfter]
  | close hp => exact hp
  | _ => simp

/-! ## What the handler has been told -/

/-- How far the handler has been told of a run that has been bound to `b`, if to anything, and been yielded `os` by
accepting. -/
inductive Told : Run → Option Address → List (Except IoError PeerId) → List Callback → Prop where
  | binding {r : Run} (hp : r.phase = .binding) : Told r none [] []
  | forgone {r : Run} (hp : r.phase = .finished) : Told r none [] []
  | spawned {r : Run} {a : Address} (hp : r.phase = .spawned a) : Told r (some a) [] []
  | starting {r : Run} {a : Address} (hp : r.phase = .calling (.started a)) : Told r (some a) [] [.started a]
  | due {r : Run} {a : Address} {os : List (Except IoError PeerId)} (o : Except IoError PeerId)
      (hp : r.phase = .accepted o) : Told r (some a) (os ++ [o]) (.started a :: os.map callbackOf)
  | reporting {r : Run} {a : Address} {os : List (Except IoError PeerId)} (o : Except IoError PeerId)
      (hp : r.phase = .calling (callbackOf o)) :
      Told r (some a) (os ++ [o]) (.started a :: (os ++ [o]).map callbackOf)
  | waiting {r : Run} {a : Address} {os : List (Except IoError PeerId)}
      (hp : r.phase = .polling ∨ r.phase = .accepting ∨ ∃ deadline, r.phase = .pausing deadline) :
      Told r (some a) os (.started a :: os.map callbackOf)
  | ending {r : Run} {a : Address} {os : List (Except IoError PeerId)}
      (hp : r.phase = .calling .stopped ∨ r.phase = .leaving ∨ r.phase = .finished) (hc : r.closed = true) :
      Told r (some a) os (.started a :: os.map callbackOf ++ [.stopped])

theorem callbackOf_ne_stopped (o : Except IoError PeerId) : callbackOf o ≠ .stopped := by
  cases o <;> simp [callbackOf]

/-- After a call about an outcome the loop waits. -/
theorem phaseAfter_callbackOf (o : Except IoError PeerId) :
    phaseAfter now (callbackOf o) = .polling ∨ phaseAfter now (callbackOf o) = .accepting ∨
      ∃ deadline, phaseAfter now (callbackOf o) = .pausing deadline := by
  cases o with
  | ok peer => exact .inl rfl
  | error e => exact .inr (.inr ⟨_, rfl⟩)

/-- Whether a run has been asked to end matters only once it ends. -/
theorem Told.close (h : Told r b os cs) : Told { r with closed := true } b os cs := by
  cases h with
  | binding hp => exact .binding hp
  | forgone hp => exact .forgone hp
  | spawned hp => exact .spawned hp
  | starting hp => exact .starting hp
  | due o hp => exact .due o hp
  | reporting o hp => exact .reporting o hp
  | waiting hp => exact .waiting hp
  | ending hp _ => exact .ending hp rfl

/-- The handler is told of every stride. -/
theorem Told.stride (h : Told r b os cs) (hs : Stride now m r r' new) (hm : m.run? = some k) :
    Told r' (b.or (m.address? k)) (os ++ (m.outcome? k).toList) (cs ++ new) := by
  -- what has been told so far goes with one phase, so that few pairs of a stride and a history are left
  cases hs with
  | @bound k' a' _ hp =>
      obtain rfl : k' = k := Option.some.inj hm
      cases h with
      | binding _ => simpa [Move.address?, Move.outcome?] using Told.spawned (a := a') rfl
      | _ => simp_all
  | forgo hp =>
      cases h with
      | binding _ => exact .forgone rfl
      | _ => simp_all
  | begin hp =>
      cases h with
      | spawned hp' =>
          obtain rfl := Run.Phase.spawned.inj (hp.symm.trans hp')
          exact .starting rfl
      | _ => simp_all
  | look hp hc =>
      simp only [Move.address?, Move.outcome?, Option.or_none, Option.toList_none, List.append_nil]
      cases h with
      | waiting _ => exact .waiting (.inr (.inl rfl))
      | _ => simp_all
  | rest hp =>
      simp only [Move.address?, Move.outcome?, Option.or_none, Option.toList_none, List.append_nil]
      cases h with
      | waiting _ => exact .waiting (.inl rfl)
      | _ => simp_all
  | @accept k' _ outcome hp =>
      obtain rfl : k' = k := Option.some.inj hm
      cases h with
      | @waiting a' _ _ =>
          have htold : Told { r with phase := .accepted outcome } (some a') (os ++ [outcome])
              (.started a' :: os.map callbackOf) := .due outcome rfl
          simpa [Move.outcome?] using htold
      | _ => simp_all
  | call outcome hp =>
      simp only [Move.address?, Move.outcome?, Option.or_none, Option.toList_none, List.append_nil]
      cases h with
      | @due a' os' o hp' =>
          obtain rfl := Run.Phase.accepted.inj (hp.symm.trans hp')
          have htold : Told { r with phase := .calling (callbackOf outcome) } (some a') (os' ++ [outcome])
              (.started a' :: (os' ++ [outcome]).map callbackOf) := .reporting outcome rfl
          simpa using htold
      | _ => simp_all
  | finish c hp =>
      simp only [Move.address?, Move.outcome?, Option.or_none, Option.toList_none, List.append_nil]
      cases h with
      | @starting a' hp' =>
          obtain rfl := Run.Phase.calling.inj (hp.symm.trans hp')
          have htold : Told { r with phase := .polling } (some a') [] (.started a' :: [].map callbackOf) :=
            .waiting (.inl rfl)
          exact htold
      | reporting o hp' =>
          obtain rfl := Run.Phase.calling.inj (hp.symm.trans hp')
          exact .waiting (phaseAfter_callbackOf o)
      | ending hp' hc =>
          obtain rfl : c = .stopped := by simpa [hp] using hp'
          exact .ending (.inr (.inl rfl)) hc
      | _ => simp_all
  | resume deadline hp hc =>
      simp only [Move.address?, Move.outcome?, Option.or_none, Option.toList_none, List.append_nil]
      cases h with
      | waiting _ => exact .waiting (.inl rfl)
      | _ => simp_all
  | quit hp hc =>
      simp only [Move.address?, Move.outcome?, Option.or_none, Option.toList_none, List.append_nil]
      cases h with
      | waiting _ => exact .ending (.inl rfl) hc
      | ending hp' _ => rcases hp with hp | ⟨_, hp⟩ <;> simp [hp] at hp'
      | _ => simp_all
  | leave hp =>
      simp only [Move.address?, Move.outcome?, Option.or_none, Option.toList_none, List.append_nil]
      cases h with
      | ending _ hc => exact .ending (.inr (.inr rfl)) hc
      | _ => simp_all
  | close hp =>
      simp only [Move.address?, Move.outcome?, Option.or_none, Option.toList_none, List.append_nil]
      exact h.close

/-! ## Who owns the dispatcher -/

/-- The calls of a dispatcher, and who owns it, after moves. -/
structure Regular (ms : List (Nat × Move)) (d : Dispatcher) : Prop where
  /-- Only the youngest run is alive, and what the dispatcher owns belongs to it. -/
  owner : ∀ (k : Nat) r, d.runs[k]? = some r → r.isAlive = true →
    k + 1 = d.runs.length ∧ d.state = .ofBound (boundAt? k ms)
  /-- Once no run is alive the dispatcher is idle. -/
  idle : (∀ (k : Nat) r, d.runs[k]? = some r → r.isAlive = false) → d.state = .idle
  told : ∀ (k : Nat) r, d.runs[k]? = some r → Told r (boundAt? k ms) (outcomesOf k ms) (d.callsOf k)
  /-- Nothing has happened to a run that has not claimed the dispatcher. -/
  unborn : ∀ k, d.runs.length ≤ k → boundAt? k ms = none ∧ outcomesOf k ms = [] ∧ ∀ c ∈ d.calls, c.1 ≠ k
  /-- A call that is under way is the last one. -/
  latest : ∀ (k : Nat) r c, d.runs[k]? = some r → r.phase = .calling c → d.calls.getLast? = some (k, c)
  /-- The calls of one run come before those of the next. -/
  sorted : (d.calls.map Prod.fst).Pairwise (· ≤ ·)

theorem regular_start : Regular [] ({} : Dispatcher) where
  owner := by simp
  idle := fun _ => rfl
  told := by simp
  unborn := by simp [boundAt?, outcomesOf]
  latest := by simp
  sorted := .nil

theorem callsOf_eq_nil (h : ∀ c ∈ d.calls, c.1 ≠ k) : d.callsOf k = [] :=
  List.filterMap_eq_nil_iff.2 fun c hc => if_neg (h c hc)

/-- A claim adds a run that binds. -/
theorem Regular.claim (hd : Regular ms d) (hidle : d.state = .idle) :
    Regular (ms ++ [(now, .claim)]) { d with state := .binding, runs := d.runs ++ [{}] } := by
  have hover : ∀ (j : Nat) r, d.runs[j]? = some r → r.isAlive = false := by
    intro j r hr
    refine Bool.of_not_eq_true fun halive => ?_
    have howner := (hd.owner j r hr halive).2
    rw [hidle] at howner
    cases hb : boundAt? j ms <;> simp [hb, ListenerState.ofBound] at howner
  -- a run is an old one, or the one that has just been added
  have hrun : ∀ (j : Nat) r, (d.runs ++ [({} : Run)])[j]? = some r →
      d.runs[j]? = some r ∨ (j = d.runs.length ∧ r = {}) := fun _ _ => of_getElem?_concat
  have hbound : ∀ j, boundAt? j (ms ++ [(now, Move.claim)]) = boundAt? j ms := by
    simp [boundAt?_concat, Move.address?]
  have houtcomes : ∀ j, outcomesOf j (ms ++ [(now, Move.claim)]) = outcomesOf j ms := by
    simp [outcomesOf_concat, Move.outcome?]
  obtain ⟨hnone, hnil, hcalls⟩ := hd.unborn d.runs.length (Nat.le_refl _)
  refine ⟨?_, ?_, ?_, ?_, ?_, hd.sorted⟩
  · intro j r hr halive
    rcases hrun j r hr with hold | ⟨rfl, rfl⟩
    · simp [hover j r hold] at halive
    · simp [hbound, hnone, ListenerState.ofBound]
  · intro h
    have hnew := h d.runs.length {} (by simp)
    simp [Run.isAlive] at hnew
  · intro j r hr
    rw [hbound, houtcomes]
    rcases hrun j r hr with hold | ⟨rfl, rfl⟩
    · exact hd.told j r hold
    · have hnew : Told {} none [] (d.callsOf d.runs.length) := by
        rw [callsOf_eq_nil hcalls]
        exact .binding rfl
      rw [hnone, hnil]
      exact hnew
  · intro j hj
    rw [hbound, houtcomes]
    exact hd.unborn j (by simp at hj; omega)
  · intro j r c hr hp
    rcases hrun j r hr with hold | ⟨rfl, rfl⟩
    · exact hd.latest j r c hold hp
    · simp at hp

/-- Beside a run that is alive the others are over. -/
theorem Regular.over_of_ne (hd : Regular ms d) (hr : d.runs[k]? = some r) (hj : d.runs[j]? = some q) (hne : j ≠ k)
    (halive : q.isAlive = true) : r.isAlive = false := by
  refine Bool.of_not_eq_true fun hr' => hne ?_
  have h₁ := (hd.owner k r hr hr').1
  have h₂ := (hd.owner j q hj halive).1
  omega

/-- A stride leaves the dispatcher with its run, or gives it back. -/
theorem Stride.owner (h : Stride now m r r' new) (hm : m.run? = some k) (hb : Told r b os cs)
    (hstate : d.state = .ofBound b) (halive : r'.isAlive = true) :
    m.stateAfter d.state = .ofBound (b.or (m.address? k)) := by
  cases h with
  | @bound k' a' _ hp =>
      obtain rfl : k' = k := Option.some.inj hm
      cases hb with
      | binding _ => simp [Move.stateAfter, Move.address?, ListenerState.ofBound]
      | _ => simp_all
  | forgo _ | leave _ => simp [Run.isAlive] at halive
  | _ => simpa [Move.stateAfter, Move.address?] using hstate

/-- A stride that ends its run gives the dispatcher back. -/
theorem Stride.idle (h : Stride now m r r' new) (hr : r.isAlive = true) (hr' : r'.isAlive = false) :
    m.stateAfter d.state = .idle := by
  cases h with
  | forgo _ | leave _ => rfl
  | finish c _ => cases c <;> simp [Run.isAlive, phaseAfter] at hr'
  | close _ => simp_all [Run.isAlive]
  | _ => simp [Run.isAlive] at hr'

/-- Where a call is under way after a stride, the stride has begun it or been a request to end. -/
theorem Stride.calling {c : Callback} (h : Stride now m r r' new) (hp : r'.phase = .calling c) :
    new = [c] ∨ (new = [] ∧ r.phase = .calling c) := by
  cases h with
  | begin _ | call _ _ | quit _ _ => exact .inl (by simpa using hp)
  | finish c' _ => cases c' <;> simp [phaseAfter] at hp
  | close _ => exact .inr ⟨rfl, hp⟩
  | _ => simp at hp

/-- Only a run that is alive makes calls, one at a time. -/
theorem Stride.calls (h : Stride now m r r' new) : new = [] ∨ ∃ c, new = [c] ∧ r.isAlive = true := by
  cases h with
  | begin hp => exact .inr ⟨_, rfl, by simp [Run.isAlive, hp]⟩
  | call _ hp => exact .inr ⟨_, rfl, by simp [Run.isAlive, hp]⟩
  | quit hp _ => exact .inr ⟨_, rfl, by rcases hp with hp | ⟨_, hp⟩ <;> simp [Run.isAlive, hp]⟩
  | _ => exact .inl rfl

theorem Regular.advance (hd : Regular ms d) (hm : m.run? = some k) (ha : Advance d k r r' new e)
    (hs : Stride now m r r' new) (hstate : e.state = m.stateAfter d.state) :
    Regular (ms ++ [(now, m)]) e where
  owner := by
    intro j q hj halive
    rw [ha.length, hstate, boundAt?_concat]
    by_cases hjk : j = k
    · subst hjk
      obtain rfl := Option.some.inj (ha.run_self.symm.trans hj)
      obtain ⟨hlast, howned⟩ := hd.owner j r ha.found (hs.alive halive)
      exact ⟨hlast, hs.owner hm (hd.told j r ha.found) howned halive⟩
    · rw [ha.run_of_ne hjk] at hj
      -- run `k` is over, so that its stride is a request to end
      obtain ⟨hlast, howned⟩ := hd.owner j q hj halive
      obtain ⟨l, rfl, -, -⟩ := hs.close_of_over (hd.over_of_ne ha.found hj hjk halive)
      exact ⟨hlast, by simpa [Move.stateAfter, Move.address?] using howned⟩
  idle := by
    intro hover
    have hself := hover k r' ha.run_self
    rw [hstate]
    cases hr : r.isAlive with
    | true => exact hs.idle hr hself
    | false =>
        obtain ⟨l, rfl, -, -⟩ := hs.close_of_over hr
        refine hd.idle fun j q hj => ?_
        by_cases hjk : j = k
        · subst hjk
          obtain rfl := Option.some.inj (ha.found.symm.trans hj)
          exact hr
        · exact hover j q ((ha.run_of_ne hjk).trans hj)
  told := by
    intro j q hj
    rw [boundAt?_concat, outcomesOf_concat]
    by_cases hjk : j = k
    · subst hjk
      obtain rfl := Option.some.inj (ha.run_self.symm.trans hj)
      rw [ha.callsOf_self]
      exact (hd.told j r ha.found).stride hs hm
    · rw [ha.run_of_ne hjk] at hj
      rw [ha.callsOf_of_ne hjk, address?_of_ne hm hjk, outcome?_of_ne hm hjk]
      simpa using hd.told j q hj
  unborn := by
    intro j hj
    rw [ha.length] at hj
    have hjk : j ≠ k := Nat.ne_of_gt (Nat.lt_of_lt_of_le ha.lt hj)
    obtain ⟨hnone, hnil, hcalls⟩ := hd.unborn j hj
    refine ⟨?_, ?_, ?_⟩
    · rw [boundAt?_concat, address?_of_ne hm hjk, hnone]
      rfl
    · rw [outcomesOf_concat, outcome?_of_ne hm hjk, hnil]
      rfl
    · rw [ha.calls]
      simpa [List.mem_append, or_imp, forall_and, hjk.symm] using hcalls
  latest := by
    intro j q c hj hp
    by_cases hjk : j = k
    · subst hjk
      obtain rfl := Option.some.inj (ha.run_self.symm.trans hj)
      rcases hs.calling hp with rfl | ⟨rfl, hp'⟩
      · simp [ha.calls]
      · simpa [ha.calls] using hd.latest j r c ha.found hp'
    · rw [ha.run_of_ne hjk] at hj
      obtain ⟨l, -, -, rfl⟩ :=
        hs.close_of_over (hd.over_of_ne ha.found hj hjk (by simp [Run.isAlive, hp]))
      simpa [ha.calls] using hd.latest j q c hj hp
  sorted := by
    rcases hs.calls with rfl | ⟨c, rfl, halive⟩
    · simpa [ha.calls] using hd.sorted
    · have hlast := (hd.owner k r ha.found halive).1
      rw [ha.calls, List.map_append, List.pairwise_append]
      refine ⟨hd.sorted, by simp, fun x hx y hy => ?_⟩
      obtain rfl : y = k := by simpa using hy
      obtain ⟨c', hc', rfl⟩ := List.mem_map.1 hx
      -- whoever has called has claimed the dispatcher before
      refine Nat.le_of_not_lt fun hlt => ?_
      exact (hd.unborn c'.1 (by omega)).2.2 c' hc' rfl

theorem regular_of_turn (hd : Regular ms d) (h : Turn now d m e) : Regular (ms ++ [(now, m)]) e := by
  rcases stride_of_turn h with ⟨rfl, hidle, rfl⟩ | ⟨k, r, r', new, hm, ha, hs, hstate⟩
  · exact hd.claim hidle
  · exact hd.advance hm ha hs hstate

/-- What every move preserves holds after a run of moves. -/
theorem Reaches.preserves {P : List (Nat × Move) → Dispatcher → Prop}
    (hstep : ∀ {past d e now m}, P past d → Turn now d m e → P (past ++ [(now, m)]) e) {past : List (Nat × Move)}
    (hr : Reaches d ms e) (hd : P past d) : P (past ++ ms) e := by
  induction hr generalizing past with
  | refl _ => simpa using hd
  | @step _ _ _ now m ms h _ ih => simpa using ih (hstep hd (turn_of_step h))

theorem regular_of_reaches (hr : Reaches {} ms d) : Regular ms d := by
  simpa using hr.preserves regular_of_turn regular_start

/-! ## Refusals -/

theorem claim_eq_error {e : Error} : d.claim = .error e ↔ e = .alreadyListening ∧ d.state ≠ .idle := by
  cases hd : d.state <;> simp [Dispatcher.claim, hd, eq_comm]

theorem idle_of_claim (h : d.claim = .ok c) : d.state = .idle := by
  have hclaim : Turn 0 d .claim c := turn_of_claim h
  cases hclaim with
  | claim hd => exact hd

/-- An error that is put into other words is none of those that are worded otherwise. -/
theorem mapError_ne {ε δ α : Type} {f : ε → δ} {e' : δ} (hf : ∀ e, f e ≠ e') (x : Except ε α) :
    x.mapError f ≠ .error e' := by
  intro h
  cases x with
  | error e => exact hf e (Except.error.inj h)
  | ok _ => exact nomatch h

/-- Resolving and binding fail for reasons of their own. -/
theorem listen_ne_alreadyListening (s : DispatchSession) (choice : HostChoice) :
    s.listen choice ≠ .error .alreadyListening := by
  intro h
  cases choice with
  | host text =>
      simp only [DispatchSession.listen, Network.listen] at h
      split at h
      · simp at h
      · exact mapError_ne (by simp) _ h
  | sameAs k =>
      simp only [DispatchSession.listen] at h
      split at h
      · exact mapError_ne (by simp) _ h
      · simp at h

/-- To run a dispatcher is refused where somebody owns it, and there only. -/
theorem run_refused (s : DispatchSession) (i : Nat) (p : Post) (choice : HostChoice) :
    (s.run i p choice).1 = .error .alreadyListening ↔ p.dispatcher.state ≠ .idle := by
  unfold DispatchSession.run
  cases hc : p.dispatcher.claim with
  | error e =>
      obtain ⟨rfl, hstate⟩ := claim_eq_error.1 hc
      simpa using hstate
  | ok c =>
      have hlisten := listen_ne_alreadyListening s choice
      cases hl : s.listen choice with
      | error e => simpa [idle_of_claim hc, hl] using hlisten
      | ok a => simp [idle_of_claim hc]

/-! ## A run that comes to nothing -/

/-- While run `k` binds, nobody is called. -/
theorem calls_of_binding (hd : Regular ms d) (h : Turn now d m e) (hk : e.runs[k]? = some q)
    (hp : q.phase = .binding) (hold : k < d.runs.length) :
    (∃ r, d.runs[k]? = some r ∧ r.phase = .binding) ∧ e.calls = d.calls := by
  rcases stride_of_turn h with ⟨rfl, hidle, rfl⟩ | ⟨j, r, r', new, -, ha, hs, -⟩
  · refine ⟨⟨q, ?_, hp⟩, rfl⟩
    simpa [List.getElem?_append_left hold] using hk
  · by_cases hkj : k = j
    · subst hkj
      obtain rfl := Option.some.inj (ha.run_self.symm.trans hk)
      exact absurd hp hs.ne_binding
    · rw [ha.run_of_ne hkj] at hk
      obtain ⟨-, -, -, rfl⟩ := hs.close_of_over (hd.over_of_ne ha.found hk hkj (by simp [Run.isAlive, hp]))
      exact ⟨⟨q, hk, hp⟩, by simp [ha.calls]⟩

theorem runs_length_le (h : Turn now d m e) : d.runs.length ≤ e.runs.length := by
  rcases stride_of_turn h with ⟨-, -, rfl⟩ | ⟨_, _, _, _, -, ha, -⟩
  · simp
  · exact Nat.le_of_eq ha.length.symm

/-- A run that is given up leaves the dispatcher as it has found it. -/
theorem restored_of_forgo (hd : Regular ms d) (hc : d.claim = .ok c) (hr : Reaches c ns e)
    (hf : e.step now (.forgo d.runs.length) = some f) : f.state = d.state ∧ f.calls = d.calls := by
  have hidle := idle_of_claim hc
  have hclaim : Turn 0 d .claim c := turn_of_claim hc
  have hstart : Regular (ms ++ [(0, .claim)]) c := regular_of_turn hd hclaim
  have hlength : d.runs.length < c.runs.length := by
    cases hclaim
    simp
  have hcalls : c.calls = d.calls := by
    cases hclaim
    rfl
  -- as long as the run binds, no call is added
  have hkept : Regular (ms ++ [(0, .claim)] ++ ns) e ∧ d.runs.length < e.runs.length ∧
      ∀ q, e.runs[d.runs.length]? = some q → q.phase = .binding → e.calls = d.calls := by
    refine hr.preserves (P := fun past e => Regular past e ∧ d.runs.length < e.runs.length ∧
      ∀ q, e.runs[d.runs.length]? = some q → q.phase = .binding → e.calls = d.calls)
      (fun ⟨hreg, hlt, hprev⟩ hturn => ⟨regular_of_turn hreg hturn, ?_, fun q hq hp => ?_⟩)
      ⟨hstart, hlength, fun _ _ _ => hcalls⟩
    · exact Nat.lt_of_lt_of_le hlt (runs_length_le hturn)
    · obtain ⟨⟨r, hr, hp'⟩, heq⟩ := calls_of_binding hreg hturn hq hp hlt
      exact heq.trans (hprev r hr hp')
  cases turn_of_step hf with
  | forgo k r hr hp => exact ⟨hidle.symm, hkept.2.2 r hr hp⟩

/-! ## After a request to end -/

/-- The calls that a run which has been asked to end has still to make if accepting yields it `os`. -/
def pending (r : Run) (os : List (Except IoError PeerId)) : List Callback :=
  match r.phase with
  | .spawned a => .started a :: (os.map callbackOf ++ [.stopped])
  | .accepted o => callbackOf o :: (os.map callbackOf ++ [.stopped])
  | .binding | .calling .stopped | .leaving | .finished => os.map callbackOf
  | .calling _ | .polling | .accepting | .pausing _ => os.map callbackOf ++ [.stopped]

/-- How many moves the loop of a run which has been asked to end has still to make, at most. -/
def left (r : Run) : Nat :=
  match r.phase with
  | .accepting => 6
  | .spawned _ | .accepted _ => 5
  | .calling .stopped => 2
  | .calling _ => 4
  | .polling | .pausing _ => 3
  | .leaving => 1
  | .binding | .finished => 0

theorem left_le (r : Run) : left r ≤ 6 := by
  unfold left
  split <;> omega

/-- A run that has been asked to end does not look for a connection any more unless it was about to, and makes the
calls that it has still to make. -/
theorem Stride.closing (h : Stride now m r r' new) (hm : m.run? = some k) (hc : r.closed = true)
    (hp : r.phase ≠ .binding) :
    r'.closed = true ∧ r'.phase ≠ .binding ∧
      (r'.phase = .accepting → r.phase = .accepting ∧ m.outcome? k = none) ∧
      (m.outcome? k ≠ none → r.phase = .accepting) ∧
      (∀ os, os = [] ∨ r'.phase = .accepting →
        pending r ((m.outcome? k).toList ++ os) = new ++ pending r' os) ∧
      left r' + (if m.loop?.isSome then 1 else 0) ≤ left r := by
  cases h with
  | bound hp' | forgo hp' => exact absurd hp' hp
  | begin hp' => simp [hc, pending, left, hp', Move.outcome?, Move.loop?]
  | look _ hc' | resume _ _ hc' => simp [hc] at hc'
  | rest hp' => simp [hc, pending, left, hp', Move.outcome?, Move.loop?]
  | accept o hp' =>
      obtain rfl := Option.some.inj hm
      simp [hc, pending, left, hp', Move.outcome?, Move.loop?]
  | call o hp' => cases o <;> simp [hc, pending, left, hp', callbackOf, Move.outcome?, Move.loop?]
  | finish c hp' => cases c <;> simp [hc, pending, left, hp', phaseAfter, Move.outcome?, Move.loop?]
  | quit hp' _ =>
      rcases hp' with hp' | ⟨_, hp'⟩ <;> simp [hc, pending, left, hp', Move.outcome?, Move.loop?]
  | leave hp' => simp [hc, pending, left, hp', Move.outcome?, Move.loop?]
  | close _ => exact ⟨rfl, hp, fun h => ⟨h, rfl⟩, fun h => absurd rfl h, fun _ _ => rfl, Nat.le_refl _⟩

theorem loop?_eq (hm : m.run? = some k) (hl : m.loop?.isSome = true) : m.loop? = some k := by
  cases m <;> simp_all [Move.run?, Move.loop?]

theorem loop?_of_ne (hm : m.run? = some k) (hj : j ≠ k) : m.loop? ≠ some j := by
  cases m <;> simp_all [Move.run?, Move.loop?, eq_comm]

/-- What run `k`, which was `r` when it had been asked to end, has done since. -/
structure Closing (d : Dispatcher) (k : Nat) (r : Run) (ns : List (Nat × Move)) (e : Dispatcher) (q : Run) :
    Prop where
  run : e.runs[k]? = some q
  closed : q.closed = true
  bound : q.phase ≠ .binding
  /-- Whoever is about to look for a connection has been since the request was made. -/
  looked : q.phase = .accepting → r.phase = .accepting ∧ outcomesOf k ns = []
  outcomes : outcomesOf k ns = [] ∨ r.phase = .accepting ∧ ∃ o, outcomesOf k ns = [o]
  calls : ∃ new, e.callsOf k = d.callsOf k ++ new ∧ ∀ os, os = [] ∨ q.phase = .accepting →
    pending r (outcomesOf k ns ++ os) = new ++ pending q os
  moves : (loopMoves k ns).length + left q ≤ left r

/-- A move that is about another run adds nothing. -/
theorem Closing.keep (hd : Closing d k r ns e q) (hrun : f.runs[k]? = some q) (hcalls : f.callsOf k = e.callsOf k)
    (ho : m.outcome? k = none) (hl : m.loop? ≠ some k) : Closing d k r (ns ++ [(now, m)]) f q := by
  have hsame : outcomesOf k (ns ++ [(now, m)]) = outcomesOf k ns := by
    simp [outcomesOf_concat, ho]
  refine ⟨hrun, hd.closed, hd.bound, ?_, ?_, ?_, ?_⟩
  · rw [hsame]
    exact hd.looked
  · rw [hsame]
    exact hd.outcomes
  · rw [hsame, hcalls]
    exact hd.calls
  · simpa [loopMoves, List.filter_append, hl] using hd.moves

theorem closing_of_turn (hd : Closing d k r ns e q) (h : Turn now e m f) :
    ∃ q', Closing d k r (ns ++ [(now, m)]) f q' := by
  rcases stride_of_turn h with ⟨rfl, -, rfl⟩ | ⟨j, p, p', new, hm, ha, hs, -⟩
  · -- another run has been begun
    refine ⟨q, hd.keep ?_ rfl rfl (by simp [Move.loop?])⟩
    simpa [List.getElem?_append_left (List.getElem?_eq_some_iff.1 hd.run).1] using hd.run
  by_cases hkj : k = j
  · subst hkj
    obtain rfl := Option.some.inj (ha.found.symm.trans hd.run)
    obtain ⟨hclosed, hbound, hlooked, hyielded, hpending, hleft⟩ := hs.closing hm hd.closed hd.bound
    refine ⟨p', ha.run_self, hclosed, hbound, fun hp' => ?_, ?_, ?_, ?_⟩
    · obtain ⟨hp, hnone⟩ := hlooked hp'
      simpa [outcomesOf_concat, hnone] using hd.looked hp
    · -- what accepting yields ends the only look that there has been
      rw [outcomesOf_concat]
      cases ho : m.outcome? k with
      | none => simpa using hd.outcomes
      | some o =>
          obtain ⟨hr, hnil⟩ := hd.looked (hyielded (by simp [ho]))
          exact .inr ⟨hr, o, by simp [hnil]⟩
    · obtain ⟨old, hold, hrest⟩ := hd.calls
      refine ⟨old ++ new, by rw [ha.callsOf_self, hold, List.append_assoc], fun os hos => ?_⟩
      have hfuture : (m.outcome? k).toList ++ os = [] ∨ p.phase = .accepting := by
        rcases hos with rfl | hp'
        · cases ho : m.outcome? k with
          | none => exact .inl rfl
          | some o => exact .inr (hyielded (by simp [ho]))
        · exact .inr (hlooked hp').1
      rw [outcomesOf_concat, List.append_assoc, hrest _ hfuture, hpending os hos, List.append_assoc]
    · have hmoves := hd.moves
      cases hl : m.loop?.isSome with
      | true => simp [loopMoves, List.filter_append, loop?_eq hm hl] at hmoves hleft ⊢; omega
      | false =>
          have hnone : m.loop? = none := by simpa using hl
          simp [loopMoves, List.filter_append, hnone] at hmoves hleft ⊢; omega
  · have hrun := (ha.run_of_ne hkj).trans hd.run
    exact ⟨q, hd.keep hrun (ha.callsOf_of_ne hkj) (outcome?_of_ne hm hkj) (loop?_of_ne hm hkj)⟩

theorem closing_of_reaches (hk : d.runs[k]? = some r) (hc : r.closed = true) (hp : r.phase ≠ .binding)
    (hr : Reaches d ns e) : ∃ q, Closing d k r ns e q := by
  have hstart : ∃ q, Closing d k r [] d q :=
    ⟨r, hk, hc, hp, fun hr => ⟨hr, rfl⟩, .inl rfl, ⟨[], by simp, fun _ _ => rfl⟩, by simp [loopMoves]⟩
  simpa using hr.preserves (P := fun past e => ∃ q, Closing d k r past e q)
    (fun ⟨_, hq⟩ hturn => closing_of_turn hq hturn) hstart

/-- A run that has been asked to end and can make no move is over. -/
theorem over_of_stuck (hk : d.runs[k]? = some r) (hc : r.closed = true) (hp : r.phase ≠ .binding)
    (hstuck : ∀ now m, m.loop? = some k → d.step now m = none) : r.phase = .finished := by
  cases hr : r.phase with
  | binding => exact absurd hr hp
  | spawned a => simpa [Dispatcher.step, Move.run?, hk, stepRun, hr] using hstuck 0 (.begin k) rfl
  | calling c => simpa [Dispatcher.step, Move.run?, hk, stepRun, hr] using hstuck 0 (.finish k) rfl
  | polling => simpa [Dispatcher.step, Move.run?, hk, stepRun, hr, hc] using hstuck 0 (.quit k) rfl
  | accepting => simpa [Dispatcher.step, Move.run?, hk, stepRun, hr] using hstuck 0 (.rest k) rfl
  | accepted o => simpa [Dispatcher.step, Move.run?, hk, stepRun, hr] using hstuck 0 (.call k) rfl
  | pausing t => simpa [Dispatcher.step, Move.run?, hk, stepRun, hr, hc] using hstuck 0 (.quit k) rfl
  | leaving => simpa [Dispatcher.step, Move.run?, hk, stepRun, hr] using hstuck 0 (.leave k) rfl
  | finished => rfl

/-! ## The life of every run -/

/-- What becomes of run `k`, bound to `a` and asked to end, from `d` on. -/
structure Winding (k : Nat) (a : Address) (d : Dispatcher) (ns : List (Nat × Move)) (e : Dispatcher) : Prop where
  /-- Accepting yields nothing any more, or one more outcome to a loop that was about to look for it and had none in
  hand. -/
  outcomes : outcomesOf k ns = [] ∨ d.isAccepting k = true ∧ d.dueOf k = [] ∧ ∃ o, outcomesOf k ns = [o]
  /-- The handler is told of the beginning, if it has not been before, of an outcome that was due or has been
  yielded since, and of the end. -/
  calls : ∃ new, e.callsOf k = d.callsOf k ++ new ∧
    new.Sublist (.started a :: ((d.dueOf k ++ outcomesOf k ns).map callbackOf ++ [.stopped])) ∧
    (.started a ∈ new → d.callsOf k = [])
  /-- The loop makes few moves. -/
  moves : (loopMoves k ns).length ≤ 6
  /-- Where the loop can make none, it has told the handler of the end, once. -/
  ended : (∀ now m, m.loop? = some k → e.step now m = none) →
    e.isFinished k = true ∧ (e.callsOf k).count .stopped = 1

/-- The life of every run of a dispatcher that `ms` have led to. -/
structure Lifecycle (ms : List (Nat × Move)) (d : Dispatcher) : Prop where
  /-- At most one run binds or loops, and what the dispatcher owns belongs to it. -/
  alone : ∀ (k : Nat) r, d.runs[k]? = some r → r.isAlive = true →
    (∀ (j : Nat) q, d.runs[j]? = some q → q.isAlive = true → j = k) ∧ d.state = .ofBound (boundAt? k ms)
  idle : d.state = .idle ↔ ∀ (k : Nat) r, d.runs[k]? = some r → r.isAlive = false
  refused : ∀ e, d.claim = .error e ↔ e = .alreadyListening ∧ d.state ≠ .idle
  /-- Resolving and binding are never refused for that reason. -/
  alreadyListening : ∀ (s : DispatchSession) i p choice, p.dispatcher = d →
    ((s.run i p choice).1 = .error .alreadyListening ↔ d.state ≠ .idle)
  /-- A run that fails or is given up, whatever happens in between, leaves the dispatcher as it has found it. -/
  restored : ∀ c ns e now f, d.claim = .ok c → Reaches c ns e → e.step now (.forgo d.runs.length) = some f →
    f.state = d.state ∧ f.calls = d.calls
  /-- A run calls the handler once it is bound, then about every outcome of accepting, of which the last may still be
  due, then at its end. -/
  record : ∀ k, (d.callsOf k = [] ∧ outcomesOf k ms = []) ∨
    ∃ a os, boundAt? k ms = some a ∧ outcomesOf k ms = os ++ d.dueOf k ∧
      (d.callsOf k = .started a :: os.map callbackOf ∨
        (d.callsOf k = .started a :: os.map callbackOf ++ [.stopped] ∧ d.dueOf k = [] ∧ d.isClosed k = true))
  /-- A call that is under way is the last one of all. -/
  latest : ∀ (k : Nat) r c, d.runs[k]? = some r → r.phase = .calling c → d.calls.getLast? = some (k, c)
  /-- The calls of one run come before those of the next. -/
  sorted : (d.calls.map Prod.fst).Pairwise (· ≤ ·)
  winding : ∀ k a, boundAt? k ms = some a → d.isClosed k = true →
    ∀ ns e, Reaches d ns e → Winding k a d ns e

theorem Told.record (h : Told r b os cs) :
    (cs = [] ∧ os = []) ∨ ∃ a told, b = some a ∧ os = told ++ r.due ∧ (cs = .started a :: told.map callbackOf ∨
      (cs = .started a :: told.map callbackOf ++ [.stopped] ∧ r.due = [] ∧ r.closed = true)) := by
  cases h with
  | binding _ | forgone _ | spawned _ => exact .inl ⟨rfl, rfl⟩
  | @starting a hp => exact .inr ⟨a, [], rfl, by simp [Run.due, hp], .inl rfl⟩
  | @due a os o hp => exact .inr ⟨a, os, rfl, by simp [Run.due, hp], .inl rfl⟩
  | @reporting a os o hp => exact .inr ⟨a, os ++ [o], rfl, by simp [Run.due, hp], .inl rfl⟩
  | @waiting a os hp =>
      have hdue : r.due = [] := by rcases hp with hp | hp | ⟨_, hp⟩ <;> simp [Run.due, hp]
      exact .inr ⟨a, os, rfl, by simp [hdue], .inl rfl⟩
  | @ending a os hp hc =>
      have hdue : r.due = [] := by rcases hp with hp | hp | hp <;> simp [Run.due, hp]
      exact .inr ⟨a, os, rfl, by simp [hdue], .inr ⟨rfl, hdue, hc⟩⟩

theorem Told.ne_binding (h : Told r (some a) os cs) : r.phase ≠ .binding := by
  intro hp
  cases h with
  | waiting hp' | ending hp' _ => simp [hp] at hp'
  | _ => simp_all

/-- A run that is bound and over has told the handler of its end once. -/
theorem Told.count_stopped (h : Told r (some a) os cs) (hp : r.phase = .finished) : cs.count .stopped = 1 := by
  cases h with
  | ending _ _ =>
      have hnone : Callback.stopped ∉ os.map callbackOf := by
        simp only [List.mem_map, not_exists, not_and]
        exact fun o _ => callbackOf_ne_stopped o
      simp [List.count_append, List.count_eq_zero.2 hnone]
  | waiting hp' => simp [hp] at hp'
  | _ => simp_all

/-- What a run has still to call, once it is asked to end, is the beginning, if it is to come, what is due and what
accepting yields, and the end. -/
theorem Told.pending (h : Told r (some a) os cs) (new : List (Except IoError PeerId)) :
    (Dispatcher.pending r new).Sublist (.started a :: ((r.due ++ new).map callbackOf ++ [.stopped])) ∧
      (.started a ∈ Dispatcher.pending r new → cs = []) := by
  have hnew : Callback.started a ∉ new.map callbackOf := by
    simp only [List.mem_map, not_exists, not_and]
    rintro (_ | _) - <;> simp [callbackOf]
  cases h with
  | spawned hp => simp [Dispatcher.pending, Run.due, hp]
  | starting hp => simp [Dispatcher.pending, Run.due, hp, hnew]
  | due o hp => cases o <;> simp [Dispatcher.pending, Run.due, hp, hnew, callbackOf]
  | reporting o hp => cases o <;> simp [Dispatcher.pending, Run.due, hp, hnew, callbackOf]
  | waiting hp => rcases hp with hp | hp | ⟨_, hp⟩ <;> simp [Dispatcher.pending, Run.due, hp, hnew]
  | ending hp _ => rcases hp with hp | hp | hp <;> simp [Dispatcher.pending, Run.due, hp, hnew]

theorem Regular.winding (hd : Regular ms d) (hb : boundAt? k ms = some a) (hc : d.isClosed k = true)
    (hr : Reaches d ns e) : Winding k a d ns e := by
  obtain ⟨r, hk, hclosed⟩ : ∃ r, d.runs[k]? = some r ∧ r.closed = true := by
    cases hk : d.runs[k]? with
    | none => simp [isClosed, hk] at hc
    | some r => exact ⟨r, rfl, by simpa [isClosed, hk] using hc⟩
  have htold := hd.told k r hk
  rw [hb] at htold
  obtain ⟨q, hq⟩ := closing_of_reaches hk hclosed htold.ne_binding hr
  refine ⟨?_, ?_, ?_, fun hstuck => ?_⟩
  · exact hq.outcomes.imp id fun ⟨hp, ho⟩ => ⟨by simp [isAccepting, hk, hp], by simp [dueOf, Run.due, hk, hp], ho⟩
  · obtain ⟨new, hnew, hrest⟩ := hq.calls
    have hpending := hrest [] (.inl rfl)
    rw [List.append_nil] at hpending
    obtain ⟨hsub, hfirst⟩ := htold.pending (outcomesOf k ns)
    rw [hpending] at hsub hfirst
    have hdue : d.dueOf k = r.due := by simp [dueOf, hk]
    refine ⟨new, hnew, ?_, fun h => hfirst (List.mem_append_left _ h)⟩
    rw [hdue]
    exact (List.sublist_append_left _ _).trans hsub
  · have hleft := hq.moves
    have hle := left_le r
    omega
  · have hover := over_of_stuck hq.run hq.closed hq.bound hstuck
    have htold' := (hr.preserves regular_of_turn hd).told k q hq.run
    rw [boundAt?, List.findSome?_append, show ms.findSome? _ = some a from hb, Option.some_or] at htold'
    exact ⟨by simp [isFinished, hq.run, hover], htold'.count_stopped hover⟩

theorem lifecycle_of_reaches (hr : Reaches {} ms d) : Lifecycle ms d where
  alone := by
    intro k r hk halive
    have hd := regular_of_reaches hr
    obtain ⟨hlast, howned⟩ := hd.owner k r hk halive
    refine ⟨fun j q hj hq => ?_, howned⟩
    have hlast' := (hd.owner j q hj hq).1
    omega
  idle := by
    have hd := regular_of_reaches hr
    refine ⟨fun hidle k r hk => Bool.of_not_eq_true fun halive => ?_, hd.idle⟩
    have howned := (hd.owner k r hk halive).2
    cases hb : boundAt? k ms <;> simp [hidle, hb, ListenerState.ofBound] at howned
  refused := fun _ => claim_eq_error
  alreadyListening := by
    rintro s i p choice rfl
    exact run_refused s i p choice
  restored := fun c ns e now f hc hns hf => restored_of_forgo (regular_of_reaches hr) hc hns hf
  record := by
    intro k
    have hd := regular_of_reaches hr
    cases hk : d.runs[k]? with
    | none =>
        obtain ⟨-, hnil, hcalls⟩ := hd.unborn k (List.getElem?_eq_none_iff.1 hk)
        exact .inl ⟨callsOf_eq_nil hcalls, hnil⟩
    | some r => simpa [isClosed, dueOf, hk] using (hd.told k r hk).record
  latest := (regular_of_reaches hr).latest
  sorted := (regular_of_reaches hr).sorted
  winding := fun _ _ hb hc _ _ hns => (regular_of_reaches hr).winding hb hc hns

/-- The first run fails to bind; the second accepts a connection and, while the handler is called about a failure, is
asked to end; a third run follows. -/
def threeRuns : List (Nat × Move) :=
  [(0, .claim), (0, .forgo 0), (0, .claim), (0, .bound 1 default), (0, .begin 1), (0, .finish 1),
    (1, .look 1), (1, .accept 1 (.ok 0)), (1, .call 1), (1, .finish 1),
    (2, .look 1), (2, .accept 1 (.error .addressTaken)), (2, .call 1), (2, .close 1), (3, .finish 1),
    (3, .quit 1), (4, .finish 1), (4, .leave 1), (5, .claim)]

theorem lifecycle_of_three_runs :
    ∃ d, Reaches {} threeRuns d ∧ Lifecycle threeRuns d ∧ d.state = .binding ∧
      d.callsOf 1 = [.started default, .accepted 0, .acceptFailed .addressTaken, .stopped] := by
  have hr : Reaches {} threeRuns _ := .step rfl <| .step rfl <| .step rfl <| .step rfl <| .step rfl <| .step rfl <|
    .step rfl <| .step rfl <| .step rfl <| .step rfl <| .step rfl <| .step rfl <| .step rfl <| .step rfl <|
    .step rfl <| .step rfl <| .step rfl <| .step rfl <| .step rfl <| .refl _
  exact ⟨_, hr, lifecycle_of_reaches hr, rfl, rfl⟩

/-- A run has begun, and its loop is about to look for a connection when it is asked to end. -/
def lateRequest : List (Nat × Move) :=
  [(0, .claim), (0, .bound 0 default), (0, .begin 0), (0, .finish 0), (1, .look 0), (1, .close 0)]

/-- The handler has returned from its only call, the run has been asked to end, and a connection is accepted. -/
theorem accepted_of_late_request :
    ∃ d e, Reaches {} lateRequest d ∧ d.isClosed 0 = true ∧ d.callsOf 0 = [.started default] ∧
      (∀ r c, d.runs[0]? = some r → r.phase ≠ .calling c) ∧
      Reaches d [(1, .accept 0 (.ok 0)), (1, .call 0)] e ∧ e.callsOf 0 = [.started default, .accepted 0] := by
  have hr : Reaches {} lateRequest _ := .step rfl <| .step rfl <| .step rfl <| .step rfl <| .step rfl <|
    .step rfl <| .refl _
  refine ⟨_, _, hr, rfl, rfl, ?_, .step rfl <| .step rfl <| .refl _, rfl⟩
  intro r c hrun
  obtain rfl := Option.some.inj hrun
  simp

end Dispatcher
end Courier
