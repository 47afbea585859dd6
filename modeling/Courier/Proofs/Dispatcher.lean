import Courier.Dispatcher.Step

/-!
# Dispatcher — what one move of a dispatcher can do

`Dispatcher.Turn` lists the outcomes of `Dispatcher.step`, each with the condition under which it comes about.
The record of the calls of the handler tells which runs have begun and which have ended.

- `Dispatcher.turn_of_step` — every move has one of the outcomes,
- `Dispatcher.begun`, `Dispatcher.ended` — the runs that have called the handler first and last.
-/

namespace Courier

/-- Whether the loop of a run is between two calls of the handler. -/
def Run.Phase.isBetween : Run.Phase → Bool
  | .polling | .accepting | .accepted _ | .pausing _ => true
  | _ => false

/-- Whether the loop of a run may take a connection, or has taken one, without looking at the request to end. -/
def Run.Phase.isTaking : Run.Phase → Bool
  | .accepting | .accepted _ => true
  | _ => false

theorem Run.Phase.ne_of_isBetween {phase other : Run.Phase} (h : phase.isBetween = true)
    (ho : other.isBetween = false) : phase ≠ other := by
  rintro rfl
  simp [h] at ho

namespace Dispatcher

/-- How a loop goes on between its calls of the handler. -/
inductive Waits : Run.Phase → Run.Phase → Prop where
  | look : Waits .polling .accepting
  | rest : Waits .accepting .polling
  | accept (outcome : Except IoError PeerId) : Waits .accepting (.accepted outcome)
  | resume (deadline : Nat) : Waits (.pausing deadline) .polling

theorem Waits.isBetween {phase phase' : Run.Phase} (h : Waits phase phase') :
    phase.isBetween = true ∧ phase'.isBetween = true := by
  cases h <;> exact ⟨rfl, rfl⟩

/-- A loop comes to take a connection by looking at the request to end. -/
theorem Waits.taking {phase phase' : Run.Phase} (h : Waits phase phase') (ht : phase'.isTaking = true) :
    phase.isTaking = true ∨ phase = .polling := by
  cases h with
  | look => exact .inr rfl
  | accept _ => exact .inl rfl
  | rest | resume _ => simp [Run.Phase.isTaking] at ht

/-! ## Moves -/

/-- One move of a dispatcher. -/
inductive Turn (now : Nat) (d : Dispatcher) : Move → Dispatcher → Prop where
  | claim (hd : d.state = .idle) :
      Turn now d .claim { d with state := .binding, runs := d.runs ++ [{}] }
  | bound (k : Nat) (r : Run) (a : Address) (hr : d.runs[k]? = some r) (hp : r.phase = .binding) :
      Turn now d (.bound k a) { d.setPhase k r (.spawned a) with state := .listening a }
  | forgo (k : Nat) (r : Run) (hr : d.runs[k]? = some r) (hp : r.phase = .binding) :
      Turn now d (.forgo k) { d.setPhase k r .finished with state := .idle }
  | begin (k : Nat) (r : Run) (a : Address) (hr : d.runs[k]? = some r) (hp : r.phase = .spawned a) :
      Turn now d (.begin k) (d.call k r (.started a))
  | look (k : Nat) (r : Run) (hr : d.runs[k]? = some r) (hp : r.phase = .polling) (hc : r.closed = false) :
      Turn now d (.look k) (d.setPhase k r .accepting)
  | rest (k : Nat) (r : Run) (hr : d.runs[k]? = some r) (hp : r.phase = .accepting) :
      Turn now d (.rest k) (d.setPhase k r .polling)
  | accept (k : Nat) (r : Run) (outcome : Except IoError PeerId) (hr : d.runs[k]? = some r)
      (hp : r.phase = .accepting) :
      Turn now d (.accept k outcome) (d.setPhase k r (.accepted outcome))
  | call (k : Nat) (r : Run) (outcome : Except IoError PeerId) (hr : d.runs[k]? = some r)
      (hp : r.phase = .accepted outcome) :
      Turn now d (.call k) (d.call k r (callbackOf outcome))
  | finish (k : Nat) (r : Run) (c : Callback) (hr : d.runs[k]? = some r) (hp : r.phase = .calling c) :
      Turn now d (.finish k) (d.setPhase k r (phaseAfter now c))
  | resume (k : Nat) (r : Run) (deadline : Nat) (hr : d.runs[k]? = some r)
      (hp : r.phase = .pausing deadline) (hc : r.closed = false) (hd : deadline ≤ now) :
      Turn now d (.resume k) (d.setPhase k r .polling)
  | quit (k : Nat) (r : Run) (hr : d.runs[k]? = some r)
      (hp : r.phase = .polling ∨ ∃ deadline, r.phase = .pausing deadline) (hc : r.closed = true) :
      Turn now d (.quit k) (d.call k r .stopped)
  | leave (k : Nat) (r : Run) (hr : d.runs[k]? = some r) (hp : r.phase = .leaving) :
      Turn now d (.leave k) { d.setPhase k r .finished with state := .idle }
  | close (k : Nat) (r : Run) (hr : d.runs[k]? = some r) (hp : r.phase ≠ .binding) :
      Turn now d (.close k) { d with runs := d.runs.set k { r with closed := true } }

variable {now : Nat} {d e : Dispatcher} {m : Move} {k : Nat} {r : Run}

theorem turn_of_claim (h : d.claim = .ok e) : Turn now d .claim e := by
  unfold claim at h
  split at h
  · next hd =>
    obtain rfl := Except.ok.inj h
    exact .claim hd
  · simp at h

/-- A run that exists makes its moves as listed. -/
theorem turn_of_stepRun (hr : d.runs[k]? = some r) (hm : m.run? = some k)
    (h : stepRun now d k r m = some e) : Turn now d m e := by
  -- every move but quitting and closing goes with one phase
  cases m with
  | claim => simp [Move.run?] at hm
  | bound j a =>
      obtain rfl := Option.some.inj hm
      cases hp : r.phase <;> simp only [stepRun, hp, reduceCtorEq, Option.some.injEq] at h
      obtain rfl := h
      exact .bound j r a hr hp
  | forgo j =>
      obtain rfl := Option.some.inj hm
      cases hp : r.phase <;> simp only [stepRun, hp, reduceCtorEq, Option.some.injEq] at h
      obtain rfl := h
      exact .forgo j r hr hp
  | begin j =>
      obtain rfl := Option.some.inj hm
      cases hp : r.phase <;> simp only [stepRun, hp, reduceCtorEq, Option.some.injEq] at h
      obtain rfl := h
      exact .begin j r _ hr hp
  | look j =>
      obtain rfl := Option.some.inj hm
      cases hp : r.phase <;> simp only [stepRun, hp, reduceCtorEq, Option.ite_none_left_eq_some,
        Option.some.injEq, Bool.not_eq_true] at h
      obtain ⟨hc, rfl⟩ := h
      exact .look j r hr hp hc
  | rest j =>
      obtain rfl := Option.some.inj hm
      cases hp : r.phase <;> simp only [stepRun, hp, reduceCtorEq, Option.some.injEq] at h
      obtain rfl := h
      exact .rest j r hr hp
  | accept j outcome =>
      obtain rfl := Option.some.inj hm
      cases hp : r.phase <;> simp only [stepRun, hp, reduceCtorEq, Option.some.injEq] at h
      obtain rfl := h
      exact .accept j r outcome hr hp
  | call j =>
      obtain rfl := Option.some.inj hm
      cases hp : r.phase <;> simp only [stepRun, hp, reduceCtorEq, Option.some.injEq] at h
      obtain rfl := h
      exact .call j r _ hr hp
  | finish j =>
      obtain rfl := Option.some.inj hm
      cases hp : r.phase <;> simp only [stepRun, hp, reduceCtorEq, Option.some.injEq] at h
      obtain rfl := h
      exact .finish j r _ hr hp
  | resume j =>
      obtain rfl := Option.some.inj hm
      cases hp : r.phase <;> simp only [stepRun, hp, reduceCtorEq, Option.ite_none_right_eq_some,
        Option.some.injEq, Bool.and_eq_true, Bool.not_eq_true', decide_eq_true_eq] at h
      obtain ⟨⟨hc, hd⟩, rfl⟩ := h
      exact .resume j r _ hr hp hc hd
  | quit j =>
      obtain rfl := Option.some.inj hm
      cases hp : r.phase <;> simp only [stepRun, hp, reduceCtorEq, Option.ite_none_right_eq_some,
        Option.some.injEq] at h
      · obtain ⟨hc, rfl⟩ := h
        exact .quit j r hr (.inl hp) hc
      · obtain ⟨hc, rfl⟩ := h
        exact .quit j r hr (.inr ⟨_, hp⟩) hc
  | leave j =>
      obtain rfl := Option.some.inj hm
      cases hp : r.phase <;> simp only [stepRun, hp, reduceCtorEq, Option.some.injEq] at h
      obtain rfl := h
      exact .leave j r hr hp
  | close j =>
      obtain rfl := Option.some.inj hm
      have hp : r.phase ≠ .binding := by
        intro hp
        simp [stepRun, hp] at h
      have hstep : stepRun now d j r (.close j) =
          some { d with runs := d.runs.set j { r with closed := true } } := by
        cases hq : r.phase <;> simp_all [stepRun]
      obtain rfl := Option.some.inj (hstep.symm.trans h)
      exact .close j r hr hp

/-- Every move of a dispatcher has one of the listed outcomes. -/
theorem turn_of_step (h : d.step now m = some e) : Turn now d m e := by
  unfold step at h
  split at h
  · next hm =>
    cases m <;> simp only [Move.run?, reduceCtorEq] at hm
    cases hc : d.claim with
    | error f => simp [hc, Except.toOption] at h
    | ok e' =>
        simp only [hc, Except.toOption, Option.some.injEq] at h
        exact turn_of_claim (h ▸ hc)
  · next k hm =>
    split at h
    · simp at h
    · next r hr => exact turn_of_stepRun hr hm h

/-! ## The record of calls -/

/-- The run of a first call of the handler. -/
def begins? : Nat × Callback → Option Nat
  | (k, .started _) => some k
  | _ => none

/-- The run of a last call of the handler. -/
def ends? : Nat × Callback → Option Nat
  | (k, .stopped) => some k
  | _ => none

/-- The runs whose loops have begun, in the order in which they did. -/
def begun (d : Dispatcher) : List Nat :=
  d.calls.filterMap begins?

/-- The runs whose loops have ended after a request, in the order in which they did. -/
def ended (d : Dispatcher) : List Nat :=
  d.calls.filterMap ends?

end Dispatcher
end Courier
