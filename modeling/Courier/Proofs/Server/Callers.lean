import Courier.Proofs.Server.Members

/-!
# Callers — operations on a server and what they leave to be done

Operations that run and stop a server hold the means to end a run between two accesses.  What they hold is the
name of a run that has been bound, and a stop that has raised the flag goes on to empty the set.

- `Server.Engaged` — what operations under way and the server itself hold,
- `Server.engaged_of_access` — moves keep it.
-/

namespace Courier

variable {μ : Type} [Marshaler μ]

/-! ## Runs that are bound -/

namespace Agenda

/-- The listener of run `k` has been bound. -/
def Bound (p : Agenda) (k : Nat) : Prop :=
  k ∈ p.begun ∨ ∃ a, p.phases[k]? = some (.spawned a)

variable {p q : Agenda} {k : Nat}

theorem Bound.set {j : Nat} {phase phase' : Run.Phase} (h : p.Bound k) (hj : p.phases[j]? = some phase)
    (hne : ∀ a, phase ≠ .spawned a) (hbegun : p.begun <+: q.begun)
    (hphases : q.phases = p.phases.set j phase') : q.Bound k := by
  rcases h with h | ⟨a, ha⟩
  · exact .inl (hbegun.subset h)
  · have hjk : j ≠ k := by
      rintro rfl
      exact hne a (Option.some.inj (hj.symm.trans ha))
    exact .inr ⟨a, by rw [hphases, List.getElem?_set_ne hjk, ha]⟩

/-- Once bound, a run stays so. -/
theorem bound_of_turn (h : Turn p q) (hk : p.Bound k) : q.Bound k := by
  have hcall : ∀ j c, p.begun <+: (p.call j c).begun := fun j c => by
    rw [begun_call]
    exact List.prefix_append ..
  cases h with
  | claim _ =>
      rcases hk with hk | ⟨a, ha⟩
      · exact .inl hk
      · obtain ⟨hlt, -⟩ := List.getElem?_eq_some_iff.1 ha
        exact .inr ⟨a, (List.getElem?_append_left hlt).trans ha⟩
  | bound j a hp => exact hk.set hp (by simp) List.prefix_rfl rfl
  | forgo j hp => exact hk.set hp (by simp) List.prefix_rfl rfl
  | begin j a hp =>
      -- a run that was bound and had not begun has begun now
      rcases hk with hk | ⟨b, hb⟩
      · exact .inl ((hcall j _).subset hk)
      · by_cases hjk : j = k
        · obtain rfl := hjk
          refine .inl ?_
          rw [begun_call]
          exact List.mem_append_right _ (List.mem_singleton.2 rfl)
        · exact .inr ⟨b, (List.getElem?_set_ne hjk).trans hb⟩
  | wait j hw hp =>
      exact hk.set hp (fun _ => Run.Phase.ne_of_isBetween hw.isBetween.1 rfl) List.prefix_rfl rfl
  | call j outcome hp => exact hk.set hp (by simp) (hcall j _) rfl
  | quit j hw hp => exact hk.set hp (fun _ => Run.Phase.ne_of_isBetween hw rfl) (hcall j _) rfl
  | leave j hp => exact hk.set hp (by simp) List.prefix_rfl rfl
  | finish j now c _ hp => exact hk.set hp (by simp) List.prefix_rfl rfl
  | _ => exact hk

/-- A run that is bound does not wait for its listener. -/
theorem Bound.phase (h : p.Bound k) (hl : p.Lawful) : ∃ phase, p.phases[k]? = some phase ∧ phase ≠ .binding := by
  rcases h with h | ⟨a, ha⟩
  · have hat := List.getElem?_eq_getElem (hl.begun_lt k h)
    refine ⟨_, hat, fun hp => ?_⟩
    rw [hp] at hat
    obtain ⟨duty, -, -, hstand⟩ := hl.stand_of_phase hat (by simp)
    exact (hstand.of_waiting (.inl rfl)).2.1 h
  · exact ⟨_, ha, by simp⟩

end Agenda

namespace Server

namespace Call

/-- The run that an operation holds the means to end. -/
def run? : Server.Call → Option Nat
  | .keeping k => some k
  | .barring k => some k
  | .closing k => some k
  | _ => none

/-- Whether a stop has raised the flag and not emptied the set. -/
def isSweeping : Server.Call → Bool
  | .closing _ => true
  | .emptying => true
  | _ => false

end Call

variable {s t : Server μ} {m : Move} {i k : Nat}

/-- The means to end run `k` are held by the server or by an operation. -/
def Holds (s : Server μ) (k : Nat) : Prop :=
  s.closer = some k ∨ ∃ (i : Nat) (c : Server.Call), s.calls[i]? = some c ∧ c.run? = some k

/-- Whether a stop is on its way to empty the set. -/
def Sweeps (s : Server μ) : Prop :=
  ∃ (i : Nat) (c : Server.Call), s.calls[i]? = some c ∧ c.isSweeping = true

/-- What operations under way and the server itself hold. -/
structure Engaged (s : Server μ) : Prop where
  bound : ∀ k, s.Holds k → s.agenda.Bound k
  swept : s.closing = true → s.tracked = [] ∨ s.Sweeps

/-! ## What a move does to what is held -/

theorem bound_of_access (h : Access s m t) (hk : s.agenda.Bound k) : t.agenda.Bound k := by
  rcases turn_of_access h with heq | hturn
  · rw [heq]
    exact hk
  · exact Agenda.bound_of_turn hturn hk

/-- The means to end a run that an operation holds come from the server, or from a binding that has succeeded. -/
theorem holds_of_calls {c : Server.Call} (h : CallsTurn s t) (hc : t.calls[i]? = some c)
    (hk : c.run? = some k) :
    s.Holds k ∨ (∃ i : Nat, s.calls[i]? = some (.binding k)) ∧ t.agenda.Bound k := by
  rcases h.call_from hc with hb | ⟨d, hd, rfl | hgoes⟩
  · cases hb with
    | stop j hj =>
        obtain rfl := Option.some.inj hk
        exact .inl (.inl hj)
    | _ => simp [Call.run?] at hk
  · exact .inl (.inr ⟨i, c, hd, hk⟩)
  · cases hgoes with
    | bound l r a hr hp =>
        obtain rfl := Option.some.inj hk
        exact .inr ⟨⟨i, hd⟩, .inr ⟨a, phase_of_run hr hp⟩⟩
    | bar l _ => exact .inl (.inr ⟨i, .barring l, hd, hk⟩)
    | _ => simp [Call.run?] at hk

/-- The means to end a run come from a binding that has succeeded. -/
theorem holds_of_access (h : Access s m t) (hk : t.Holds k) :
    s.Holds k ∨ (∃ i : Nat, s.calls[i]? = some (.binding k)) ∧ t.agenda.Bound k := by
  rcases hk with hk | ⟨i, c, hc, hrun⟩
  · rcases closer_of_access h with heq | ⟨-, -, hnone, -⟩ | ⟨i, j, hj, hput, -⟩
    · exact .inl (.inl (heq ▸ hk))
    · simp [hnone] at hk
    · obtain rfl := Option.some.inj (hput.symm.trans hk)
      exact .inl (.inr ⟨i, .keeping j, hj, rfl⟩)
  · exact holds_of_calls (calls_of_access h) hc hrun

/-- A stop that has raised the flag goes on to empty the set. -/
theorem sweeps_of_access (h : Access s m t) (hs : s.Sweeps) : t.tracked = [] ∨ t.Sweeps := by
  obtain ⟨i, c, hc, hsweep⟩ := hs
  obtain ⟨c', hc', rfl | hgoes⟩ := (calls_of_access h).call_to hc
  · exact .inr ⟨i, c', hc', hsweep⟩
  · cases hgoes with
    | close k _ => exact .inr ⟨i, .emptying, hc', rfl⟩
    | empty hnil => exact .inl hnil
    | _ => simp [Call.isSweeping] at hsweep

/-- While the flag is raised, nobody comes into the set. -/
theorem tracked_nil_of_access (h : Access s m t) (hclosing : s.closing = true) (hnil : s.tracked = []) :
    t.tracked = [] := by
  cases h with
  | empty _ _ => rfl
  | erase r round a e _ _ =>
      have hfilter : (s.untrack a).tracked = [] := by simp [untrack, hnil]
      exact hfilter
  | enter r round a _ _ hc => simp [hclosing] at hc
  | stopNext _ _ _ _ | turnAway _ _ _ _ _ _ | clearStart _ _ _ _ _ _ _ =>
      exact tracked_stopAttendant.trans hnil
  | hire _ _ _ _ _ | dismiss _ _ _ _ => exact tracked_setRound.trans hnil
  | _ => exact hnil

/-- The flag has been raised before, or a stop has just raised it. -/
theorem closing_from (h : Access s m t) (ht : t.closing = true) : s.closing = true ∨ t.Sweeps := by
  cases h with
  | bar i k hc =>
      obtain ⟨hlt, -⟩ := List.getElem?_eq_some_iff.1 hc
      exact .inr ⟨i, .closing k, List.getElem?_set_self hlt, rfl⟩
  | reopen k _ r a _ => simp [turnTo] at ht
  | stopNext _ _ _ _ | turnAway _ _ _ _ _ _ | clearStart _ _ _ _ _ _ _ =>
      exact .inl (closing_stopAttendant.symm.trans ht)
  | enter _ _ _ _ _ _ => exact .inl (closing_track.symm.trans ht)
  | hire _ _ _ _ _ | dismiss _ _ _ _ => exact .inl (closing_setRound.symm.trans ht)
  | _ => exact .inl ht

/-- A raised flag means that the set is empty or is going to be emptied. -/
theorem swept_of_access (h : Access s m t) (hs : s.closing = true → s.tracked = [] ∨ s.Sweeps)
    (ht : t.closing = true) : t.tracked = [] ∨ t.Sweeps := by
  rcases closing_from h ht with hclosing | hsweeps
  · rcases hs hclosing with hnil | hsweeps
    · exact .inl (tracked_nil_of_access h hclosing hnil)
    · exact sweeps_of_access h hsweeps
  · exact .inr hsweeps

theorem engaged_of_access (h : Access s m t) (hs : s.Engaged) : t.Engaged where
  bound := by
    intro k hk
    rcases holds_of_access h hk with hk' | ⟨-, hk'⟩
    · exact bound_of_access h (hs.bound k hk')
    · exact hk'
  swept := swept_of_access h hs.swept

end Server
end Courier
