import Courier.Proofs.Revision
import Courier.Proofs.Server.Access

/-!
# Parts — what a move does to one part of a server

Most properties of a server are about one of its parts, and most moves leave that part alone.  For the operations of
callers, for runs and for the duties of accept loops, the outcomes of a move fall into a few shapes.

- `Server.CallsTurn`, `Server.calls_of_access` — operations of callers,
- `Server.outcome_of_access` — what they have come to stays,
- `Server.closer_of_access` — the means to end a run, as far as the server holds them,
- `Server.RunsTurn`, `Server.runs_of_access` — runs of the dispatcher,
- `Server.DutiesTurn`, `Server.duties_of_access` — duties of accept loops,
- `Server.DutyComes`, `Server.duty_from` — how the duty of one loop comes about.
-/

namespace Courier

variable {μ : Type} [Marshaler μ]

namespace Server

/-! ## Operations -/

/-- What a caller may begin. -/
inductive Call.Begins (s : Server μ) : Call → Prop where
  | refusedRun (e : Error) : Begins s (.ran (.error e))
  | run (k : Nat) : Begins s (.binding k)
  | refusedStop (e : Error) : Begins s (.halted (.error e))
  | stop (k : Nat) (hk : s.closer = some k) : Begins s (.barring k)

/-- What an operation that goes on leaves to be done, with what it has brought about. -/
inductive Call.Goes (s t : Server μ) : Call → Call → Prop where
  | bound (k : Nat) (r : Run) (a : Address) (hr : t.dispatcher.runs[k]? = some r)
      (hp : r.phase = .spawned a) : Goes s t (.binding k) (.keeping k)
  | forgo (k : Nat) (e : Error) : Goes s t (.binding k) (.ran (.error e))
  | keep (k : Nat) (ht : t.closer = some k) : Goes s t (.keeping k) (.ran (.ok ()))
  | bar (k : Nat) (ht : t.closing = true) : Goes s t (.barring k) (.closing k)
  | close (k : Nat) (ht : t.dispatcher.isClosed k = true) : Goes s t (.closing k) .emptying
  | empty (ht : t.tracked = []) : Goes s t .emptying (.stopping s.tracked)
  | finish : Goes s t (.stopping []) (.halted (.ok ()))
  | next (a : AttendantId) (left : List AttendantId)
      (ht : t.members = (s.stopAttendant a).members) :
      Goes s t (.stopping (a :: left)) (.stopping left)

/-- What a move does to the operations of callers. -/
inductive CallsTurn (s t : Server μ) : Prop where
  | same (h : t.calls = s.calls)
  | begun {c : Call} (hc : c.Begins s) (h : t.calls = s.calls ++ [c])
  | moved {i : Nat} {c c' : Call} (hc : s.calls[i]? = some c) (hgoes : c.Goes s t c')
      (h : t.calls = s.calls.set i c')

variable {s t : Server μ} {m : Move} {a : AttendantId} {i k : Nat} {c c' : Call}

theorem calls_of_access (h : Access s m t) : CallsTurn s t := by
  cases h with
  | refuseRun _ => exact .begun (.refusedRun _) rfl
  | claim _ => exact .begun (.run _) rfl
  | bound i k r a hc hr _ =>
      obtain ⟨hlt, -⟩ := List.getElem?_eq_some_iff.1 hr
      exact .moved hc (.bound k { r with phase := .spawned a } a (List.getElem?_set_self hlt) rfl) rfl
  | forgo i k r e hc _ _ => exact .moved hc (.forgo k e) rfl
  | refuseStop _ _ _ _ => exact .begun (.refusedStop _) rfl
  | beginStop _ _ k _ hk => exact .begun (.stop k hk) rfl
  | keep i k hc => exact .moved hc (.keep k rfl) rfl
  | bar i k hc => exact .moved hc (.bar k rfl) rfl
  | close i k r hc hr _ =>
      obtain ⟨hlt, -⟩ := List.getElem?_eq_some_iff.1 hr
      refine .moved hc (.close k ?_) rfl
      simp [Dispatcher.isClosed, setCall, hlt]
  | empty i hc => exact .moved hc (.empty rfl) rfl
  | finishStop i hc => exact .moved hc .finish rfl
  | stopNext i a left hc => exact .moved hc (.next a left rfl) calls_stopNext
  | turnAway _ _ _ _ _ _ | clearStart _ _ _ _ _ _ _ => exact .same calls_stopAttendant
  | enter _ _ _ _ _ _ => exact .same calls_track
  | hire _ _ _ _ _ | dismiss _ _ _ _ => exact .same calls_setRound
  | _ => exact .same rfl

theorem CallsTurn.revises (h : CallsTurn s t) :
    Revises (fun c => c.Begins s) (fun _ c c' => c.Goes s t c') s.calls t.calls := by
  cases h with
  | same ht => exact .same ht
  | begun hc ht => exact .added hc ht
  | moved hc hgoes ht => exact .changed hc hgoes ht

theorem CallsTurn.call_to (h : CallsTurn s t) (hc : s.calls[i]? = some c) :
    ∃ c', t.calls[i]? = some c' ∧ (c' = c ∨ c.Goes s t c') :=
  h.revises.get_to hc

theorem CallsTurn.call_from (h : CallsTurn s t) (hc : t.calls[i]? = some c') :
    c'.Begins s ∨ ∃ c, s.calls[i]? = some c ∧ (c' = c ∨ c.Goes s t c') :=
  h.revises.get_from hc

/-- An operation that has come out stays so. -/
theorem outcome_of_access (h : Access s m t) (hc : s.calls[i]? = some c) {result : Except Error Unit}
    (hr : c.result? = some result) : t.calls[i]? = some c := by
  obtain ⟨c', hc', rfl | hgoes⟩ := (calls_of_access h).call_to hc
  · exact hc'
  · -- an operation that goes on has not come out
    cases hgoes <;> simp [Call.result?] at hr

/-- The means to end a run are put down by an operation that has been given them, and taken up by a stop. -/
theorem closer_of_access (h : Access s m t) :
    t.closer = s.closer ∨ (∃ k, s.closer = some k ∧ t.closer = none ∧ t.calls = s.calls ++ [.barring k]) ∨
      ∃ (i k : Nat), s.calls[i]? = some (.keeping k) ∧ t.closer = some k ∧ t.calls[i]? = some (.ran (.ok ())) := by
  cases h with
  | beginStop _ _ k _ hk => exact .inr (.inl ⟨k, hk, rfl, rfl⟩)
  | keep i k hc =>
      obtain ⟨hlt, -⟩ := List.getElem?_eq_some_iff.1 hc
      exact .inr (.inr ⟨i, k, hc, rfl, List.getElem?_set_self hlt⟩)
  | stopNext _ _ _ _ | turnAway _ _ _ _ _ _ | clearStart _ _ _ _ _ _ _ => exact .inl closer_stopAttendant
  | enter _ _ _ _ _ _ => exact .inl closer_track
  | hire _ _ _ _ _ | dismiss _ _ _ _ => exact .inl closer_setRound
  | _ => exact .inl rfl

/-! ## Runs -/

/-- What a move does to run `k`.  A run that is bound can be ended by the operation that has bound it. -/
inductive RunGoes (s : Server μ) (m : Move) (t : Server μ) (k : Nat) (run : Run) : Run → Prop where
  | bound {i : Nat} (a : Address) (hp : run.phase = .binding) (hc : t.calls[i]? = some (.keeping k)) :
      RunGoes s m t k run { run with phase := .spawned a }
  | began {a : Address} (hm : m = .loop (.begin k)) (hp : run.phase = .spawned a) :
      RunGoes s m t k run { run with phase := .calling (.started a) }
  | moved (phase : Run.Phase) (hfrom : ∀ a, run.phase ≠ .spawned a) (hto : ∀ a, phase ≠ .spawned a)
      (htaking : phase.isTaking = true → run.phase.isTaking = true ∨ run.closed = false) :
      RunGoes s m t k run { run with phase }
  | asked {i : Nat} (hm : m = .advance i) (hc : s.calls[i]? = some (.closing k)) :
      RunGoes s m t k run { run with closed := true }

/-- What a move does to the runs of the dispatcher. -/
inductive RunsTurn (s : Server μ) (m : Move) (t : Server μ) : Prop where
  | same (h : t.dispatcher.runs = s.dispatcher.runs)
  | claimed (h : t.dispatcher.runs = s.dispatcher.runs ++ [({} : Run)])
  | moved {k : Nat} {run run' : Run} (hr : s.dispatcher.runs[k]? = some run)
      (hgoes : RunGoes s m t k run run') (h : t.dispatcher.runs = s.dispatcher.runs.set k run')

theorem runs_of_access (h : Access s m t) : RunsTurn s m t := by
  cases h with
  | claim _ => exact .claimed rfl
  | bound i k r a hc hr hp =>
      obtain ⟨hlt, -⟩ := List.getElem?_eq_some_iff.1 hc
      exact .moved hr (.bound (i := i) a hp (List.getElem?_set_self hlt)) rfl
  | forgo i k r e _ hr hp =>
      exact .moved hr (.moved .finished (by simp [hp]) (by simp) (by simp [Run.Phase.isTaking])) rfl
  | close i k r hc hr _ => exact .moved hr (.asked rfl hc) rfl
  | begin k r a hr hp => exact .moved hr (.began rfl hp) rfl
  | wait k r _ phase hr hw hc =>
      obtain ⟨hp, hp'⟩ := hw.isBetween
      exact .moved hr (.moved phase (fun _ => Run.Phase.ne_of_isBetween hp rfl)
        (fun _ => Run.Phase.ne_of_isBetween hp' rfl) fun ht => (hw.taking ht).imp_right hc) rfl
  | call k r outcome hr hp => exact .moved hr (.moved _ (by simp [hp]) (by simp) (by simp [Run.Phase.isTaking])) rfl
  | quit k r hr hp _ =>
      refine .moved hr (.moved (.calling .stopped) ?_ (by simp) (by simp [Run.Phase.isTaking])) rfl
      rcases hp with hp | ⟨deadline, hp⟩ <;> simp [hp]
  | leave k r hr hp => exact .moved hr (.moved .finished (by simp [hp]) (by simp) (by simp [Run.Phase.isTaking])) rfl
  | finish k _ r c _ hr hp =>
      -- a callback leads back to polling, into a pause or out of the loop
      refine .moved hr (.moved (Dispatcher.phaseAfter s.now c) (by simp [hp]) ?_ ?_) rfl <;>
        cases c <;> simp [Dispatcher.phaseAfter, Run.Phase.isTaking]
  | stopNext _ _ _ _ | turnAway _ _ _ _ _ _ | clearStart _ _ _ _ _ _ _ =>
      exact .same (congrArg _ dispatcher_stopAttendant)
  | enter _ _ _ _ _ _ => exact .same (congrArg _ dispatcher_track)
  | hire _ _ _ _ _ | dismiss _ _ _ _ => exact .same (congrArg _ dispatcher_setRound)
  | _ => exact .same rfl

theorem RunsTurn.revises (h : RunsTurn s m t) :
    Revises (· = {}) (RunGoes s m t) s.dispatcher.runs t.dispatcher.runs := by
  cases h with
  | same ht => exact .same ht
  | claimed ht => exact .added rfl ht
  | moved hr hgoes ht => exact .changed hr hgoes ht

theorem RunsTurn.run_to {run : Run} (h : RunsTurn s m t) (hr : s.dispatcher.runs[k]? = some run) :
    ∃ run', t.dispatcher.runs[k]? = some run' ∧ (run' = run ∨ RunGoes s m t k run run') :=
  h.revises.get_to hr

theorem RunsTurn.run_from {run' : Run} (h : RunsTurn s m t) (hr : t.dispatcher.runs[k]? = some run') :
    run' = {} ∨ ∃ run, s.dispatcher.runs[k]? = some run ∧ (run' = run ∨ RunGoes s m t k run run') :=
  h.revises.get_from hr

/-! ## Duties -/

/-- What a move does to the duties of accept loops.  A loop is between its callbacks or inside one, and the start of
an attendant is waited for by the loop that has just made it. -/
inductive DutiesTurn (s t : Server μ) : Prop where
  | same (h : t.duties = s.duties)
  | begun (h : t.duties = s.duties ++ [Duty.idle])
  | between {k : Nat} {r : Run} {d : Duty} (hr : s.dispatcher.runs[k]? = some r)
      (hp : ∀ c, r.phase ≠ .calling c) (hd : ∀ a, d ≠ .starting a) (h : t.duties = s.duties.set k d)
  | inside {k : Nat} {d e : Duty} (hd : s.duties[k]? = some d)
      (hfrom : ∀ a, d = .starting a → s.hasStarted a = true) (hto : ∀ a, e ≠ .starting a)
      (h : t.duties = s.duties.set k e)
  | founded {k : Nat} {peer : PeerId} {r : Nat} (hd : s.duties[k]? = some (.founding peer r))
      (h : t = (s.found peer r).turnTo k (.starting s.members.length))

theorem duties_of_access (h : Access s m t) : DutiesTurn s t := by
  cases h with
  | claim _ => exact .begun rfl
  | begin k r a hr hp => exact .between hr (by simp [hp]) (by simp) rfl
  | wait k r _ phase hr hw _ =>
      exact .between hr (fun _ => Run.Phase.ne_of_isBetween hw.isBetween.1 rfl) (by simp) rfl
  | call k r outcome hr hp =>
      refine .between hr (by simp [hp]) ?_ rfl
      cases outcome <;> simp [Dispatcher.callbackOf, Duty.ofCallback]
  | quit k r hr hp _ =>
      refine .between hr ?_ (by simp) rfl
      rcases hp with hp | ⟨deadline, hp⟩ <;> simp [hp]
  | leave k r hr hp => exact .between hr (by simp [hp]) (by simp) rfl
  | openRound k _ a hd => exact .inside hd (by simp) (by simp) rfl
  | reopen k _ r a hd => exact .inside hd (by simp) (by simp) rfl
  | hire k _ r a hd => exact .inside (e := .announcing a) hd (by simp) (by simp) duties_minded
  | announceStart k _ a _ hd _ => exact .inside hd (by simp) (by simp) rfl
  | refuse k _ peer hd _ => exact .inside hd (by simp) (by simp) rfl
  | welcome k _ peer hd _ => exact .inside hd (by simp) (by simp) rfl
  | miss k _ peer hd _ => exact .inside hd (by simp) (by simp) rfl
  | join k _ peer r hd _ => exact .inside hd (by simp) (by simp) rfl
  | found k peer r hd => exact .founded hd rfl
  | lose k peer r hd => exact .inside hd (by simp) (by simp) rfl
  | started k _ a hd hs =>
      refine .inside hd (fun b hb => ?_) (by simp) rfl
      obtain rfl := Duty.starting.inj hb
      exact hs
  | reportFailure k _ e _ hd _ => exact .inside hd (by simp) (by simp) rfl
  | retireNone k _ hd _ => exact .inside hd (by simp) (by simp) rfl
  | retire k _ r hd _ => exact .inside hd (by simp) (by simp) rfl
  | dismiss k _ r hd => exact .inside (e := .parting) hd (by simp) (by simp) duties_minded
  | part k _ _ hd _ => exact .inside hd (by simp) (by simp) rfl
  | finish k _ r c hd _ _ => exact .inside hd (by simp) (by simp) rfl
  | stopNext _ _ _ _ | turnAway _ _ _ _ _ _ | clearStart _ _ _ _ _ _ _ => exact .same duties_stopAttendant
  | enter _ _ _ _ _ _ => exact .same duties_track
  | _ => exact .same rfl

/-- How the duty of loop `k` comes about. -/
inductive DutyComes (s t : Server μ) (k : Nat) : Duty → Prop where
  | idle : DutyComes s t k .idle
  | opening (a : Address) : DutyComes s t k (.opening a)
  | called {r : Run} (outcome : Except IoError PeerId) (hr : s.dispatcher.runs[k]? = some r)
      (hp : r.phase = .accepted outcome) :
      DutyComes s t k (.ofCallback (Dispatcher.callbackOf outcome))
  | reopening (r : Nat) (a : Address) : DutyComes s t k (.reopening r a)
  | hiring (r : Nat) (a : Address) (hlow : t.closing = false) : DutyComes s t k (.hiring r a)
  | announcing (a : Address) : DutyComes s t k (.announcing a)
  | joining (peer : PeerId) (hd : s.duties[k]? = some (.admitting peer)) (hlow : s.closing = false) :
      DutyComes s t k (.joining peer)
  | founding (peer : PeerId) (r : Nat) (hd : s.duties[k]? = some (.joining peer)) :
      DutyComes s t k (.founding peer r)
  | starting {peer : PeerId} {r : Nat} (hd : s.duties[k]? = some (.founding peer r))
      (ht : t = (s.found peer r).turnTo k (.starting s.members.length)) :
      DutyComes s t k (.starting s.members.length)
  | retiring : DutyComes s t k .retiring
  | dismissing (r : Nat) : DutyComes s t k (.dismissing r)
  | parting : DutyComes s t k .parting
  | done : DutyComes s t k .done

/-- The duty of a loop is what it was, or comes about by a move of the loop. -/
theorem duty_from {d : Duty} (h : Access s m t) (hd : t.duties[k]? = some d) :
    s.duties[k]? = some d ∨ DutyComes s t k d := by
  have hset : ∀ {j : Nat} {e : Duty}, t.duties = s.duties.set j e → DutyComes s t j e →
      s.duties[k]? = some d ∨ DutyComes s t k d := by
    intro j e ht he
    rcases of_getElem?_set (ht ▸ hd) with ⟨-, hd⟩ | ⟨rfl, rfl⟩
    · exact .inl hd
    · exact .inr he
  cases h with
  | claim _ =>
      have hd' : (s.duties ++ [Duty.idle])[k]? = some d := hd
      rcases of_getElem?_concat hd' with hd' | ⟨-, rfl⟩
      · exact .inl hd'
      · exact .inr .idle
  | begin k r a _ _ => exact hset rfl (.opening a)
  | wait k r _ _ _ _ _ => exact hset rfl .idle
  | call k r outcome hr hp => exact hset rfl (.called outcome hr hp)
  | quit k r _ _ _ => exact hset rfl .retiring
  | leave k r _ _ => exact hset rfl .idle
  | openRound k _ a _ => exact hset rfl (.reopening _ a)
  | reopen k _ r a _ => exact hset rfl (.hiring r a rfl)
  | hire k _ r a _ => exact hset duties_minded (.announcing a)
  | announceStart k _ a _ _ _ => exact hset rfl .done
  | refuse k _ peer _ _ => exact hset rfl .done
  | welcome k _ peer hd' hc => exact hset rfl (.joining peer hd' hc)
  | miss k _ peer _ _ => exact hset rfl .done
  | join k _ peer r hd' _ => exact hset rfl (.founding peer r hd')
  | found k peer r hd' => exact hset rfl (.starting hd' rfl)
  | lose k peer r _ => exact hset rfl .done
  | started k _ a _ _ => exact hset rfl .done
  | reportFailure k _ e _ _ _ => exact hset rfl .done
  | retireNone k _ _ _ => exact hset rfl .parting
  | retire k _ r _ _ => exact hset rfl (.dismissing r)
  | dismiss k _ r _ => exact hset duties_minded .parting
  | part k _ _ _ _ => exact hset rfl .done
  | finish k _ r c _ _ _ => exact hset rfl .idle
  | stopNext _ _ _ _ | turnAway _ _ _ _ _ _ | clearStart _ _ _ _ _ _ _ =>
      exact .inl (duties_stopAttendant (s := s) ▸ hd)
  | enter _ _ _ _ _ _ => exact .inl (duties_track (s := s) ▸ hd)
  | _ => exact .inl hd

end Server
end Courier
