import Courier.Proofs.Dispatcher.Lifecycle
import Courier.Proofs.Server.Quiet
import Courier.Proofs.Server.Runs

/-!
# Stakes — at most one operation has to do with a run that is not over

An operation binds a run, then has the means to end it; the server keeps them, and a stop takes them up and uses them.
From a claim of the dispatcher until the request to end there is one such stake, and afterwards none: whoever claims the
dispatcher finds it idle, so that the run before is over and has been asked to end.

- `Server.Governed` — the dispatcher of a server is as one that is moved by itself,
- `Server.stakes`, `Server.stakes_of_access` — how many stakes there are,
- `Server.Sole`, `Server.sole_of_step` — there is at most one, in a run that has not been asked to end, and there is one
  in whichever such run has been bound,
- `Server.Sole.listening`, `Server.Sole.state_of_binding` — what the dispatcher owns meanwhile.
-/

namespace Courier

variable {μ : Type} [Marshaler μ]

/-! ## Runs that are bound -/

/-- A run whose loop begins has been bound before. -/
theorem Agenda.bound_of_begun {p q : Agenda} {k : Nat} (h : Turn p q) (hk : k ∈ q.begun) : p.Bound k := by
  -- any other callback than the first one of a run leaves alone who has begun
  have hlater : ∀ {j : Nat} {c : Callback}, (∀ a, c ≠ .started a) → k ∈ (p.call j c).begun → p.Bound k := by
    intro j c hc hk
    rw [begun_call, List.mem_append] at hk
    refine .inl (hk.resolve_right ?_)
    cases c <;> simp_all [Dispatcher.begins?]
  cases h with
  | begin j a hp =>
      rw [begun_call, List.mem_append] at hk
      rcases hk with hk | hk
      · exact .inl hk
      · obtain rfl : k = j := by simpa [Dispatcher.begins?] using hk
        exact .inr ⟨a, hp⟩
  | call j outcome _ => exact hlater (by cases outcome <;> simp [Dispatcher.callbackOf]) hk
  | quit j _ _ => exact hlater (by simp) hk
  | _ => exact .inl hk

/-! ## The dispatcher of a server -/

namespace Dispatcher

variable {now : Nat} {d e : Dispatcher} {m : Move}

/-- A run that binds has not been asked to end. -/
def Unasked (d : Dispatcher) : Prop :=
  ∀ (k : Nat) r, d.runs[k]? = some r → r.phase = .binding → r.closed = false

theorem unasked_of_turn (hd : d.Unasked) (h : Turn now d m e) : e.Unasked := by
  intro j q hj hp
  rcases stride_of_turn h with ⟨-, -, rfl⟩ | ⟨k, r, r', new, -, ha, hs, -⟩
  · have hj' : (d.runs ++ [({} : Run)])[j]? = some q := hj
    rcases of_getElem?_concat hj' with hj' | ⟨-, rfl⟩
    · exact hd j q hj' hp
    · rfl
  · by_cases hjk : j = k
    · subst hjk
      obtain rfl := Option.some.inj (ha.run_self.symm.trans hj)
      exact absurd hp hs.ne_binding
    · exact hd j q ((ha.run_of_ne hjk).symm.trans hj) hp

end Dispatcher

namespace Server

variable {s t : Server μ} {m : Move} {i j k : Nat} {run : Run} {c d : Server.Call}

/-- A move of an accept loop between its callbacks is one of the dispatcher. -/
theorem dispatcher_of_loop {n : Dispatcher.Move} (h : s.loop n = some t) :
    s.dispatcher.step s.now n = some t.dispatcher := by
  cases n <;> simp only [loop, Option.map_eq_some_iff, reduceCtorEq] at h
  all_goals
    obtain ⟨d, hd, rfl⟩ := h
    exact hd

/-- A move of a server moves its dispatcher as it moves by itself, or leaves it alone. -/
theorem dispatcher_of_step (h : s.step m = some t) :
    t.dispatcher = s.dispatcher ∨ ∃ n, Dispatcher.Turn s.now s.dispatcher n t.dispatcher := by
  cases access_of_step h with
  | claim hd => exact .inr ⟨_, .claim hd⟩
  | bound i k r a _ hr hp => exact .inr ⟨_, .bound k r a hr hp⟩
  | forgo i k r e _ hr hp => exact .inr ⟨_, .forgo k r hr hp⟩
  | close i k r _ hr hp => exact .inr ⟨_, .close k r hr hp⟩
  | begin k r a hr hp => exact .inr ⟨_, .begin k r a hr hp⟩
  -- the access leaves out that a pause is over, so that the move itself is looked at
  | wait _ _ n _ _ _ _ => exact .inr ⟨n, Dispatcher.turn_of_step (dispatcher_of_loop h)⟩
  | call k r outcome hr hp => exact .inr ⟨_, .call k r outcome hr hp⟩
  | quit k r hr hp hc => exact .inr ⟨_, .quit k r hr hp hc⟩
  | leave k r hr hp => exact .inr ⟨_, .leave k r hr hp⟩
  | finish k _ r c _ hr hp => exact .inr ⟨_, .finish k r c hr hp⟩
  | stopNext _ _ _ _ | turnAway _ _ _ _ _ _ | clearStart _ _ _ _ _ _ _ => exact .inl dispatcher_stopAttendant
  | enter _ _ _ _ _ _ => exact .inl dispatcher_track
  | hire _ _ _ _ _ | dismiss _ _ _ _ => exact .inl dispatcher_setRound
  | _ => exact .inl rfl

/-- What is so of every dispatcher is so of that of a server. -/
structure Governed (s : Server μ) : Prop where
  regular : ∃ ms, Dispatcher.Regular ms s.dispatcher
  unasked : s.dispatcher.Unasked

theorem governed_of_step (h : s.step m = some t) (hs : s.Governed) : t.Governed := by
  rcases dispatcher_of_step h with heq | ⟨n, hturn⟩
  · exact ⟨heq ▸ hs.regular, heq ▸ hs.unasked⟩
  · obtain ⟨ms, hms⟩ := hs.regular
    exact ⟨⟨_, Dispatcher.regular_of_turn hms hturn⟩, Dispatcher.unasked_of_turn hs.unasked hturn⟩

namespace Governed

/-- While a run binds, the dispatcher is its own. -/
theorem state_of_binding (hs : s.Governed) (hr : s.dispatcher.runs[k]? = some run) (hp : run.phase = .binding) :
    s.dispatcher.state = .binding := by
  obtain ⟨ms, hms⟩ := hs.regular
  obtain ⟨-, hstate⟩ := hms.owner k run hr (by simp [Run.isAlive, hp])
  cases hb : Dispatcher.boundAt? k ms with
  | none => rw [hstate, hb]; rfl
  | some a =>
      have htold := hms.told k run hr
      rw [hb] at htold
      exact absurd hp htold.ne_binding

/-- While a run loops, the dispatcher listens. -/
theorem listening (hs : s.Governed) (hr : s.dispatcher.runs[k]? = some run) (halive : run.isAlive = true)
    (hp : run.phase ≠ .binding) : ∃ a, s.dispatcher.state = .listening a := by
  obtain ⟨ms, hms⟩ := hs.regular
  obtain ⟨-, hstate⟩ := hms.owner k run hr halive
  have htold := hms.told k run hr
  cases hb : Dispatcher.boundAt? k ms with
  | some a => exact ⟨a, by rw [hstate, hb]; rfl⟩
  | none =>
      -- of a run that has not been bound nothing has been told, and it binds or is over
      rw [hb] at htold
      generalize Dispatcher.outcomesOf k ms = os, s.dispatcher.callsOf k = cs at htold
      cases htold with
      | binding hp' => exact absurd hp' hp
      | forgone hp' => simp [Run.isAlive, hp'] at halive

end Governed

/-! ## Stakes -/

/-- The run that an operation binds or holds the means to end. -/
def Call.stake? : Server.Call → Option Nat
  | .binding k => some k
  | c => c.run?

/-- How many operations, the server counted in, have to do with a run. -/
def stakes (s : Server μ) : Nat :=
  s.closer.toList.length + s.calls.countP (·.stake?.isSome)

/-- The server or an operation has to do with run `k`. -/
def Stakes (s : Server μ) (k : Nat) : Prop :=
  s.closer = some k ∨ ∃ (i : Nat) (c : Server.Call), s.calls[i]? = some c ∧ c.stake? = some k

theorem stake?_of_run? (h : c.run? = some k) : c.stake? = some k := by
  cases c <;> simp_all [Call.run?, Call.stake?]

theorem Holds.stakes (h : s.Holds k) : s.Stakes k := by
  rcases h with h | ⟨i, c, hc, hk⟩
  · exact .inl h
  · exact .inr ⟨i, c, hc, stake?_of_run? hk⟩

/-- A stake is in a run that binds, or is the means to end one. -/
theorem Stakes.cases (h : s.Stakes k) : s.Holds k ∨ ∃ i : Nat, s.calls[i]? = some (.binding k) := by
  rcases h with h | ⟨i, c, hc, hk⟩
  · exact .inl (.inl h)
  · cases c with
    | binding l =>
        obtain rfl := Option.some.inj hk
        exact .inr ⟨i, hc⟩
    | _ => exact .inl (.inr ⟨i, _, hc, hk⟩)

theorem countP_stake_pos (hc : s.calls[i]? = some c) (hstake : c.stake?.isSome = true) :
    0 < s.calls.countP (·.stake?.isSome) :=
  List.countP_pos_iff.2 ⟨c, List.mem_of_getElem? hc, hstake⟩

theorem stakes_pos (h : s.Stakes k) : 0 < s.stakes := by
  unfold stakes
  rcases h with h | ⟨i, c, hc, hk⟩
  · simp only [h, Option.toList_some, List.length_singleton]
    omega
  · have hpos := countP_stake_pos hc (by simp [hk])
    omega

theorem stakes_eq_zero (h : ∀ k, ¬ s.Stakes k) : s.stakes = 0 := by
  have hcloser : s.closer = none := Option.eq_none_iff_forall_ne_some.2 fun k hk => h k (.inl hk)
  have hcalls : s.calls.countP (·.stake?.isSome) = 0 := by
    refine List.countP_eq_zero.2 fun c hc hsome => ?_
    obtain ⟨i, hi⟩ := List.mem_iff_getElem?.1 hc
    obtain ⟨k, hk⟩ := Option.isSome_iff_exists.1 hsome
    exact h k (.inr ⟨i, c, hi, hk⟩)
  simp [stakes, hcloser, hcalls]

/-- What it does to the stakes that an operation goes on. -/
theorem stakes_setCall {u : Server μ} (hc : s.calls[i]? = some c) (hcalls : u.calls = s.calls) :
    (u.setCall i d).stakes + (if c.stake?.isSome then 1 else 0) + s.closer.toList.length =
      s.stakes + (if d.stake?.isSome then 1 else 0) + u.closer.toList.length := by
  have hcount := countP_set_add (p := fun c : Server.Call => c.stake?.isSome) (y := d) hc
  have hset : (u.setCall i d).stakes =
      u.closer.toList.length + (s.calls.set i d).countP (·.stake?.isSome) := by
    rw [← hcalls]
    rfl
  rw [hset, stakes]
  omega

/-- An operation that neither gains nor gives up a stake leaves their number alone. -/
theorem stakes_setCall_eq {u : Server μ} (hc : s.calls[i]? = some c) (hcalls : u.calls = s.calls)
    (hcloser : u.closer = s.closer) (hd : d.stake?.isSome = c.stake?.isSome) : (u.setCall i d).stakes = s.stakes := by
  have hset := stakes_setCall (d := d) hc hcalls
  rw [hcloser, hd] at hset
  omega

theorem stakes_setCall_lt {u : Server μ} (hc : s.calls[i]? = some c) (hcalls : u.calls = s.calls)
    (hcloser : u.closer = s.closer) (hstake : c.stake?.isSome = true) (hd : d.stake?.isSome = false) :
    (u.setCall i d).stakes < s.stakes := by
  have hset := stakes_setCall (d := d) hc hcalls
  simp only [hcloser, hstake, hd, if_true, Bool.false_eq_true, if_false] at hset
  omega

/-- A request to end a run uses the stake in it up. -/
theorem stakes_of_closing (h : Access s (.advance i) t) (hc : s.calls[i]? = some (.closing k)) :
    t.stakes < s.stakes := by
  cases h with
  | close _ l r hc' hr hp => exact stakes_setCall_lt hc' rfl rfl rfl rfl
  | refuseStop _ _ hm _ | beginStop _ _ _ hm _ | poise _ _ _ _ _ hm _ _ => simp at hm
  | keep _ _ hc' | bar _ _ hc' | empty _ hc' | finishStop _ hc' | stopNext _ _ _ hc' => simp [hc] at hc'

/-- Stakes pass from one to another, and only a claim of an idle dispatcher adds one. -/
theorem stakes_of_access (h : Access s m t) :
    t.stakes ≤ s.stakes ∨ s.dispatcher.state = .idle ∧ t.stakes = s.stakes + 1 := by
  cases h with
  | claim hd => exact .inr ⟨hd, by simp [stakes, record, Call.stake?, Nat.add_assoc]⟩
  | refuseRun _ | refuseStop _ _ _ _ =>
      exact .inl (Nat.le_of_eq (by simp [stakes, record, Call.stake?, Call.run?]))
  | beginStop _ _ k _ hk =>
      refine .inl (Nat.le_of_eq ?_)
      simp [stakes, record, Call.stake?, Call.run?, hk, Nat.add_comm]
  | bound _ _ _ _ hc _ _ | bar _ _ hc | empty _ hc | finishStop _ hc =>
      exact .inl (Nat.le_of_eq (stakes_setCall_eq hc rfl rfl rfl))
  | forgo i k r e hc _ _ => exact .inl (Nat.le_of_lt (stakes_setCall_lt hc rfl rfl rfl rfl))
  | keep i k hc =>
      -- the run gives up its stake, and the server may have held one already, which it then loses
      have hset := stakes_setCall (d := .ran (.ok ())) (u := { s with closer := some k }) hc rfl
      simp only [Call.stake?, Call.run?, Option.isSome_some, Option.isSome_none, if_true, Bool.false_eq_true, if_false,
        Option.toList_some, List.length_singleton] at hset
      omega
  | close i k r hc hr hp => exact .inl (Nat.le_of_lt (stakes_of_closing (.close i k r hc hr hp) hc))
  | stopNext i a left hc =>
      exact .inl (Nat.le_of_eq (stakes_setCall_eq hc calls_stopAttendant closer_stopAttendant rfl))
  | turnAway _ _ _ _ _ _ | clearStart _ _ _ _ _ _ _ => exact .inl (by simp [stakes, setRegister])
  | enter _ _ _ _ _ _ => exact .inl (by simp [stakes, setRegister])
  | hire _ _ _ _ _ | dismiss _ _ _ _ => exact .inl (by simp [stakes, turnTo])
  | _ => exact .inl (Nat.le_refl _)

/-! ## One stake -/

/-- There is at most one stake.  It is in a run that binds or has been bound, and that has not been asked to end.
No run that has been bound goes without before it is asked to. -/
structure Sole (s : Server μ) : Prop where
  governed : s.Governed
  one : s.stakes ≤ 1
  binding : ∀ (i : Nat) k, s.calls[i]? = some (.binding k) →
    ∃ run, s.dispatcher.runs[k]? = some run ∧ run.phase = .binding
  unasked : ∀ k, s.Holds k → s.dispatcher.isClosed k = false
  held : ∀ k, s.agenda.Bound k → s.dispatcher.isClosed k = false → s.Holds k

namespace Sole

/-- Two operations that have to do with runs are the same. -/
theorem eq_of_stakes (hs : s.Sole) (hi : s.calls[i]? = some c) (hc : c.stake?.isSome = true)
    (hj : s.calls[j]? = some d) (hd : d.stake?.isSome = true) : i = j :=
  eq_of_countP_le_one (Nat.le_trans (Nat.le_add_left _ _) hs.one) hi hc hj hd

/-- While an operation has to do with a run, the server holds no means to end one. -/
theorem closer_eq_none (hs : s.Sole) (hc : s.calls[i]? = some c) (hstake : c.stake?.isSome = true) :
    s.closer = none := by
  have hpos := countP_stake_pos hc hstake
  have hone := hs.one
  unfold stakes at hone
  cases hk : s.closer with
  | none => rfl
  | some k =>
      simp only [hk, Option.toList_some, List.length_singleton] at hone
      omega

/-- A run that somebody has the means to end is not over. -/
theorem alive_of_holds (hs : s.Sole) (hl : s.agenda.Lawful) (hp : s.Parted) (he : s.Engaged) (hk : s.Holds k) :
    ∃ run, s.dispatcher.runs[k]? = some run ∧ run.phase ≠ .binding ∧ run.phase ≠ .finished := by
  obtain ⟨phase, hphase, hne⟩ := (he.bound k hk).phase hl
  obtain ⟨run, hr, rfl⟩ := run_at hphase
  refine ⟨run, hr, hne, fun hfin => ?_⟩
  rw [hfin] at hphase
  rcases he.bound k hk with hbegun | ⟨a, ha⟩
  · -- it would have ended, and no loop ends before it is asked to
    have hasked := hp.asked k ((hl.passed k hphase).published hbegun).1
    simp [hs.unasked k hk] at hasked
  · simp [hphase] at ha

theorem alive (hs : s.Sole) (hl : s.agenda.Lawful) (hp : s.Parted) (he : s.Engaged) (hk : s.Stakes k) :
    ∃ run, s.dispatcher.runs[k]? = some run ∧ run.phase ≠ .finished := by
  rcases hk.cases with hk | ⟨i, hi⟩
  · obtain ⟨run, hr, -, hfin⟩ := hs.alive_of_holds hl hp he hk
    exact ⟨run, hr, hfin⟩
  · obtain ⟨run, hr, hphase⟩ := hs.binding i k hi
    exact ⟨run, hr, by simp [hphase]⟩

end Sole

/-! ## What a move does to the stake -/

/-- How operation `i` comes to a point where it is. -/
inductive CallComes (s : Server μ) (m : Move) (t : Server μ) (i : Nat) : Server.Call → Prop where
  | binding (k : Nat) (hr : t.dispatcher.runs[k]? = some {}) : CallComes s m t i (.binding k)
  | keeping (k : Nat) (a : Address) (hm : m = .bind i (.ok a)) : CallComes s m t i (.keeping k)
  | other {c : Server.Call} (hb : ∀ k, c ≠ .binding k) (hk : ∀ k, c ≠ .keeping k) : CallComes s m t i c

/-- An operation has been at its point before, or comes to it. -/
theorem call_from (h : Access s m t) (hc : t.calls[i]? = some c) : s.calls[i]? = some c ∨ CallComes s m t i c := by
  have hadd : ∀ {d : Server.Call}, t.calls = s.calls ++ [d] → CallComes s m t s.calls.length d →
      s.calls[i]? = some c ∨ CallComes s m t i c := by
    intro d ht hd
    rcases of_getElem?_concat (ht ▸ hc) with hc | ⟨rfl, rfl⟩
    · exact .inl hc
    · exact .inr hd
  have hset : ∀ {j : Nat} {d : Server.Call}, t.calls = s.calls.set j d → CallComes s m t j d →
      s.calls[i]? = some c ∨ CallComes s m t i c := by
    intro j d ht hd
    rcases of_getElem?_set (ht ▸ hc) with ⟨-, hc⟩ | ⟨rfl, rfl⟩
    · exact .inl hc
    · exact .inr hd
  cases h with
  | claim _ => exact hadd rfl (.binding _ List.getElem?_concat_length)
  | refuseRun _ | refuseStop _ _ _ _ | beginStop _ _ _ _ _ => exact hadd rfl (.other (by simp) (by simp))
  | bound i k r a _ _ _ => exact hset rfl (.keeping k a rfl)
  | forgo _ _ _ _ _ _ _ | keep _ _ _ | bar _ _ _ | close _ _ _ _ _ _ | empty _ _ | finishStop _ _ =>
      exact hset rfl (.other (by simp) (by simp))
  | stopNext i a left _ => exact hset calls_stopNext (.other (by simp) (by simp))
  | turnAway _ _ _ _ _ _ | clearStart _ _ _ _ _ _ _ => exact .inl (calls_stopAttendant (s := s) ▸ hc)
  | enter _ _ _ _ _ _ => exact .inl (calls_track (s := s) ▸ hc)
  | hire _ _ _ _ _ | dismiss _ _ _ _ => exact .inl (calls_setRound (s := s) ▸ hc)
  | _ => exact .inl hc

/-- An operation that binds a run has done so before, or has just claimed the dispatcher for it. -/
theorem binding_from (h : Access s m t) (hc : t.calls[i]? = some (.binding k)) :
    s.calls[i]? = some (.binding k) ∨ t.dispatcher.runs[k]? = some {} := by
  rcases call_from h hc with hc' | hcomes
  · exact .inl hc'
  · cases hcomes with
    | binding _ hr => exact .inr hr
    | other hb _ => exact absurd rfl (hb k)

/-- A run binds until the operation that binds it goes on. -/
theorem binding_to (h : Access s m t) (hr : s.dispatcher.runs[k]? = some run) (hp : run.phase = .binding) :
    t.dispatcher.runs[k]? = some run ∨
      ∃ (i : Nat) (c : Server.Call), s.calls[i]? = some (.binding k) ∧ t.calls[i]? = some c ∧ c ≠ .binding k := by
  have hsame : t.dispatcher = s.dispatcher → t.dispatcher.runs[k]? = some run := fun ht => ht ▸ hr
  have hset : ∀ {j : Nat} {q : Run}, t.dispatcher.runs = s.dispatcher.runs.set j q → j ≠ k →
      t.dispatcher.runs[k]? = some run := by
    intro j q ht hjk
    rw [ht, List.getElem?_set_ne hjk, hr]
  -- a run that has been bound makes the other moves
  have hmoved : ∀ {j : Nat} {q q' : Run}, t.dispatcher.runs = s.dispatcher.runs.set j q' →
      s.dispatcher.runs[j]? = some q → q.phase ≠ .binding → t.dispatcher.runs[k]? = some run := by
    intro j q q' ht hq hphase
    refine hset ht ?_
    rintro rfl
    exact hphase (Option.some.inj (hq.symm.trans hr) ▸ hp)
  cases h with
  | claim _ => exact .inl (Agenda.getElem?_of_front (List.prefix_append ..) hr)
  | bound i j r a hc _ _ | forgo i j r e hc _ _ =>
      by_cases hjk : j = k
      · obtain rfl := hjk
        obtain ⟨hlt, -⟩ := List.getElem?_eq_some_iff.1 hc
        exact .inr ⟨i, _, hc, List.getElem?_set_self hlt, by simp⟩
      · exact .inl (hset rfl hjk)
  | close i j r _ hr' hp' => exact .inl (hmoved rfl hr' hp')
  | begin j r a hr' hp' => exact .inl (hmoved rfl hr' (by simp [hp']))
  | wait j r _ _ hr' hw _ => exact .inl (hmoved rfl hr' (Run.Phase.ne_of_isBetween hw.isBetween.1 rfl))
  | call j r outcome hr' hp' => exact .inl (hmoved rfl hr' (by simp [hp']))
  | quit j r hr' hp' _ => exact .inl (hmoved rfl hr' (by rcases hp' with hp' | ⟨_, hp'⟩ <;> simp [hp']))
  | leave j r hr' hp' => exact .inl (hmoved rfl hr' (by simp [hp']))
  | finish j _ r c _ hr' hp' => exact .inl (hmoved rfl hr' (by simp [hp']))
  | stopNext _ _ _ _ | turnAway _ _ _ _ _ _ | clearStart _ _ _ _ _ _ _ => exact .inl (hsame dispatcher_stopAttendant)
  | enter _ _ _ _ _ _ => exact .inl (hsame dispatcher_track)
  | hire _ _ _ _ _ | dismiss _ _ _ _ => exact .inl (hsame dispatcher_setRound)
  | _ => exact .inl hr

/-- A run that is bound has been so before, or the operation that has bound it is about to keep the means to end
it. -/
theorem bound_from (h : Access s m t) (hk : t.agenda.Bound k) :
    s.agenda.Bound k ∨ ∃ i : Nat, t.calls[i]? = some (.keeping k) := by
  rcases hk with hk | ⟨p, hp⟩
  · rcases turn_of_access h with heq | hturn
    · exact .inl (.inl (heq ▸ hk))
    · exact .inl (Agenda.bound_of_begun hturn hk)
  · -- its loop has not begun yet, so that it has been about to, or has just been bound
    obtain ⟨run', hr', hphase⟩ := run_at hp
    rcases (runs_of_access h).run_from hr' with rfl | ⟨run, hr, rfl | hgoes⟩
    · simp at hphase
    · exact .inl (.inr ⟨p, phase_of_run hr hphase⟩)
    · cases hgoes with
      | bound _ _ hc => exact .inr ⟨_, hc⟩
      | began _ _ => simp at hphase
      | moved _ _ hto _ => exact absurd hphase (hto p)
      | asked _ _ => exact .inl (.inr ⟨p, phase_of_run hr hphase⟩)

/-! ## The invariant -/

namespace Sole

theorem one_of_access (hs : s.Sole) (h : Access s m t) (hl : s.agenda.Lawful) (hp : s.Parted) (he : s.Engaged) :
    t.stakes ≤ 1 := by
  rcases stakes_of_access h with hle | ⟨hidle, heq⟩
  · exact Nat.le_trans hle hs.one
  · -- an idle dispatcher means that every run is over
    have hnone : s.stakes = 0 := by
      refine stakes_eq_zero fun k hk => ?_
      obtain ⟨run, hr, hne⟩ := hs.alive hl hp he hk
      obtain ⟨-, -, hstate, -⟩ := hl.stand_of_phase (phase_at hr) hne
      exact hstate hidle
    omega

theorem binding_of_access (hs : s.Sole) (h : Access s m t)
    (hc : t.calls[i]? = some (.binding k)) : ∃ run, t.dispatcher.runs[k]? = some run ∧ run.phase = .binding := by
  rcases binding_from h hc with hc' | hnew
  · obtain ⟨run, hr, hphase⟩ := hs.binding i k hc'
    rcases binding_to h hr hphase with hr' | ⟨j, d, hj, hd, hne⟩
    · exact ⟨run, hr', hphase⟩
    · -- the operation that has gone on is this one
      obtain rfl := hs.eq_of_stakes hc' rfl hj rfl
      exact absurd (Option.some.inj (hd.symm.trans hc)) hne
  · exact ⟨{}, hnew, rfl⟩

theorem unasked_of_access (hs : s.Sole) (h : Access s m t) (hone : t.stakes ≤ 1) (hk : t.Holds k) :
    t.dispatcher.isClosed k = false := by
  refine Bool.eq_false_iff.2 fun hclosed => ?_
  rcases isClosed_from h hclosed with hclosed' | ⟨i, rfl, hi⟩
  · rcases holds_of_access h hk with hk' | ⟨⟨i, hi⟩, -⟩
    · simp [hs.unasked k hk'] at hclosed'
    · obtain ⟨run, hr, hphase⟩ := hs.binding i k hi
      rw [isClosed_eq hr, hs.governed.unasked k run hr hphase] at hclosed'
      exact absurd hclosed' (by simp)
  · -- the request to end has used the only stake up
    have hlt := stakes_of_closing h hi
    have hpos := stakes_pos hk.stakes
    have hle := hs.one
    omega

/-- The means to end a run are passed on until the run is asked to end. -/
theorem holds_to (hs : s.Sole) (h : Access s m t) (hk : s.Holds k) : t.Holds k ∨ t.dispatcher.isClosed k = true := by
  rcases hk with hk | ⟨i, c, hc, hrun⟩
  · -- the server keeps them, and a stop takes them up
    rcases closer_of_access h with heq | ⟨j, hj, -, ht⟩ | ⟨i, j, hi, -⟩
    · exact .inl (.inl (heq.trans hk))
    · obtain rfl := Option.some.inj (hk.symm.trans hj)
      exact .inl (.inr ⟨s.calls.length, .barring k, by rw [ht, List.getElem?_concat_length], rfl⟩)
    · simp [hs.closer_eq_none hi rfl] at hk
  · -- an operation has them, and puts them down or uses them
    obtain ⟨c', hc', rfl | hgoes⟩ := (calls_of_access h).call_to hc
    · exact .inl (.inr ⟨i, c', hc', hrun⟩)
    · cases hgoes with
      | keep l hput =>
          obtain rfl := Option.some.inj hrun
          exact .inl (.inl hput)
      | bar l _ => exact .inl (.inr ⟨i, .closing l, hc', hrun⟩)
      | close l hasked =>
          obtain rfl := Option.some.inj hrun
          exact .inr hasked
      | _ => simp [Call.run?] at hrun

theorem held_of_access (hs : s.Sole) (h : Access s m t) (hk : t.agenda.Bound k)
    (hopen : t.dispatcher.isClosed k = false) : t.Holds k := by
  rcases bound_from h hk with hk' | ⟨i, hi⟩
  · have hopen' : s.dispatcher.isClosed k = false :=
      Bool.eq_false_iff.2 fun hclosed => by simp [isClosed_of_access h hclosed] at hopen
    exact (hs.holds_to h (hs.held k hk' hopen')).resolve_right (by simp [hopen])
  · exact .inr ⟨i, _, hi, rfl⟩

/-- While the means to end run `k` are held, the dispatcher listens for it. -/
theorem listening (hs : s.Sole) (hl : s.agenda.Lawful) (hp : s.Parted) (he : s.Engaged) (hk : s.Holds k) :
    (∃ a, s.dispatcher.state = .listening a) ∧ ∃ run, s.dispatcher.runs[k]? = some run ∧ run.closed = false ∧
      run.phase ≠ .binding ∧ run.phase ≠ .finished := by
  obtain ⟨run, hr, hbound, hfin⟩ := hs.alive_of_holds hl hp he hk
  refine ⟨hs.governed.listening hr (by simpa [Run.isAlive] using hfin) hbound, run, hr, ?_, hbound, hfin⟩
  rw [← isClosed_eq hr]
  exact hs.unasked k hk

end Sole

theorem sole_of_step (h : s.step m = some t) (hl : s.agenda.Lawful) (hp : s.Parted) (he : s.Engaged) (hs : s.Sole) :
    t.Sole := by
  have haccess := access_of_step h
  have hone := hs.one_of_access haccess hl hp he
  exact ⟨governed_of_step h hs.governed, hone, fun _ _ hc => hs.binding_of_access haccess hc,
    fun _ hk => hs.unasked_of_access haccess hone hk, fun _ hk hopen => hs.held_of_access haccess hk hopen⟩

/-- The consumer does not come near the stakes. -/
theorem sole_of_drained {o : Outlets} (hs : s.Sole) : ({ s with outlets := o } : Server μ).Sole :=
  ⟨⟨hs.governed.regular, hs.governed.unasked⟩, hs.one, hs.binding, hs.unasked, hs.held⟩

theorem sole_of_build {b : Builder μ} (h : b.build = .ok s) : s.Sole := by
  obtain ⟨codec, config, rfl⟩ := eq_of_build h
  refine ⟨⟨⟨[], Dispatcher.regular_start⟩, ?_⟩, ?_, ?_, ?_, ?_⟩
  · simp [Dispatcher.Unasked]
  · simp [stakes]
  · simp
  · simp [Dispatcher.isClosed]
  · simp [agenda, Agenda.Bound, Agenda.begun]

end Server
end Courier
