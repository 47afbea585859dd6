import Courier.Proofs.Server.Callers

/-!
# Stop — what a stop of a run brings about

A stop raises the flag that refuses connections, asks the run to end, empties the set and stops whom it has found
there.  Meanwhile everything else goes on.

- `Server.Halts`, `Server.halts_of_access` — how far the stop of a run has come, and that it is heeded,
- `Agenda.Underway`, `Server.raised_of_access` — the flag stays raised unless a run lowers it,
- `Agenda.Past`, `Server.spared_of_access` — room for the report of the end is kept for the run.
-/

namespace Courier

variable {μ : Type} [Marshaler μ]

namespace Server.Call

/-- Whether a stop has asked the run to end. -/
def isEnding : Server.Call → Bool
  | .emptying => true
  | .stopping _ => true
  | .halted (.ok _) => true
  | _ => false

end Server.Call

/-! ## Requests to end -/

namespace Server

variable {s t : Server μ} {m : Move} {i j k : Nat}

theorem isClosed_eq {run : Run} (hr : s.dispatcher.runs[k]? = some run) : s.dispatcher.isClosed k = run.closed := by
  simp only [Dispatcher.isClosed, hr]

/-- A request to end is never taken back. -/
theorem isClosed_of_access (h : Access s m t) (hk : s.dispatcher.isClosed k = true) :
    t.dispatcher.isClosed k = true := by
  cases hr : s.dispatcher.runs[k]? with
  | none => simp [Dispatcher.isClosed, hr] at hk
  | some run =>
      rw [isClosed_eq hr] at hk
      obtain ⟨run', hr', rfl | hgoes⟩ := (runs_of_access h).run_to hr
      · rw [isClosed_eq hr', hk]
      · rw [isClosed_eq hr']
        cases hgoes with
        | asked _ _ => rfl
        | _ => exact hk

/-- A run has been asked to end before, or a stop asks it to. -/
theorem isClosed_from (h : Access s m t) (hk : t.dispatcher.isClosed k = true) :
    s.dispatcher.isClosed k = true ∨ ∃ i, m = .advance i ∧ s.calls[i]? = some (.closing k) := by
  cases hr' : t.dispatcher.runs[k]? with
  | none => simp [Dispatcher.isClosed, hr'] at hk
  | some run' =>
      rw [isClosed_eq hr'] at hk
      rcases (runs_of_access h).run_from hr' with rfl | ⟨run, hr, rfl | hgoes⟩
      · simp at hk
      · exact .inl ((isClosed_eq hr).trans hk)
      · cases hgoes with
        | asked hm hc => exact .inr ⟨_, hm, hc⟩
        | _ => exact .inl ((isClosed_eq hr).trans hk)

/-! ## The stop -/

/-- How far operation `i`, a stop of run `k`, has come. -/
inductive Halts (s : Server μ) (i k : Nat) : Prop where
  | barring (hc : s.calls[i]? = some (.barring k))
  | closing (hc : s.calls[i]? = some (.closing k))
  | ending {c : Server.Call} (hc : s.calls[i]? = some c) (he : c.isEnding = true)
      (hk : s.dispatcher.isClosed k = true)

/-- Every move leaves the stop on its way. -/
theorem halts_of_access (h : Access s m t) (hs : s.Halts i k) : t.Halts i k := by
  have hcalls := calls_of_access h
  have hclosed := isClosed_of_access (k := k) h
  cases hs with
  | barring hc =>
      obtain ⟨c', hc', rfl | hgoes⟩ := hcalls.call_to hc
      · exact .barring hc'
      · cases hgoes with
        | bar _ _ => exact .closing hc'
  | closing hc =>
      obtain ⟨c', hc', rfl | hgoes⟩ := hcalls.call_to hc
      · exact .closing hc'
      · cases hgoes with
        | close _ hasked => exact .ending hc' rfl hasked
  | ending hc he hk =>
      obtain ⟨c', hc', rfl | hgoes⟩ := hcalls.call_to hc
      · exact .ending hc' he (hclosed hk)
      · cases hgoes with
        | empty _ => exact .ending hc' rfl (hclosed hk)
        | finish => exact .ending hc' rfl (hclosed hk)
        | next a left _ => exact .ending hc' rfl (hclosed hk)
        | _ => simp [Call.isEnding] at he

end Server

/-! ## The flag -/

namespace Agenda

/-- No run is about to lower the flag that refuses connections. -/
structure Underway (p : Agenda) : Prop where
  phases : ∀ (j : Nat) phase, p.phases[j]? = some phase → phase ≠ .binding ∧ ∀ a, phase ≠ .spawned a
  duties : ∀ (j : Nat) duty, p.duties[j]? = some duty →
    (∀ a, duty ≠ .opening a) ∧ ∀ r a, duty ≠ .reopening r a

variable {p q : Agenda}

theorem Underway.move (h : p.Underway) {k : Nat} (phase : Run.Phase) {duty : Duty}
    (hphases : q.phases = p.phases ∨ q.phases = p.phases.set k phase)
    (hp : phase ≠ .binding ∧ ∀ a, phase ≠ .spawned a) (hduties : q.duties = p.duties.set k duty)
    (hd : (∀ a, duty ≠ .opening a) ∧ ∀ r a, duty ≠ .reopening r a) : q.Underway := by
  refine ⟨?_, ?_⟩
  · rcases hphases with hphases | hphases
    · rw [hphases]
      exact h.phases
    · rw [hphases]
      exact Server.forall_set h.phases hp
  · rw [hduties]
    exact Server.forall_set h.duties hd

/-- Unless another run is begun, no run comes to lower the flag. -/
theorem underway_of_turn (h : Turn p q) (hlen : q.duties.length = p.duties.length) (hp : p.Underway) :
    q.Underway := by
  have hturn : ∀ {k : Nat} {duty : Duty}, ((∀ a, duty ≠ .opening a) ∧ ∀ r a, duty ≠ .reopening r a) →
      q.phases = p.phases → q.duties = p.duties.set k duty → q.Underway :=
    fun hd hphases hduties => hp.move .polling (.inl hphases) (by simp) hduties hd
  -- whoever would come to lower the flag has a listener to bind, or is about to begin: there is no such run
  cases h with
  | claim _ => simp at hlen
  | bound k a hk => exact absurd rfl (hp.phases k _ hk).1
  | forgo k hk => exact absurd rfl (hp.phases k _ hk).1
  | begin k a hk => exact absurd rfl ((hp.phases k _ hk).2 a)
  | wait k hw _ =>
      have hne : ∀ {phase : Run.Phase}, phase.isBetween = false → _ ≠ phase :=
        Run.Phase.ne_of_isBetween hw.isBetween.2
      exact hp.move _ (.inr rfl) ⟨hne rfl, fun _ => hne rfl⟩ rfl (by simp)
  | call k outcome _ =>
      refine hp.move _ (.inr rfl) (by simp) rfl ?_
      cases outcome <;> simp [Dispatcher.callbackOf, Duty.ofCallback]
  | quit k _ _ => exact hp.move _ (.inr rfl) (by simp) rfl (by simp [Duty.ofCallback])
  | leave k _ => exact hp.move _ (.inr rfl) (by simp) rfl (by simp)
  | openRound k a hd => exact absurd rfl ((hp.duties k _ hd).1 a)
  | hire k r a _ => exact hturn (by simp) rfl rfl
  | work k hw hd =>
      refine hturn ?_ rfl rfl
      cases hw <;> simp
  | miss k peer _ _ => exact hturn (by simp) rfl rfl
  | join k peer r _ _ => exact hturn (by simp) rfl rfl
  | retireNone k _ _ => exact hturn (by simp) rfl rfl
  | retire k r _ _ => exact hturn (by simp) rfl rfl
  | dismiss k r _ => exact hturn (by simp) rfl rfl
  | part k _ => exact hturn (by simp) rfl rfl
  | finish k now c _ _ =>
      refine hp.move _ (.inr rfl) ?_ rfl (by simp)
      cases c <;> simp [Dispatcher.phaseAfter]
  | forget => exact ⟨hp.phases, hp.duties⟩

end Agenda

namespace Server

variable {s t : Server μ} {m : Move} {i j k : Nat}

theorem duties_length_of_access (h : Access s m t) (hm : m ≠ .run) : t.duties.length = s.duties.length := by
  cases h with
  | claim _ => exact absurd rfl hm
  | _ => simp [record, setCall, proceed, turnTo, setRegister, setPoised, found, untrack]

/-- The flag is lowered by a run that has just been bound, and by nobody else. -/
theorem closing_or_reopening (h : Access s m t) (hc : s.closing = true) :
    t.closing = true ∨ ∃ k intact r a, m = .work k intact ∧ s.duties[k]? = some (.reopening r a) ∧
      t = { s with closing := false }.turnTo k (.hiring r a) := by
  cases h with
  | bar _ _ _ => exact .inl rfl
  | reopen k intact r a hd => exact .inr ⟨k, intact, r, a, rfl, hd, rfl⟩
  | stopNext _ _ _ _ | turnAway _ _ _ _ _ _ | clearStart _ _ _ _ _ _ _ | enter _ _ _ _ _ _ | hire _ _ _ _ _
  | dismiss _ _ _ _ => exact .inl (by simpa [setCall, setRegister, turnTo] using hc)
  | _ => exact .inl hc

theorem closing_of_access (h : Access s m t) (hs : s.agenda.Underway) (hc : s.closing = true) :
    t.closing = true := by
  refine (closing_or_reopening h hc).resolve_right ?_
  rintro ⟨k, -, r, a, -, hd, -⟩
  exact (hs.duties k _ hd).2 r a rfl

/-- No run is about to lower the flag, and operation `i`, a stop of run `k`, has raised it or is about to. -/
structure Raised (s : Server μ) (i k : Nat) : Prop where
  underway : s.agenda.Underway
  flag : s.calls[i]? = some (.barring k) ∨ s.closing = true

/-- A stop that has the flag to raise stays there until it has. -/
theorem barring_of_access (h : Access s m t) (hi : s.calls[i]? = some (.barring k)) :
    t.calls[i]? = some (.barring k) ∨ t.closing = true := by
  obtain ⟨c, hc, rfl | hgoes⟩ := (calls_of_access h).call_to hi
  · exact .inl hc
  · cases hgoes with
    | bar _ hraised => exact .inr hraised

theorem raised_of_access (h : Access s m t) (hm : m ≠ .run) (hs : s.Raised i k) : t.Raised i k where
  underway := by
    rcases turn_of_access h with heq | hturn
    · rw [heq]
      exact hs.underway
    · exact Agenda.underway_of_turn hturn (duties_length_of_access h hm) hs.underway
  flag := by
    rcases hs.flag with hflag | hflag
    · exact barring_of_access h hflag
    · exact .inr (closing_of_access h hs.underway hflag)

end Server

/-! ## Room for the report of the end -/

namespace Agenda

/-- Run `k` has reported its end. -/
def Past (p : Agenda) (k : Nat) : Prop :=
  p.phases[k]? = some .finished ∨ p.phases[k]? = some .leaving ∨
    p.phases[k]? = some (.calling .stopped) ∧ p.duties[k]? = some .done

variable {p q : Agenda} {j k : Nat} {phase phase' : Run.Phase} {duty duty' : Duty}

/-- A run that is over, or about to leave, has nothing to do inside a callback. -/
theorem Past.duty_eq (h : p.Past k) (hl : p.Lawful) (hd : p.duties[k]? = some duty) :
    duty = .idle ∨ p.phases[k]? = some (.calling .stopped) ∧ duty = .done := by
  rcases h with h | h | ⟨h, h'⟩
  · exact .inl (Option.some.inj (hd.symm.trans (hl.passed k h).idle))
  · obtain ⟨duty', hd', -, hstand⟩ := hl.stand_of_phase h (by simp)
    obtain rfl := Option.some.inj (hd.symm.trans hd')
    cases hstand with
    | waiting hw _ _ _ _ => simp at hw
    | opens ho _ _ _ _ => cases ho
    | leaving hlv _ _ _ _ _ _ =>
        rcases hlv with ⟨hp, -⟩ | ⟨-, rfl⟩
        · simp at hp
        · exact .inl rfl
  · exact .inr ⟨h, Option.some.inj (hd.symm.trans h')⟩

/-- What happens to another run does not matter to one that is past its end. -/
theorem Past.of_eq (h : p.Past k) (hphases : q.phases[k]? = p.phases[k]?)
    (hduties : q.duties[k]? = p.duties[k]?) : q.Past k := by
  unfold Past
  rw [hphases, hduties]
  exact h

/-- A run whose loop works on something else than the end of its last callback is not past its end. -/
theorem Past.ne_of_duty (h : p.Past k) (hl : p.Lawful) (hd : p.duties[j]? = some duty)
    (hi : duty ≠ .idle) (hdone : duty ≠ .done) : j ≠ k := by
  rintro rfl
  rcases h.duty_eq hl hd with hidle | ⟨-, hd'⟩
  · exact hi hidle
  · exact hdone hd'

theorem Past.ne_of_phase (h : p.Past k) (hp : p.phases[j]? = some phase) (hf : phase ≠ .finished)
    (hlv : phase ≠ .leaving) (hc : phase ≠ .calling .stopped) : j ≠ k := by
  rintro rfl
  rcases h with h | h | ⟨h, -⟩
  · exact hf (Option.some.inj (hp.symm.trans h))
  · exact hlv (Option.some.inj (hp.symm.trans h))
  · exact hc (Option.some.inj (hp.symm.trans h))

/-- A run that has reported its end goes nowhere but on to be over. -/
theorem past_of_turn (h : Turn p q) (hl : p.Lawful) (hk : p.Past k) : q.Past k := by
  -- a run that is not past its end goes on
  have hmove : ∀ {j : Nat} {phase : Run.Phase} {duty : Duty}, j ≠ k → q.phases = p.phases.set j phase →
      q.duties = p.duties.set j duty → q.Past k := by
    intro j phase duty hjk hphases hduties
    refine hk.of_eq ?_ ?_
    · rw [hphases, List.getElem?_set_ne hjk]
    · rw [hduties, List.getElem?_set_ne hjk]
  have hbetween : ∀ {j : Nat} {phase : Run.Phase}, p.phases[j]? = some phase → phase.isBetween = true → j ≠ k :=
    fun hp hw => hk.ne_of_phase hp (Run.Phase.ne_of_isBetween hw rfl) (Run.Phase.ne_of_isBetween hw rfl)
      (Run.Phase.ne_of_isBetween hw rfl)
  have hwork : ∀ {j : Nat} {d d' : Duty}, p.duties[j]? = some d → d ≠ .idle → d ≠ .done →
      q.phases = p.phases → q.duties = p.duties.set j d' → q.Past k := by
    intro j d d' hd hi hdone hphases hduties
    refine hk.of_eq (by rw [hphases]) ?_
    rw [hduties, List.getElem?_set_ne (hk.ne_of_duty hl hd hi hdone)]
  cases h with
  | claim _ =>
      obtain ⟨phase, hp⟩ : ∃ phase, p.phases[k]? = some phase := by
        rcases hk with h | h | ⟨h, -⟩ <;> exact ⟨_, h⟩
      obtain ⟨hlt, -⟩ := List.getElem?_eq_some_iff.1 hp
      refine hk.of_eq ?_ ?_
      · exact List.getElem?_append_left hlt
      · exact List.getElem?_append_left (hl.length ▸ hlt)
  | bound j a hp =>
      have hjk : j ≠ k := hk.ne_of_phase hp (by simp) (by simp) (by simp)
      exact hk.of_eq (List.getElem?_set_ne hjk) rfl
  | forgo j hp =>
      have hjk : j ≠ k := hk.ne_of_phase hp (by simp) (by simp) (by simp)
      exact hk.of_eq (List.getElem?_set_ne hjk) rfl
  | begin j a hp => exact hmove (hk.ne_of_phase hp (by simp) (by simp) (by simp)) rfl rfl
  | wait j hw hp => exact hmove (hbetween hp hw.isBetween.1) rfl rfl
  | call j outcome hp => exact hmove (hbetween hp rfl) rfl rfl
  | quit j hw hp => exact hmove (hbetween hp hw) rfl rfl
  | leave j hp =>
      by_cases hjk : j = k
      · obtain rfl := hjk
        obtain ⟨hlt, -⟩ := List.getElem?_eq_some_iff.1 hp
        exact .inl (List.getElem?_set_self hlt)
      · exact hmove hjk rfl rfl
  | openRound j a hd => exact hwork hd (by simp) (by simp) rfl rfl
  | hire j r a hd => exact hwork hd (by simp) (by simp) rfl rfl
  | work j hw hd => exact hwork hd (by cases hw <;> simp) (by cases hw <;> simp) rfl rfl
  | miss j peer hd _ => exact hwork hd (by simp) (by simp) rfl rfl
  | join j peer r hd _ => exact hwork hd (by simp) (by simp) rfl rfl
  | retireNone j hd _ => exact hwork hd (by simp) (by simp) rfl rfl
  | retire j r hd _ => exact hwork hd (by simp) (by simp) rfl rfl
  | dismiss j r hd => exact hwork hd (by simp) (by simp) rfl rfl
  | part j hd => exact hwork hd (by simp) (by simp) rfl rfl
  | finish j now c hd hp =>
      by_cases hjk : j = k
      · obtain rfl := hjk
        rcases hk.duty_eq hl hd with hidle | ⟨hp', -⟩
        · simp at hidle
        · obtain rfl := Run.Phase.calling.inj (Option.some.inj (hp.symm.trans hp'))
          obtain ⟨hlt, -⟩ := List.getElem?_eq_some_iff.1 hp
          exact .inr (.inl (List.getElem?_set_self hlt))
      · exact hmove hjk rfl rfl
  | forget => exact hk

end Agenda

namespace Server

variable {s t : Server μ} {m : Move} {i j k : Nat}

theorem stopped_of_access (h : Access s m t) :
    t.outlets.stopped = s.outlets.stopped ∨ ∃ j, s.duties[j]? = some .parting ∧
      t.duties = s.duties.set j .done ∧ t.agenda.phases = s.agenda.phases := by
  cases h with
  | part j _ _ hd _ => exact .inr ⟨j, hd, rfl, rfl⟩
  | stopNext _ _ _ _ | turnAway _ _ _ _ _ _ | clearStart _ _ _ _ _ _ _ | enter _ _ _ _ _ _ | hire _ _ _ _ _
  | dismiss _ _ _ _ => exact .inl (by simp [setCall, setRegister, turnTo])
  | _ => exact .inl rfl

/-- There is room for the report of the end of run `k`, unless it has been made. -/
def Spared (s : Server μ) (k : Nat) : Prop :=
  s.outlets.stopped.isFull = false ∨ s.agenda.Past k

/-- Only the last run is not over, so nobody else takes the room. -/
theorem spared_of_access (h : Access s m t) (hl : s.agenda.Lawful) (hb : s.agenda.Bound k)
    (hs : s.Spared k) : t.Spared k := by
  have hpast : s.agenda.Past k → t.agenda.Past k := by
    intro hp
    rcases turn_of_access h with heq | hturn
    · rw [heq]
      exact hp
    · exact Agenda.past_of_turn hturn hl hp
  rcases stopped_of_access h with heq | ⟨j, hd, hduties, hphases⟩
  · rcases hs with hs | hs
    · exact .inl (heq ▸ hs)
    · exact .inr (hpast hs)
  · refine .inr ?_
    obtain ⟨phase, hp, hlive, -, hstand⟩ := hl.stand_of_duty (k := j) hd (by simp)
    -- the report that takes the room is that of run `k` itself, or `k` is over
    by_cases hjk : j = k
    · obtain rfl := hjk
      obtain ⟨hlt, -⟩ := List.getElem?_eq_some_iff.1 hd
      obtain ⟨hphase, -⟩ := hstand.of_parting
      refine .inr (.inr ⟨by rw [hphases, hp, hphase], ?_⟩)
      have hat : t.duties[j]? = some .done := by rw [hduties, List.getElem?_set_self hlt]
      exact hat
    · obtain ⟨phase', hk, -⟩ := hb.phase hl
      have hfin : phase' = .finished := by
        refine Classical.byContradiction fun hne => ?_
        have hlastk := hl.last k phase' hk hne
        have hlastj := hl.last j phase hp hlive
        omega
      exact hpast (.inl (hfin ▸ hk))

end Server
end Courier
