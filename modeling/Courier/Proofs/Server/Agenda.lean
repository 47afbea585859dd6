import Courier.Proofs.Channel
import Courier.Proofs.Server.Access

/-!
# Agenda — how far the runs of a server have come

The accept loops of a server share a listener, the round that new attendants join and the channel on which ends
are reported.  An `Agenda` keeps of the server what they look at, and forgets who is connected.

- `Agenda.Turn` — what a move can do to the agenda,
- `Server.turn_of_access` — every move leaves it as it is or does one of these things.
-/

namespace Courier

variable {μ : Type} [Marshaler μ]

/-! ## Agendas -/

/-- How many values have been put in; none once nobody receives them. -/
def Channel.extent? {α : Type} (c : Channel α) : Option Nat :=
  if c.closed then none else some c.sent.length

namespace Round

/-- Whether the registrar has begun. -/
def isStaffed (r : Round) : Bool :=
  match r.registrar with
  | .absent => false
  | _ => true

theorem isStaffed_of_waits {r : Round} (h : r.registrar.waits = true) : r.isStaffed = true := by
  unfold isStaffed
  cases hg : r.registrar <;> simp_all [Registrar.waits]

/-- Whether the registrar has begun, and whether it has been told to end. -/
def badge (r : Round) : Bool × Bool :=
  (r.isStaffed, r.quit)

end Round

/-- What the accept loops of a server look at. -/
structure Agenda where
  state : ListenerState
  phases : List Run.Phase
  calls : List (Nat × Callback)
  duties : List Duty
  round : Option Nat
  badges : List (Bool × Bool)
  /-- How many ends have been reported; none once nobody receives them. -/
  ends : Option Nat

namespace Server

/-- The agenda of a server. -/
def agenda (s : Server μ) : Agenda where
  state := s.dispatcher.state
  phases := s.dispatcher.runs.map (·.phase)
  calls := s.dispatcher.calls
  duties := s.duties
  round := s.round
  badges := s.rounds.map Round.badge
  ends := s.outlets.stopped.extent?

end Server

namespace Agenda

/-- The runs whose loops have begun, in the order in which they did.  Each sets up one round. -/
def begun (p : Agenda) : List Nat :=
  p.calls.filterMap Dispatcher.begins?

/-- The runs whose loops have ended, in the order in which they did. -/
def ended (p : Agenda) : List Nat :=
  p.calls.filterMap Dispatcher.ends?

/-- The agenda once run `k` has come to another point. -/
def move (p : Agenda) (k : Nat) (phase : Run.Phase) (duty : Duty) : Agenda :=
  { p with phases := p.phases.set k phase, duties := p.duties.set k duty }

/-- The agenda once the handler has been called. -/
def call (p : Agenda) (k : Nat) (c : Callback) : Agenda :=
  { p.move k (.calling c) (.ofCallback c) with calls := p.calls ++ [(k, c)] }

/-- The agenda once a loop has gone on inside a callback. -/
def turnTo (p : Agenda) (k : Nat) (duty : Duty) : Agenda :=
  { p with duties := p.duties.set k duty }

/-- Work inside a callback that shows in the duty only. -/
inductive Works : Duty → Duty → Prop where
  | reopen (r : Nat) (a : Address) : Works (.reopening r a) (.hiring r a)
  | announce (a : Address) : Works (.announcing a) .done
  | refuse (peer : PeerId) : Works (.admitting peer) .done
  | welcome (peer : PeerId) : Works (.admitting peer) (.joining peer)
  | found (peer : PeerId) (r : Nat) (a : AttendantId) : Works (.founding peer r) (.starting a)
  | lose (peer : PeerId) (r : Nat) : Works (.founding peer r) .done
  | started (a : AttendantId) : Works (.starting a) .done
  | report (e : IoError) : Works (.reporting e) .done

/-- What a move can do to the agenda. -/
inductive Turn (p : Agenda) : Agenda → Prop where
  | claim (hd : p.state = .idle) :
      Turn p
        { p with
          state := .binding
          phases := p.phases ++ [.binding]
          duties := p.duties ++ [.idle] }
  | bound (k : Nat) (a : Address) (hp : p.phases[k]? = some .binding) :
      Turn p { p with state := .listening a, phases := p.phases.set k (.spawned a) }
  | forgo (k : Nat) (hp : p.phases[k]? = some .binding) :
      Turn p { p with state := .idle, phases := p.phases.set k .finished }
  | begin (k : Nat) (a : Address) (hp : p.phases[k]? = some (.spawned a)) :
      Turn p (p.call k (.started a))
  | wait (k : Nat) {phase phase' : Run.Phase} (hw : Dispatcher.Waits phase phase')
      (hp : p.phases[k]? = some phase) :
      Turn p (p.move k phase' .idle)
  | call (k : Nat) (outcome : Except IoError PeerId) (hp : p.phases[k]? = some (.accepted outcome)) :
      Turn p (p.call k (Dispatcher.callbackOf outcome))
  | quit (k : Nat) {phase : Run.Phase} (hw : phase.isBetween = true) (hp : p.phases[k]? = some phase) :
      Turn p (p.call k .stopped)
  | leave (k : Nat) (hp : p.phases[k]? = some .leaving) :
      Turn p { p.move k .finished .idle with state := .idle }
  | openRound (k : Nat) (a : Address) (hd : p.duties[k]? = some (.opening a)) :
      Turn p
        ({ p with badges := p.badges ++ [(false, false)], round := some p.badges.length }.turnTo k
          (.reopening p.badges.length a))
  | hire (k r : Nat) (a : Address) (hd : p.duties[k]? = some (.hiring r a)) :
      Turn p
        ({ p with badges := p.badges.modify r fun b => (true, b.2) }.turnTo k (.announcing a))
  | work (k : Nat) {d d' : Duty} (hw : Works d d') (hd : p.duties[k]? = some d) : Turn p (p.turnTo k d')
  | miss (k : Nat) (peer : PeerId) (hd : p.duties[k]? = some (.joining peer)) (hr : p.round = none) :
      Turn p (p.turnTo k .done)
  | join (k : Nat) (peer : PeerId) (r : Nat) (hd : p.duties[k]? = some (.joining peer))
      (hr : p.round = some r) :
      Turn p (p.turnTo k (.founding peer r))
  | retireNone (k : Nat) (hd : p.duties[k]? = some .retiring) (hr : p.round = none) :
      Turn p (p.turnTo k .parting)
  | retire (k r : Nat) (hd : p.duties[k]? = some .retiring) (hr : p.round = some r) :
      Turn p ({ p with round := none }.turnTo k (.dismissing r))
  | dismiss (k r : Nat) (hd : p.duties[k]? = some (.dismissing r)) :
      Turn p ({ p with badges := p.badges.modify r fun b => (b.1, true) }.turnTo k .parting)
  | part (k : Nat) (hd : p.duties[k]? = some .parting) :
      Turn p ({ p with ends := p.ends.map (· + 1) }.turnTo k .done)
  | finish (k now : Nat) (c : Callback) (hd : p.duties[k]? = some .done)
      (hp : p.phases[k]? = some (.calling c)) :
      Turn p (p.move k (Dispatcher.phaseAfter now c) .idle)
  /-- The consumer of ends is gone. -/
  | forget : Turn p { p with ends := none }

end Agenda

namespace Server

variable {s t : Server μ} {m : Move} {a : AttendantId} {r k : Nat}

/-! ## Moves and the agenda -/

theorem badge_at {round : Round} (hr : s.rounds[r]? = some round) : s.agenda.badges[r]? = some round.badge := by
  simp [agenda, hr]

theorem round_at {badge : Bool × Bool} (hb : s.agenda.badges[r]? = some badge) :
    ∃ round, s.rounds[r]? = some round ∧ round.badge = badge := by
  have hmap : (s.rounds.map Round.badge)[r]? = some badge := hb
  simpa only [List.getElem?_map, Option.map_eq_some_iff] using hmap

/-- The badge that the agenda shows for a round is the one it wears. -/
theorem badge_of_round {round : Round} {badge : Bool × Bool} (hr : s.rounds[r]? = some round)
    (hb : s.agenda.badges[r]? = some badge) : round.badge = badge :=
  Option.some.inj ((badge_at hr).symm.trans hb)

@[simp] theorem agenda_stopAttendant : (s.stopAttendant a).agenda = s.agenda := by
  rw [stopAttendant_eq]
  rfl

@[simp] theorem agenda_track : (s.track a).agenda = s.agenda := by
  rw [track_eq]
  rfl

/-- An entry that is replaced does not show under a function that takes both to the same. -/
theorem map_set_of_eq {α β : Type} {f : α → β} {xs : List α} {i : Nat} {x y : α} (hx : xs[i]? = some x)
    (hf : f y = f x) : (xs.set i y).map f = xs.map f := by
  obtain ⟨hlt, rfl⟩ := List.getElem?_eq_some_iff.1 hx
  rw [List.map_set, hf, ← List.map_set, List.set_getElem_self]

/-- Changing a round without hiring or dismissing its registrar does not show. -/
theorem badges_set {round round' : Round} (hr : s.rounds[r]? = some round)
    (hb : round'.badge = round.badge) :
    (s.rounds.set r round').map Round.badge = s.rounds.map Round.badge :=
  map_set_of_eq hr hb

/-- A registrar that has begun and goes on does not show, whatever else of the server it changes. -/
theorem agenda_setRegister {u : Server μ} {round round' : Round} {registrar : Registrar} (hu : u.agenda = s.agenda)
    (hr : u.rounds[r]? = some round) (hq : round'.quit = round.quit) (hg : round.isStaffed = true)
    (hg' : registrar ≠ .absent) : (u.setRegister r round' registrar).agenda = s.agenda := by
  have hb : ({ round' with registrar, poised := false } : Round).badge = round.badge := by
    cases registrar <;> simp_all [Round.badge, Round.isStaffed]
  have hmap := badges_set hr hb
  rw [← hu]
  simp only [agenda, setRegister, hmap]

theorem badges_setRound {f : Round → Round} {g : Bool × Bool → Bool × Bool}
    (hf : ∀ round, (f round).badge = g round.badge) :
    (s.setRound r f).agenda = { s.agenda with badges := s.agenda.badges.modify r g } := by
  have hmap : (s.setRound r f).rounds.map Round.badge = (s.rounds.map Round.badge).modify r g := by
    refine List.ext_getElem? fun j => ?_
    cases hr : s.rounds[r]? with
    | none =>
        rw [setRound_of_none hr]
        by_cases hj : r = j
        · simp [← hj, hr]
        · simp [hj]
    | some round =>
        obtain ⟨hlt, -⟩ := List.getElem?_eq_some_iff.1 hr
        rw [rounds_setRound hr]
        by_cases hj : r = j
        · rw [← hj, List.getElem?_map, List.getElem?_set_self hlt, List.getElem?_modify, List.getElem?_map,
            hr]
          simp [hf]
        · simp [hj]
  have hother : (s.setRound r f).agenda =
      { s.agenda with badges := (s.setRound r f).rounds.map Round.badge } := by
    rw [setRound_eq]
    rfl
  rw [hother, hmap]
  rfl

theorem phases_set {run run' : Run} (hr : s.dispatcher.runs[k]? = some run)
    (hp : run'.phase = run.phase) :
    (s.dispatcher.runs.set k run').map (·.phase) = s.dispatcher.runs.map (·.phase) :=
  map_set_of_eq hr hp

theorem phase_at {run : Run} (hr : s.dispatcher.runs[k]? = some run) :
    s.agenda.phases[k]? = some run.phase := by
  simp [agenda, hr]

theorem phase_of_run {run : Run} {phase : Run.Phase} (hr : s.dispatcher.runs[k]? = some run)
    (hp : run.phase = phase) : s.agenda.phases[k]? = some phase := by
  rw [phase_at hr, hp]

/-- A loop that goes on shows with its phase and its duty. -/
theorem agenda_setPhase (run : Run) (phase : Run.Phase) (duty : Duty) :
    (s.proceed k (s.dispatcher.setPhase k run phase) duty).agenda = s.agenda.move k phase duty := by
  simp [agenda, proceed, Dispatcher.setPhase, Agenda.move, List.map_set]

/-- A call of the handler shows with the work that it begins. -/
theorem agenda_call (run : Run) (c : Callback) :
    (s.proceed k (s.dispatcher.call k run c) (.ofCallback c)).agenda = s.agenda.call k c := by
  simp [agenda, proceed, Dispatcher.call, Dispatcher.setPhase, Agenda.call, Agenda.move, List.map_set]

/-- A move leaves the agenda as it is or makes one of the listed turns. -/
theorem turn_of_access (h : Access s m t) : t.agenda = s.agenda ∨ Agenda.Turn s.agenda t.agenda := by
  -- an agenda maps over the parts of a server, so that setting one of them sets one of its entries
  cases h with
  | refuseRun _ => exact .inl rfl
  | claim hd =>
      refine .inr ?_
      have hturn := Agenda.Turn.claim (p := s.agenda) hd
      simpa [agenda, record] using hturn
  | bound i k r a _ hr hp =>
      refine .inr ?_
      have hturn := Agenda.Turn.bound k a (phase_of_run hr hp)
      simpa [agenda, setCall, Dispatcher.setPhase, List.map_set] using hturn
  | forgo i k r e _ hr hp =>
      refine .inr ?_
      have hturn := Agenda.Turn.forgo k (phase_of_run hr hp)
      simpa [agenda, setCall, Dispatcher.setPhase, List.map_set] using hturn
  | refuseStop _ _ _ _ => exact .inl rfl
  | beginStop _ _ _ _ _ => exact .inl rfl
  | keep _ _ _ => exact .inl rfl
  | bar _ _ _ => exact .inl rfl
  | close i k r _ hr _ =>
      -- that a run is asked to end does not show in its phase
      refine .inl ?_
      unfold agenda setCall
      have hphases : (s.dispatcher.runs.set k { r with closed := true }).map (·.phase) =
          s.dispatcher.runs.map (·.phase) := phases_set hr rfl
      simp only [hphases]
  | empty _ _ => exact .inl rfl
  | finishStop _ _ => exact .inl rfl
  | stopNext _ _ _ _ => exact .inl agenda_stopAttendant
  | begin k r a hr hp =>
      have hturn := Agenda.Turn.begin k a (phase_of_run hr hp)
      rw [← agenda_call r] at hturn
      exact .inr hturn
  | wait k r _ phase hr hw _ =>
      have hturn := Agenda.Turn.wait k hw (phase_at hr)
      rw [← agenda_setPhase r] at hturn
      exact .inr hturn
  | call k r outcome hr hp =>
      have hturn := Agenda.Turn.call k outcome (phase_of_run hr hp)
      rw [← agenda_call r] at hturn
      exact .inr hturn
  | quit k r hr hp _ =>
      have hw : r.phase.isBetween = true := by rcases hp with hp | ⟨_, hp⟩ <;> simp [hp, Run.Phase.isBetween]
      have hturn := Agenda.Turn.quit k hw (phase_at hr)
      rw [← agenda_call r] at hturn
      exact .inr hturn
  | leave k r hr hp =>
      refine .inr ?_
      have hturn := Agenda.Turn.leave k (phase_of_run hr hp)
      simpa [agenda, proceed, Dispatcher.setPhase, Agenda.move, List.map_set] using hturn
  | openRound k _ a hd =>
      refine .inr ?_
      have hturn := Agenda.Turn.openRound (p := s.agenda) k a hd
      simpa [agenda, turnTo, Agenda.turnTo, Round.badge, Round.isStaffed, Round.fresh] using hturn
  | reopen k _ r a hd => exact .inr (.work (p := s.agenda) k (.reopen r a) hd)
  | hire k _ r a hd =>
      have hb := badges_setRound (s := s) (r := r) (f := fun round => { round with registrar := .waiting })
        (g := fun b => (true, b.2)) fun _ => rfl
      refine .inr ?_
      have hturn := Agenda.Turn.hire (p := s.agenda) k r a hd
      rw [← hb] at hturn
      simpa [agenda, turnTo, Agenda.turnTo] using hturn
  | announceStart k _ a _ hd _ => exact .inr (.work (p := s.agenda) k (.announce a) hd)
  | refuse k _ peer hd _ => exact .inr (.work (p := s.agenda) k (.refuse peer) hd)
  | welcome k _ peer hd _ => exact .inr (.work (p := s.agenda) k (.welcome peer) hd)
  | miss k _ peer hd hr => exact .inr (.miss (p := s.agenda) k peer hd hr)
  | join k _ peer r hd hr => exact .inr (.join (p := s.agenda) k peer r hd hr)
  | found k peer r hd => exact .inr (.work (p := s.agenda) k (.found peer r _) hd)
  | lose k peer r hd => exact .inr (.work (p := s.agenda) k (.lose peer r) hd)
  | started k _ a hd _ => exact .inr (.work (p := s.agenda) k (.started a) hd)
  | reportFailure k _ e _ hd _ => exact .inr (.work (p := s.agenda) k (.report e) hd)
  | retireNone k _ hd hr => exact .inr (.retireNone (p := s.agenda) k hd hr)
  | retire k _ r hd hr => exact .inr (.retire (p := s.agenda) k r hd hr)
  | dismiss k _ r hd =>
      have hb := badges_setRound (s := s) (r := r) (f := fun round => { round with quit := true })
        (g := fun b => (b.1, true)) fun _ => rfl
      refine .inr ?_
      have hturn := Agenda.Turn.dismiss (p := s.agenda) k r hd
      rw [← hb] at hturn
      simpa [agenda, turnTo, Agenda.turnTo] using hturn
  | part k _ stopped hd ho =>
      refine .inr ?_
      have hturn := Agenda.Turn.part (p := s.agenda) k hd
      -- ends are counted only while somebody receives the reports on them
      rcases Channel.offer?_eq_some_iff.1 ho with ⟨hc, rfl⟩ | ⟨hc, _, rfl⟩
      · simpa [agenda, turnTo, Agenda.turnTo, Channel.extent?, hc] using hturn
      · simpa [agenda, turnTo, Agenda.turnTo, Channel.extent?, hc] using hturn
  | finish k _ r c hd hr hp =>
      have hturn := Agenda.Turn.finish k s.now c hd (phase_of_run hr hp)
      rw [← agenda_setPhase r] at hturn
      exact .inr hturn
  | poise _ r round poised hr _ _ _ =>
      refine .inl ?_
      have hbadge : ({ round with poised } : Round).badge = round.badge := rfl
      simp only [agenda, setPoised, badges_set hr hbadge]
  | heed r round hr hg _ => exact .inl (agenda_setRegister rfl hr rfl (Round.isStaffed_of_waits hg) (by simp))
  | takeStart r round a inbox hr hg _ _ =>
      exact .inl (agenda_setRegister rfl hr rfl (by simp [Round.isStaffed, hg]) (by simp))
  | takeEnd r round a ending inbox hr hg _ _ =>
      exact .inl (agenda_setRegister rfl hr rfl (by simp [Round.isStaffed, hg]) (by simp))
  | turnAway r round a hr hg _ =>
      have hr' : (s.stopAttendant a).rounds[r]? = some round := by rw [rounds_stopAttendant, hr]
      exact .inl (agenda_setRegister agenda_stopAttendant hr' rfl (by simp [Round.isStaffed, hg]) (by simp))
  | enter r round a hr hg _ =>
      have hr' : (s.track a).rounds[r]? = some round := by rw [rounds_track, hr]
      exact .inl (agenda_setRegister agenda_track hr' rfl (by simp [Round.isStaffed, hg]) (by simp))
  | erase r round a ending hr hg =>
      exact .inl (agenda_setRegister (u := s.untrack a) rfl hr rfl (by simp [Round.isStaffed, hg]) (by simp))
  | announce r round a attendantStarted hr hg _ _ =>
      exact .inl (agenda_setRegister (u := { s with outlets := { s.outlets with attendantStarted } }) rfl hr rfl
        (by simp [Round.isStaffed, hg]) (by simp))
  | report r round a ending attendantStopped hr hg _ _ =>
      exact .inl (agenda_setRegister (u := { s with outlets := { s.outlets with attendantStopped } }) rfl hr rfl
        (by simp [Round.isStaffed, hg]) (by simp))
  | shut r round hr hg =>
      exact .inl (agenda_setRegister rfl hr rfl (by simp [Round.isStaffed, hg]) (by simp))
  | clearStart r round a inbox hr hg _ =>
      have hr' : (s.stopAttendant a).rounds[r]? = some round := by rw [rounds_stopAttendant, hr]
      have hquit : ({ round with inbox } : Round).quit = round.quit := rfl
      exact .inl (agenda_setRegister agenda_stopAttendant hr' hquit (by simp [Round.isStaffed, hg]) (by simp))
  | clearEnd r round a ending inbox hr hg _ =>
      exact .inl (agenda_setRegister rfl hr rfl (by simp [Round.isStaffed, hg]) (by simp))
  | retireRegistrar r round hr hg _ =>
      exact .inl (agenda_setRegister rfl hr rfl (by simp [Round.isStaffed, hg]) (by simp))
  | attendant a n member round b q _ hr _ =>
      refine .inl ?_
      unfold agenda
      have hbadge : ({ round with inbox := q.lifecycle } : Round).badge = round.badge := rfl
      simp only [badges_set hr hbadge]
  | tick _ => exact .inl rfl

end Server
end Courier
