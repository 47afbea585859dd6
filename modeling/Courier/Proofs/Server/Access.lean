import Courier.Proofs.Attendant.Access
import Courier.Proofs.Dispatcher
import Courier.Server.Step

/-!
# Access — what one move of a server can do

`Server.step` is a function of the label.  `Server.Access` lists its outcomes one by one, each with the condition
under which it comes about, so that an invariant is checked against the outcomes and never against the function.

- `Server.Access` — the outcomes,
- `Server.access_of_step` — every move has one of them.
-/

namespace Courier

variable {μ : Type} [Marshaler μ]
namespace Server

/-- The server after the accept loop of run `k` has moved, with what the loop does next. -/
def proceed (s : Server μ) (k : Nat) (dispatcher : Dispatcher) (duty : Duty) : Server μ :=
  { s with dispatcher, duties := s.duties.set k duty }

/-- The server after the accept loop of run `k` has gone on inside a callback. -/
def turnTo (s : Server μ) (k : Nat) (duty : Duty) : Server μ :=
  { s with duties := s.duties.set k duty }

/-- The server after operation `i` has gone on. -/
def setCall (s : Server μ) (i : Nat) (c : Call) : Server μ :=
  { s with calls := s.calls.set i c }

/-- One access of a task of a server to what it shares with others. -/
inductive Access (s : Server μ) : Move → Server μ → Prop where
  -- operations of callers
  | refuseRun (hd : s.dispatcher.state ≠ .idle) :
      Access s .run (s.record (.ran (.error .alreadyListening)))
  | claim (hd : s.dispatcher.state = .idle) :
      Access s .run
        ({ s with
            dispatcher :=
              { s.dispatcher with state := .binding, runs := s.dispatcher.runs ++ [({} : Run)] }
            duties := s.duties ++ [Duty.idle] }.record (.binding s.dispatcher.runs.length))
  | bound (i k : Nat) (r : Run) (a : Address) (hc : s.calls[i]? = some (.binding k))
      (hr : s.dispatcher.runs[k]? = some r) (hp : r.phase = .binding) :
      Access s (.bind i (.ok a))
        ({ s with
            dispatcher :=
              { s.dispatcher.setPhase k r (.spawned a) with state := .listening a } }.setCall i
          (.keeping k))
  | forgo (i k : Nat) (r : Run) (e : Error) (hc : s.calls[i]? = some (.binding k))
      (hr : s.dispatcher.runs[k]? = some r) (hp : r.phase = .binding) :
      Access s (.bind i (.error e))
        ({ s with
            dispatcher := { s.dispatcher.setPhase k r .finished with state := .idle } }.setCall i
          (.ran (.error e)))
  | refuseStop (m : Move) (dropped : Bool) (hm : m = .stop ∨ m = .drop) (hc : s.closer = none) :
      Access s m { s.record (.halted (.error .notListening)) with dropped }
  | beginStop (m : Move) (dropped : Bool) (k : Nat) (hm : m = .stop ∨ m = .drop)
      (hc : s.closer = some k) :
      Access s m { { s with closer := none }.record (.barring k) with dropped }
  | keep (i k : Nat) (hc : s.calls[i]? = some (.keeping k)) :
      Access s (.advance i) ({ s with closer := some k }.setCall i (.ran (.ok ())))
  | bar (i k : Nat) (hc : s.calls[i]? = some (.barring k)) :
      Access s (.advance i) ({ s with closing := true }.setCall i (.closing k))
  | close (i k : Nat) (r : Run) (hc : s.calls[i]? = some (.closing k))
      (hr : s.dispatcher.runs[k]? = some r) (hp : r.phase ≠ .binding) :
      Access s (.advance i)
        ({ s with
            dispatcher :=
              { s.dispatcher with
                runs := s.dispatcher.runs.set k { r with closed := true } } }.setCall i .emptying)
  | empty (i : Nat) (hc : s.calls[i]? = some .emptying) :
      Access s (.advance i) ({ s with tracked := [] }.setCall i (.stopping s.tracked))
  | finishStop (i : Nat) (hc : s.calls[i]? = some (.stopping [])) :
      Access s (.advance i) (s.setCall i (.halted (.ok ())))
  | stopNext (i : Nat) (a : AttendantId) (left : List AttendantId)
      (hc : s.calls[i]? = some (.stopping (a :: left))) :
      Access s (.advance i) ((s.stopAttendant a).setCall i (.stopping left))
  -- an accept loop between its callbacks
  | begin (k : Nat) (r : Run) (a : Address) (hr : s.dispatcher.runs[k]? = some r)
      (hp : r.phase = .spawned a) :
      Access s (.loop (.begin k))
        (s.proceed k (s.dispatcher.call k r (.started a)) (.opening a))
  | wait (k : Nat) (r : Run) (n : Dispatcher.Move) (phase : Run.Phase)
      (hr : s.dispatcher.runs[k]? = some r) (hw : Dispatcher.Waits r.phase phase)
      (hc : r.phase = .polling → r.closed = false) :
      Access s (.loop n) (s.proceed k (s.dispatcher.setPhase k r phase) .idle)
  | call (k : Nat) (r : Run) (outcome : Except IoError PeerId)
      (hr : s.dispatcher.runs[k]? = some r) (hp : r.phase = .accepted outcome) :
      Access s (.loop (.call k))
        (s.proceed k (s.dispatcher.call k r (Dispatcher.callbackOf outcome))
          (.ofCallback (Dispatcher.callbackOf outcome)))
  | quit (k : Nat) (r : Run) (hr : s.dispatcher.runs[k]? = some r)
      (hp : r.phase = .polling ∨ ∃ deadline, r.phase = .pausing deadline) (hc : r.closed = true) :
      Access s (.loop (.quit k)) (s.proceed k (s.dispatcher.call k r .stopped) .retiring)
  | leave (k : Nat) (r : Run) (hr : s.dispatcher.runs[k]? = some r) (hp : r.phase = .leaving) :
      Access s (.loop (.leave k))
        (s.proceed k { s.dispatcher.setPhase k r .finished with state := .idle } .idle)
  -- an accept loop inside a callback
  | openRound (k : Nat) (intact : Bool) (a : Address) (hd : s.duties[k]? = some (.opening a)) :
      Access s (.work k intact)
        ({ s with rounds := s.rounds ++ [Round.fresh], round := some s.rounds.length }.turnTo k
          (.reopening s.rounds.length a))
  | reopen (k : Nat) (intact : Bool) (r : Nat) (a : Address)
      (hd : s.duties[k]? = some (.reopening r a)) :
      Access s (.work k intact) ({ s with closing := false }.turnTo k (.hiring r a))
  | hire (k : Nat) (intact : Bool) (r : Nat) (a : Address) (hd : s.duties[k]? = some (.hiring r a)) :
      Access s (.work k intact)
        ((s.setRound r fun round => { round with registrar := .waiting }).turnTo k (.announcing a))
  | announceStart (k : Nat) (intact : Bool) (a : Address) (started : Channel Address)
      (hd : s.duties[k]? = some (.announcing a)) (ho : s.outlets.started.offer? a = some started) :
      Access s (.work k intact) ({ s with outlets := { s.outlets with started } }.turnTo k .done)
  | refuse (k : Nat) (intact : Bool) (peer : PeerId) (hd : s.duties[k]? = some (.admitting peer))
      (hc : s.closing = true) :
      Access s (.work k intact) (s.turnTo k .done)
  | welcome (k : Nat) (intact : Bool) (peer : PeerId) (hd : s.duties[k]? = some (.admitting peer))
      (hc : s.closing = false) :
      Access s (.work k intact) (s.turnTo k (.joining peer))
  | miss (k : Nat) (intact : Bool) (peer : PeerId) (hd : s.duties[k]? = some (.joining peer))
      (hr : s.round = none) :
      Access s (.work k intact) (s.turnTo k .done)
  | join (k : Nat) (intact : Bool) (peer : PeerId) (r : Nat) (hd : s.duties[k]? = some (.joining peer))
      (hr : s.round = some r) :
      Access s (.work k intact) (s.turnTo k (.founding peer r))
  | found (k : Nat) (peer : PeerId) (r : Nat) (hd : s.duties[k]? = some (.founding peer r)) :
      Access s (.work k true) ((s.found peer r).turnTo k (.starting s.members.length))
  | lose (k : Nat) (peer : PeerId) (r : Nat) (hd : s.duties[k]? = some (.founding peer r)) :
      Access s (.work k false) (s.turnTo k .done)
  | started (k : Nat) (intact : Bool) (a : AttendantId) (hd : s.duties[k]? = some (.starting a))
      (hs : s.hasStarted a = true) :
      Access s (.work k intact) (s.turnTo k .done)
  | reportFailure (k : Nat) (intact : Bool) (e : IoError) (acceptFailed : Channel IoError)
      (hd : s.duties[k]? = some (.reporting e))
      (ho : s.outlets.acceptFailed.offer? e = some acceptFailed) :
      Access s (.work k intact) ({ s with outlets := { s.outlets with acceptFailed } }.turnTo k .done)
  | retireNone (k : Nat) (intact : Bool) (hd : s.duties[k]? = some .retiring) (hr : s.round = none) :
      Access s (.work k intact) (s.turnTo k .parting)
  | retire (k : Nat) (intact : Bool) (r : Nat) (hd : s.duties[k]? = some .retiring)
      (hr : s.round = some r) :
      Access s (.work k intact) ({ s with round := none }.turnTo k (.dismissing r))
  | dismiss (k : Nat) (intact : Bool) (r : Nat) (hd : s.duties[k]? = some (.dismissing r)) :
      Access s (.work k intact)
        ((s.setRound r fun round => { round with quit := true }).turnTo k .parting)
  | part (k : Nat) (intact : Bool) (stopped : Channel Unit) (hd : s.duties[k]? = some .parting)
      (ho : s.outlets.stopped.offer? () = some stopped) :
      Access s (.work k intact) ({ s with outlets := { s.outlets with stopped } }.turnTo k .done)
  | finish (k : Nat) (intact : Bool) (r : Run) (c : Callback) (hd : s.duties[k]? = some .done)
      (hr : s.dispatcher.runs[k]? = some r) (hp : r.phase = .calling c) :
      Access s (.work k intact)
        (s.proceed k (s.dispatcher.setPhase k r (Dispatcher.phaseAfter s.now c)) .idle)
  -- registrars
  | poise (m : Move) (r : Nat) (round : Round) (poised : Bool) (hr : s.rounds[r]? = some round)
      (hm : m = .register r ∨ m = .wake r) (hg : round.registrar.waits = true)
      (hq : poised = true → round.quit = false) :
      Access s m (s.setPoised r round poised)
  | heed (r : Nat) (round : Round) (hr : s.rounds[r]? = some round)
      (hg : round.registrar.waits = true) (hq : round.quit = true) :
      Access s (.register r) (s.setRegister r round .closing)
  | takeStart (r : Nat) (round : Round) (a : AttendantId) (inbox : Channel Notice)
      (hr : s.rounds[r]? = some round) (hg : round.registrar = .waiting) (hl : round.poised = true)
      (ht : round.inbox.take? = some (.started a, inbox)) :
      Access s (.register r) (s.setRegister r { round with inbox } (.entering a))
  | takeEnd (r : Nat) (round : Round) (a : AttendantId) (ending : Ending) (inbox : Channel Notice)
      (hr : s.rounds[r]? = some round) (hg : round.registrar = .waiting) (hl : round.poised = true)
      (ht : round.inbox.take? = some (.stopped a ending, inbox)) :
      Access s (.register r) (s.setRegister r { round with inbox } (.erasing a ending))
  | turnAway (r : Nat) (round : Round) (a : AttendantId) (hr : s.rounds[r]? = some round)
      (hg : round.registrar = .entering a) (hc : s.closing = true) :
      Access s (.register r) ((s.stopAttendant a).setRegister r round (.announcing a))
  | enter (r : Nat) (round : Round) (a : AttendantId) (hr : s.rounds[r]? = some round)
      (hg : round.registrar = .entering a) (hc : s.closing = false) :
      Access s (.register r) ((s.track a).setRegister r round (.announcing a))
  | erase (r : Nat) (round : Round) (a : AttendantId) (ending : Ending)
      (hr : s.rounds[r]? = some round) (hg : round.registrar = .erasing a ending) :
      Access s (.register r) ((s.untrack a).setRegister r round (.reporting a ending))
  | announce (r : Nat) (round : Round) (a : AttendantId) (attendantStarted : Channel AttendantId)
      (hr : s.rounds[r]? = some round) (hg : round.registrar = .announcing a)
      (hl : round.poised = true) (ho : s.outlets.attendantStarted.offer? a = some attendantStarted) :
      Access s (.register r)
        ({ s with outlets := { s.outlets with attendantStarted } }.setRegister r round .waiting)
  | report (r : Nat) (round : Round) (a : AttendantId) (ending : Ending)
      (attendantStopped : Channel (AttendantId × Ending)) (hr : s.rounds[r]? = some round)
      (hg : round.registrar = .reporting a ending) (hl : round.poised = true)
      (ho : s.outlets.attendantStopped.offer? (a, ending) = some attendantStopped) :
      Access s (.register r)
        ({ s with outlets := { s.outlets with attendantStopped } }.setRegister r round .waiting)
  | shut (r : Nat) (round : Round) (hr : s.rounds[r]? = some round)
      (hg : round.registrar = .closing) :
      Access s (.register r) (s.setRegister r { round with inbox := round.inbox.close } .clearing)
  | clearStart (r : Nat) (round : Round) (a : AttendantId) (inbox : Channel Notice)
      (hr : s.rounds[r]? = some round) (hg : round.registrar = .clearing)
      (ht : round.inbox.take? = some (.started a, inbox)) :
      Access s (.register r) ((s.stopAttendant a).setRegister r { round with inbox } .clearing)
  | clearEnd (r : Nat) (round : Round) (a : AttendantId) (ending : Ending) (inbox : Channel Notice)
      (hr : s.rounds[r]? = some round) (hg : round.registrar = .clearing)
      (ht : round.inbox.take? = some (.stopped a ending, inbox)) :
      Access s (.register r) (s.setRegister r { round with inbox } .clearing)
  | retireRegistrar (r : Nat) (round : Round) (hr : s.rounds[r]? = some round)
      (hg : round.registrar = .clearing) (ht : round.inbox.take? = none) :
      Access s (.register r) (s.setRegister r round .finished)
  -- attendants and time
  | attendant (a : AttendantId) (n : Attendant.Move) (member : Member μ) (round : Round) (b : Attendant μ)
      (q : Ports) (hm : s.members[a]? = some member) (hr : s.rounds[member.round]? = some round)
      (h : member.attendant.step a s.now (s.portsOf round) n = some (b, q)) :
      Access s (.attendant a n)
        { s with
          members := s.members.set a { member with attendant := b }
          rounds := s.rounds.set member.round { round with inbox := q.lifecycle }
          outlets := { s.outlets with messages := q.messages, throttled := q.throttled } }
  | tick (nanos : Nat) : Access s (.tick nanos) { s with now := s.now + nanos }

/-- A server that has just been built has done nothing. -/
theorem eq_of_build {b : Builder μ} {s : Server μ} (h : b.build = .ok s) :
    ∃ codec config, s = { codec, config, outlets := .ofConfig config } := by
  unfold Builder.build at h
  split at h
  · simp at h
  · exact ⟨_, _, (Except.ok.inj h).symm⟩

/-! ## What the parts of a move leave alone -/

section

variable {s : Server μ} {a : AttendantId} {r : Nat} {f : Round → Round}

/-- Beginning to stop an attendant changes members only. -/
theorem stopAttendant_eq : s.stopAttendant a = { s with members := (s.stopAttendant a).members } := by
  unfold stopAttendant
  split <;> rfl

/-- Tracking an attendant changes the set only. -/
theorem track_eq : s.track a = { s with tracked := (s.track a).tracked } := by
  unfold track
  split <;> rfl

/-- Changing a round changes rounds only. -/
theorem setRound_eq : s.setRound r f = { s with rounds := (s.setRound r f).rounds } := by
  unfold setRound
  split <;> rfl

@[simp] theorem rounds_stopAttendant : (s.stopAttendant a).rounds = s.rounds := by
  rw [stopAttendant_eq]

@[simp] theorem tracked_stopAttendant : (s.stopAttendant a).tracked = s.tracked := by
  rw [stopAttendant_eq]

@[simp] theorem calls_stopAttendant : (s.stopAttendant a).calls = s.calls := by
  rw [stopAttendant_eq]

@[simp] theorem duties_stopAttendant : (s.stopAttendant a).duties = s.duties := by
  rw [stopAttendant_eq]

@[simp] theorem closer_stopAttendant : (s.stopAttendant a).closer = s.closer := by
  rw [stopAttendant_eq]

@[simp] theorem closing_stopAttendant : (s.stopAttendant a).closing = s.closing := by
  rw [stopAttendant_eq]

@[simp] theorem dispatcher_stopAttendant : (s.stopAttendant a).dispatcher = s.dispatcher := by
  rw [stopAttendant_eq]

@[simp] theorem outlets_stopAttendant : (s.stopAttendant a).outlets = s.outlets := by
  rw [stopAttendant_eq]

theorem calls_stopNext {i : Nat} {c : Call} :
    ((s.stopAttendant a).setCall i c).calls = s.calls.set i c := by
  unfold setCall
  rw [calls_stopAttendant]

@[simp] theorem rounds_track : (s.track a).rounds = s.rounds := by
  rw [track_eq]

@[simp] theorem members_track : (s.track a).members = s.members := by
  rw [track_eq]

@[simp] theorem calls_track : (s.track a).calls = s.calls := by
  rw [track_eq]

@[simp] theorem duties_track : (s.track a).duties = s.duties := by
  rw [track_eq]

@[simp] theorem closer_track : (s.track a).closer = s.closer := by
  rw [track_eq]

@[simp] theorem closing_track : (s.track a).closing = s.closing := by
  rw [track_eq]

@[simp] theorem dispatcher_track : (s.track a).dispatcher = s.dispatcher := by
  rw [track_eq]

@[simp] theorem outlets_track : (s.track a).outlets = s.outlets := by
  rw [track_eq]

@[simp] theorem members_setRound : (s.setRound r f).members = s.members := by
  rw [setRound_eq]

@[simp] theorem tracked_setRound : (s.setRound r f).tracked = s.tracked := by
  rw [setRound_eq]

@[simp] theorem calls_setRound : (s.setRound r f).calls = s.calls := by
  rw [setRound_eq]

@[simp] theorem duties_setRound : (s.setRound r f).duties = s.duties := by
  rw [setRound_eq]

@[simp] theorem closer_setRound : (s.setRound r f).closer = s.closer := by
  rw [setRound_eq]

@[simp] theorem closing_setRound : (s.setRound r f).closing = s.closing := by
  rw [setRound_eq]

@[simp] theorem dispatcher_setRound : (s.setRound r f).dispatcher = s.dispatcher := by
  rw [setRound_eq]

@[simp] theorem outlets_setRound : (s.setRound r f).outlets = s.outlets := by
  rw [setRound_eq]

theorem duties_minded {k : Nat} {duty : Duty} :
    ((s.setRound r f).turnTo k duty).duties = s.duties.set k duty := by
  unfold turnTo
  rw [duties_setRound]

/-- Changing a round that there is puts the changed one in its place. -/
theorem rounds_setRound {round : Round} (hr : s.rounds[r]? = some round) :
    (s.setRound r f).rounds = s.rounds.set r (f round) := by
  unfold setRound
  rw [hr]

/-- Changing a round that there is not changes nothing. -/
theorem setRound_of_none (hr : s.rounds[r]? = none) : s.setRound r f = s := by
  unfold setRound
  rw [hr]

end

variable {s t : Server μ} {m : Move} {c c' : Call} {i k r : Nat} {duty duty' : Duty}

/-! ## Operations -/

theorem access_of_beginRun : Access s .run s.beginRun := by
  unfold beginRun
  cases hc : s.dispatcher.claim with
  | error e =>
      have hd : s.dispatcher.state ≠ .idle := by
        intro hd
        simp [Dispatcher.claim, hd] at hc
      have he : e = .alreadyListening := by
        cases hd' : s.dispatcher.state <;> simp_all [Dispatcher.claim]
      rw [he]
      exact .refuseRun hd
  | ok d =>
      have hturn : Dispatcher.Turn s.now s.dispatcher .claim d := Dispatcher.turn_of_claim hc
      cases hturn with
      | claim hd => exact .claim hd

theorem access_of_beginStop {dropped : Bool} (hm : m = .stop ∨ m = .drop) :
    Access s m { s.beginStop with dropped } := by
  unfold beginStop
  cases hc : s.closer with
  | none => exact .refuseStop m dropped hm hc
  | some k => exact .beginStop m dropped k hm hc

theorem access_of_bind {outcome : Except Error Address} (hc : s.calls[i]? = some c)
    (h : s.bind c outcome = some (t, c')) : Access s (.bind i outcome) (t.setCall i c') := by
  cases c with
  | binding k =>
      cases outcome with
      | ok a =>
          simp only [bind, Option.map_eq_some_iff, Prod.mk.injEq] at h
          obtain ⟨d, hd, rfl, rfl⟩ := h
          cases Dispatcher.turn_of_step hd with
          | bound k r a hr hp => exact .bound i k r a hc hr hp
      | error e =>
          simp only [bind, Option.map_eq_some_iff, Prod.mk.injEq] at h
          obtain ⟨d, hd, rfl, rfl⟩ := h
          cases Dispatcher.turn_of_step hd with
          | forgo k r hr hp => exact .forgo i k r e hc hr hp
  | _ => simp [bind] at h

theorem access_of_advance (hc : s.calls[i]? = some c) (h : s.advance c = some (t, c')) :
    Access s (.advance i) (t.setCall i c') := by
  cases c with
  | keeping k =>
      simp only [advance, Option.some.injEq, Prod.mk.injEq] at h
      obtain ⟨rfl, rfl⟩ := h
      exact .keep i k hc
  | barring k =>
      simp only [advance, Option.some.injEq, Prod.mk.injEq] at h
      obtain ⟨rfl, rfl⟩ := h
      exact .bar i k hc
  | closing k =>
      simp only [advance, Option.map_eq_some_iff, Prod.mk.injEq] at h
      obtain ⟨d, hd, rfl, rfl⟩ := h
      cases Dispatcher.turn_of_step hd with
      | close k r hr hp => exact .close i k r hc hr hp
  | emptying =>
      simp only [advance, Option.some.injEq, Prod.mk.injEq] at h
      obtain ⟨rfl, rfl⟩ := h
      exact .empty i hc
  | stopping left =>
      cases left with
      | nil =>
          simp only [advance, Option.some.injEq, Prod.mk.injEq] at h
          obtain ⟨rfl, rfl⟩ := h
          exact .finishStop i hc
      | cons a left =>
          simp only [advance, Option.some.injEq, Prod.mk.injEq] at h
          obtain ⟨rfl, rfl⟩ := h
          exact .stopNext i a left hc
  | binding k => simp [advance] at h
  | ran result => simp [advance] at h
  | halted result => simp [advance] at h

/-! ## The accept loop -/

/-- A callback that has just been called is what the loop is set to work on. -/
theorem call_at {d : Dispatcher} {run : Run} {cb : Callback} (hr : d.runs[k]? = some run) :
    (d.call k run cb).runs[k]? = some { run with phase := .calling cb } := by
  obtain ⟨hk, -⟩ := List.getElem?_eq_some_iff.1 hr
  simp [Dispatcher.call, Dispatcher.setPhase, hk]

theorem setPhase_at {d : Dispatcher} {run : Run} {phase : Run.Phase} (hr : d.runs[k]? = some run) :
    (d.setPhase k run phase).runs[k]? = some { run with phase } := by
  obtain ⟨hk, -⟩ := List.getElem?_eq_some_iff.1 hr
  simp [Dispatcher.setPhase, hk]

theorem access_of_loop {n : Dispatcher.Move} (h : s.loop n = some t) : Access s (.loop n) t := by
  cases n with
  | begin k =>
      simp only [loop, Option.map_eq_some_iff] at h
      obtain ⟨d, hd, rfl⟩ := h
      cases Dispatcher.turn_of_step hd with
      | begin k r a hr hp =>
          rw [call_at hr]
          exact .begin k r a hr hp
  | look k =>
      simp only [loop, Option.map_eq_some_iff] at h
      obtain ⟨d, hd, rfl⟩ := h
      cases Dispatcher.turn_of_step hd with
      | look k r hr hp hc =>
          rw [setPhase_at hr]
          exact .wait k r _ _ hr (hp ▸ .look) fun _ => hc
  | rest k =>
      simp only [loop, Option.map_eq_some_iff] at h
      obtain ⟨d, hd, rfl⟩ := h
      cases Dispatcher.turn_of_step hd with
      | rest k r hr hp =>
          rw [setPhase_at hr]
          exact .wait k r _ _ hr (hp ▸ .rest) (by simp [hp])
  | accept k outcome =>
      simp only [loop, Option.map_eq_some_iff] at h
      obtain ⟨d, hd, rfl⟩ := h
      cases Dispatcher.turn_of_step hd with
      | accept k r outcome hr hp =>
          rw [setPhase_at hr]
          exact .wait k r _ _ hr (hp ▸ .accept outcome) (by simp [hp])
  | call k =>
      simp only [loop, Option.map_eq_some_iff] at h
      obtain ⟨d, hd, rfl⟩ := h
      cases Dispatcher.turn_of_step hd with
      | call k r outcome hr hp =>
          rw [call_at hr]
          exact .call k r outcome hr hp
  | resume k =>
      simp only [loop, Option.map_eq_some_iff] at h
      obtain ⟨d, hd, rfl⟩ := h
      cases Dispatcher.turn_of_step hd with
      | resume k r deadline hr hp hc ht =>
          rw [setPhase_at hr]
          exact .wait k r _ _ hr (hp ▸ .resume deadline) (by simp [hp])
  | quit k =>
      simp only [loop, Option.map_eq_some_iff] at h
      obtain ⟨d, hd, rfl⟩ := h
      cases Dispatcher.turn_of_step hd with
      | quit k r hr hp hc =>
          rw [call_at hr]
          exact .quit k r hr hp hc
  | leave k =>
      simp only [loop, Option.map_eq_some_iff] at h
      obtain ⟨d, hd, rfl⟩ := h
      cases Dispatcher.turn_of_step hd with
      | leave k r hr hp =>
          have hrun : ({ s.dispatcher.setPhase k r .finished with state := .idle } : Dispatcher).runs[k]? =
              some { r with phase := .finished } := setPhase_at hr
          rw [hrun]
          exact .leave k r hr hp
  -- these moves belong to callers or to the end of a callback
  | claim => simp [loop] at h
  | bound k a => simp [loop] at h
  | forgo k => simp [loop] at h
  | finish k => simp [loop] at h
  | close k => simp [loop] at h

theorem access_of_work {intact : Bool} (hd : s.duties[k]? = some duty)
    (h : s.work k intact duty = some (t, duty')) : Access s (.work k intact) (t.turnTo k duty') := by
  -- a duty has one outcome, unless it looks at the flag, the round or the connection
  cases duty with
  | idle => simp [work] at h
  | opening a =>
      simp only [work, Option.some.injEq, Prod.mk.injEq] at h
      obtain ⟨rfl, rfl⟩ := h
      exact .openRound k intact a hd
  | reopening r a =>
      simp only [work, Option.some.injEq, Prod.mk.injEq] at h
      obtain ⟨rfl, rfl⟩ := h
      exact .reopen k intact r a hd
  | hiring r a =>
      simp only [work, Option.some.injEq, Prod.mk.injEq] at h
      obtain ⟨rfl, rfl⟩ := h
      exact .hire k intact r a hd
  | announcing a =>
      simp only [work, Option.map_eq_some_iff, Prod.mk.injEq] at h
      obtain ⟨started, ho, rfl, rfl⟩ := h
      exact .announceStart k intact a started hd ho
  | admitting peer =>
      simp only [work, Option.some.injEq, Prod.mk.injEq] at h
      obtain ⟨rfl, rfl⟩ := h
      cases hc : s.closing with
      | true => exact .refuse k intact peer hd hc
      | false => exact .welcome k intact peer hd hc
  | joining peer =>
      cases hr : s.round with
      | none =>
          simp only [work, hr, Option.some.injEq, Prod.mk.injEq] at h
          obtain ⟨rfl, rfl⟩ := h
          exact .miss k intact peer hd hr
      | some r =>
          simp only [work, hr, Option.some.injEq, Prod.mk.injEq] at h
          obtain ⟨rfl, rfl⟩ := h
          exact .join k intact peer r hd hr
  | founding peer r =>
      cases intact with
      | true =>
          simp only [work, if_true, Option.some.injEq, Prod.mk.injEq] at h
          obtain ⟨rfl, rfl⟩ := h
          exact .found k peer r hd
      | false =>
          simp only [work, Bool.false_eq_true, if_false, Option.some.injEq, Prod.mk.injEq] at h
          obtain ⟨rfl, rfl⟩ := h
          exact .lose k peer r hd
  | starting a =>
      simp only [work, Option.ite_none_right_eq_some, Option.some.injEq, Prod.mk.injEq] at h
      obtain ⟨hs, rfl, rfl⟩ := h
      exact .started k intact a hd hs
  | reporting e =>
      simp only [work, Option.map_eq_some_iff, Prod.mk.injEq] at h
      obtain ⟨acceptFailed, ho, rfl, rfl⟩ := h
      exact .reportFailure k intact e acceptFailed hd ho
  | retiring =>
      cases hr : s.round with
      | none =>
          simp only [work, hr, Option.some.injEq, Prod.mk.injEq] at h
          obtain ⟨rfl, rfl⟩ := h
          exact .retireNone k intact hd hr
      | some r =>
          simp only [work, hr, Option.some.injEq, Prod.mk.injEq] at h
          obtain ⟨rfl, rfl⟩ := h
          exact .retire k intact r hd hr
  | dismissing r =>
      simp only [work, Option.some.injEq, Prod.mk.injEq] at h
      obtain ⟨rfl, rfl⟩ := h
      exact .dismiss k intact r hd
  | parting =>
      simp only [work, Option.map_eq_some_iff, Prod.mk.injEq] at h
      obtain ⟨stopped, ho, rfl, rfl⟩ := h
      exact .part k intact stopped hd ho
  | done =>
      simp only [work, Option.map_eq_some_iff, Prod.mk.injEq] at h
      obtain ⟨d, hf, rfl, rfl⟩ := h
      cases Dispatcher.turn_of_step hf with
      | finish k r c hr hp => exact .finish k intact r c hd hr hp

/-! ## Registrars -/

/-- A registrar that waits looks, goes back to wait, or comes to what it waits for. -/
theorem access_of_await {round : Round} {outcome : Option (Server μ)} (hr : s.rounds[r]? = some round)
    (hg : round.registrar.waits = true)
    (hgo : ∀ u, outcome = some u → round.poised = true → Access s (.register r) u)
    (h : s.await r round outcome = some t) : Access s (.register r) t := by
  unfold await at h
  split at h
  · next hl =>
    obtain rfl := Option.some.inj h
    cases outcome with
    | none => exact .poise _ r round false hr (.inl rfl) hg (by simp)
    | some u => exact hgo u rfl hl
  · split at h
    · next hq =>
      obtain rfl := Option.some.inj h
      exact .heed r round hr hg hq
    · next hq =>
      obtain ⟨-, -, rfl⟩ := Option.map_eq_some_iff.1 h
      exact .poise _ r round true hr (.inl rfl) hg fun _ => by simpa using hq

theorem access_of_register {round : Round} (hr : s.rounds[r]? = some round)
    (h : s.register r round = some t) : Access s (.register r) t := by
  have hwaits : ∀ {g : Registrar}, round.registrar = g → g.waits = true → round.registrar.waits = true :=
    fun hg hw => hg ▸ hw
  cases hg : round.registrar with
  | absent => simp [register, hg] at h
  | finished => simp [register, hg] at h
  | waiting =>
      simp only [register, hg] at h
      refine access_of_await hr (hwaits hg rfl) (fun u hu hl => ?_) h
      obtain ⟨⟨notice, rest⟩, ht, rfl⟩ := Option.map_eq_some_iff.1 hu
      cases notice with
      | started a => exact .takeStart r round a rest hr hg hl ht
      | stopped a ending => exact .takeEnd r round a ending rest hr hg hl ht
  | entering a =>
      simp only [register, hg, Option.some.injEq] at h
      obtain rfl := h
      cases hc : s.closing with
      | true => exact .turnAway r round a hr hg hc
      | false => exact .enter r round a hr hg hc
  | erasing a ending =>
      simp only [register, hg, Option.some.injEq] at h
      obtain rfl := h
      exact .erase r round a ending hr hg
  | announcing a =>
      simp only [register, hg] at h
      refine access_of_await hr (hwaits hg rfl) (fun u hu hl => ?_) h
      obtain ⟨attendantStarted, ho, rfl⟩ := Option.map_eq_some_iff.1 hu
      exact .announce r round a attendantStarted hr hg hl ho
  | reporting a ending =>
      simp only [register, hg] at h
      refine access_of_await hr (hwaits hg rfl) (fun u hu hl => ?_) h
      obtain ⟨attendantStopped, ho, rfl⟩ := Option.map_eq_some_iff.1 hu
      exact .report r round a ending attendantStopped hr hg hl ho
  | closing =>
      simp only [register, hg, Option.some.injEq] at h
      obtain rfl := h
      exact .shut r round hr hg
  | clearing =>
      cases ht : round.inbox.take? with
      | none =>
          simp only [register, hg, ht, Option.some.injEq] at h
          obtain rfl := h
          exact .retireRegistrar r round hr hg ht
      | some taken =>
          rcases taken with ⟨a | ⟨a, ending⟩, rest⟩
          · simp only [register, hg, ht, Option.some.injEq] at h
            obtain rfl := h
            exact .clearStart r round a rest hr hg ht
          · simp only [register, hg, ht, Option.some.injEq] at h
            obtain rfl := h
            exact .clearEnd r round a ending rest hr hg ht

theorem access_of_wake {round : Round} (hr : s.rounds[r]? = some round) (h : s.wake r round = some t) :
    Access s (.wake r) t := by
  simp only [wake, Option.ite_none_right_eq_some, Bool.and_eq_true, Bool.not_eq_true',
    Option.some.injEq] at h
  obtain ⟨⟨⟨hg, -⟩, hq⟩, rfl⟩ := h
  exact .poise _ r round true hr (.inr rfl) hg fun _ => hq

/-! ## All moves -/

/-- Every move of a server has one of the listed outcomes. -/
theorem access_of_step (h : s.step m = some t) : Access s m t := by
  cases m with
  | run =>
      simp only [step, Option.ite_none_left_eq_some, Option.some.injEq] at h
      obtain ⟨-, rfl⟩ := h
      exact access_of_beginRun
  | bind i outcome =>
      cases hc : s.calls[i]? with
      | none => simp [step, hc] at h
      | some c =>
          simp only [step, hc, Option.map_eq_some_iff] at h
          obtain ⟨⟨u, c'⟩, hb, rfl⟩ := h
          exact access_of_bind hc hb
  | stop =>
      simp only [step, Option.ite_none_left_eq_some, Option.some.injEq] at h
      obtain ⟨-, rfl⟩ := h
      exact access_of_beginStop (.inl rfl)
  | advance i =>
      cases hc : s.calls[i]? with
      | none => simp [step, hc] at h
      | some c =>
          simp only [step, hc, Option.map_eq_some_iff] at h
          obtain ⟨⟨u, c'⟩, ha, rfl⟩ := h
          exact access_of_advance hc ha
  | loop n => exact access_of_loop h
  | work k intact =>
      cases hd : s.duties[k]? with
      | none => simp [step, hd] at h
      | some duty =>
          simp only [step, hd, Option.map_eq_some_iff] at h
          obtain ⟨⟨u, duty'⟩, hw, rfl⟩ := h
          exact access_of_work hd hw
  | register r =>
      cases hr : s.rounds[r]? with
      | none => simp [step, hr] at h
      | some round =>
          simp only [step, hr] at h
          exact access_of_register hr h
  | wake r =>
      cases hr : s.rounds[r]? with
      | none => simp [step, hr] at h
      | some round =>
          simp only [step, hr] at h
          exact access_of_wake hr h
  | attendant a n =>
      cases hm : s.members[a]? with
      | none => simp [step, moveAttendant, hm] at h
      | some member =>
          cases hr : s.rounds[member.round]? with
          | none => simp [step, moveAttendant, hm, hr] at h
          | some round =>
              simp only [step, moveAttendant, hm, hr, Option.map_eq_some_iff] at h
              obtain ⟨⟨b, q⟩, hstep, rfl⟩ := h
              exact .attendant a n member round b q hm hr hstep
  | tick nanos =>
      simp only [step, Option.some.injEq] at h
      obtain rfl := h
      exact .tick nanos
  | drop =>
      simp only [step, Option.ite_none_left_eq_some, Option.some.injEq] at h
      obtain ⟨-, rfl⟩ := h
      exact access_of_beginStop (.inr rfl)

end Server
end Courier
