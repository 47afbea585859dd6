import Courier.Proofs.Server.House
import Courier.Proofs.Server.Quiet

/-!
# Bulletins — what a server tells of its runs

A run reports its start once its registrar has begun, and its end once that has been told to end.  In between the run is
up.  As only the last run of a server is not over, a start is reported when no run is up, and an end by the one that is.

- `Server.Up` — a run has reported its start and not its end,
- `Server.Broadcasts`, `Server.broadcasts_of_access` — what a move tells, and how it bears on that,
- `House.bulletins`, `House.Alternates` — what moves tell, and that starts and ends take turns,
- `House.told_of_reaches` — they do for as long as somebody receives them.
-/

namespace Courier

variable {μ : Type} [Marshaler μ]

/-- Whether the work of a callback is done. -/
def Duty.isDone : Duty → Bool
  | .done => true
  | _ => false

/-- Whether the work of a callback is about an outcome of accepting. -/
def Duty.isServing : Duty → Bool
  | .admitting _ | .joining _ | .founding _ _ | .starting _ | .reporting _ => true
  | _ => false

/-- Whether a run at this point has reported its start and not its end.  The callbacks for both report when their work
is about to be done. -/
def Run.Phase.isUp : Run.Phase → Bool → Bool
  | .calling (.started _), done => done
  | .calling .stopped, done => !done
  | .calling _, _ => true
  | phase, _ => phase.isBetween

theorem Run.Phase.isUp_of_isBetween {phase : Run.Phase} {done : Bool} (h : phase.isBetween = true) :
    phase.isUp done = true := by
  cases phase <;> simp_all [isBetween, isUp]

namespace Server

variable {s t : Server μ} {m : Move} {j k : Nat} {run run' : Run} {d d' : Duty}

/-! ## Runs that are up -/

/-- Whether run `k` has reported its start and not its end. -/
def isUpAt (s : Server μ) (k : Nat) : Bool :=
  s.dispatcher.runs[k]?.any fun run => s.duties[k]?.any fun d => run.phase.isUp d.isDone

/-- A run has reported its start and not its end. -/
def Up (s : Server μ) : Prop :=
  ∃ k, s.isUpAt k = true

theorem isUpAt_eq (hr : s.dispatcher.runs[k]? = some run) (hd : s.duties[k]? = some d) :
    s.isUpAt k = run.phase.isUp d.isDone := by
  simp [isUpAt, hr, hd]

/-- A run that goes on within one of the stretches of its way stays up, or stays down. -/
theorem up_iff_of_set (hr : s.dispatcher.runs[k]? = some run) (hd : s.duties[k]? = some d)
    (hruns : t.dispatcher.runs = s.dispatcher.runs.set k run') (hduties : t.duties = s.duties.set k d')
    (heq : run'.phase.isUp d'.isDone = run.phase.isUp d.isDone) : t.Up ↔ s.Up := by
  refine exists_congr fun j => ?_
  by_cases hkj : k = j
  · subst hkj
    obtain ⟨hlt, -⟩ := List.getElem?_eq_some_iff.1 hr
    obtain ⟨hlt', -⟩ := List.getElem?_eq_some_iff.1 hd
    have hr' : t.dispatcher.runs[k]? = some run' := by rw [hruns, List.getElem?_set_self hlt]
    have hd' : t.duties[k]? = some d' := by rw [hduties, List.getElem?_set_self hlt']
    rw [isUpAt_eq hr' hd', isUpAt_eq hr hd, heq]
  · simp only [isUpAt, hruns, hduties, List.getElem?_set_ne hkj]

/-- Only the run that is not over can be up. -/
theorem up_iff_at (hl : s.agenda.Lawful) (hr : s.dispatcher.runs[k]? = some run) (hlive : run.phase ≠ .finished)
    (hd : s.duties[k]? = some d) : s.Up ↔ run.phase.isUp d.isDone = true := by
  rw [← isUpAt_eq hr hd]
  refine ⟨fun ⟨j, hj⟩ => ?_, fun hk => ⟨k, hk⟩⟩
  -- a run that is up is not over, and only the last run may not be
  obtain ⟨q, hq, hup⟩ := (Option.any_eq_true _ _).1 hj
  have hne : q.phase ≠ .finished := by
    intro hfin
    simp [hfin, Run.Phase.isUp, Run.Phase.isBetween] at hup
  have hlast := hl.last j q.phase (phase_at hq) hne
  have hlast' := hl.last k run.phase (phase_at hr) hlive
  obtain rfl : j = k := by omega
  exact hj

/-! ## Moves -/

/-- What a move tells the consumer of runs. -/
inductive Broadcasts (s t : Server μ) : Prop where
  | nothing (hstarted : t.outlets.started = s.outlets.started) (hstopped : t.outlets.stopped = s.outlets.stopped)
      (hup : t.Up ↔ s.Up)
  | started (a : Address) (ho : s.outlets.started.offer? a = some t.outlets.started)
      (hstopped : t.outlets.stopped = s.outlets.stopped) (hs : ¬ s.Up) (ht : t.Up)
  | stopped (ho : s.outlets.stopped.offer? () = some t.outlets.stopped)
      (hstarted : t.outlets.started = s.outlets.started) (hs : s.Up) (ht : ¬ t.Up)

/-- A run whose loop has something to do inside a callback. -/
theorem stand_at (hl : s.agenda.Lawful) (hd : s.duties[k]? = some d) (hne : d ≠ .idle) :
    ∃ run, s.dispatcher.runs[k]? = some run ∧ run.phase ≠ .finished ∧ s.agenda.Stand k run.phase d := by
  obtain ⟨phase, hp, hlive, -, hstand⟩ := hl.stand_of_duty (k := k) hd hne
  obtain ⟨run, hr, rfl⟩ := run_at hp
  exact ⟨run, hr, hlive, hstand⟩

/-- The callback of a run that takes a connection in or reports a failure is about an outcome of accepting. -/
theorem serving_phase {p : Agenda} {phase : Run.Phase} (h : p.Stand k phase d) (hd : d.isServing = true) :
    ∃ outcome, phase = .calling (Dispatcher.callbackOf outcome) := by
  cases h with
  | opens ho _ _ _ _ =>
      cases ho with
      | admitting peer | joining peer | founding peer | starting peer _ => exact ⟨.ok peer, rfl⟩
      | reporting e => exact ⟨.error e, rfl⟩
      | _ => simp [Duty.isServing] at hd
  | hiring _ hd' _ _ _ _ => rcases hd' with rfl | rfl <;> simp [Duty.isServing] at hd
  | leaving hl _ _ _ _ _ _ => rcases hl with ⟨-, rfl⟩ | ⟨-, rfl⟩ <;> simp [Duty.isServing] at hd
  | _ => simp [Duty.isServing] at hd

theorem announcing_phase {p : Agenda} {phase : Run.Phase} {a : Address} (h : p.Stand k phase (.announcing a)) :
    phase = .calling (.started a) := by
  cases h with
  | opens ho _ _ _ _ => cases ho with | announcing _ => rfl
  | hiring _ hd _ _ _ _ => simp at hd
  | leaving hl _ _ _ _ _ _ => simp at hl

theorem parting_phase {p : Agenda} {phase : Run.Phase} (h : p.Stand k phase .parting) :
    phase = .calling .stopped := by
  cases h with
  | opens ho _ _ _ _ => cases ho
  | hiring _ hd _ _ _ _ => simp at hd
  | parting _ _ _ _ _ => rfl
  | leaving hl _ _ _ _ _ _ => simp at hl

theorem up_of_same (hdispatcher : t.dispatcher = s.dispatcher) (hduties : t.duties = s.duties) : t.Up ↔ s.Up := by
  simp only [Up, isUpAt, hdispatcher, hduties]

/-- Such a run is up, and stays so. -/
theorem up_of_serving (hl : s.agenda.Lawful) (hd : s.duties[k]? = some d) (hserves : d.isServing = true)
    (hruns : t.dispatcher.runs = s.dispatcher.runs) (hduties : t.duties = s.duties.set k .done) : t.Up ↔ s.Up := by
  obtain ⟨run, hr, -, hstand⟩ := stand_at hl hd (by rintro rfl; simp [Duty.isServing] at hserves)
  obtain ⟨outcome, hphase⟩ := serving_phase hstand hserves
  refine up_iff_of_set hr hd (hruns.trans (Agenda.set_of_at hr)) hduties ?_
  rw [hphase]
  cases outcome <;> rfl

/-- Work that does not finish that of the callback tells nothing. -/
theorem up_of_work (hl : s.agenda.Lawful) (hd : s.duties[k]? = some d) (hne : d ≠ .idle)
    (hruns : t.dispatcher.runs = s.dispatcher.runs) (hduties : t.duties = s.duties.set k d')
    (hdone : d'.isDone = d.isDone) : t.Up ↔ s.Up := by
  obtain ⟨run, hr, -, -⟩ := stand_at hl hd hne
  exact up_iff_of_set hr hd (hruns.trans (Agenda.set_of_at hr)) hduties (by rw [hdone])

/-- A run whose loop goes on to other work. -/
theorem up_of_turned (hl : s.agenda.Lawful) (hr : s.dispatcher.runs[k]? = some run)
    (hruns : t.dispatcher.runs = s.dispatcher.runs.set k run') (hduties : t.duties = s.duties.set k d')
    (heq : ∀ done, run'.phase.isUp d'.isDone = run.phase.isUp done) : t.Up ↔ s.Up := by
  obtain ⟨d, hd⟩ := hl.duty_of_phase (phase_at hr)
  exact up_iff_of_set hr hd hruns hduties (heq d.isDone)

/-- A run that changes while its loop has nothing else to do. -/
theorem up_of_advanced (hl : s.agenda.Lawful) (hr : s.dispatcher.runs[k]? = some run)
    (hruns : t.dispatcher.runs = s.dispatcher.runs.set k run') (hduties : t.duties = s.duties)
    (heq : ∀ done, run'.phase.isUp done = run.phase.isUp done) : t.Up ↔ s.Up := by
  obtain ⟨d, hd⟩ := hl.duty_of_phase (phase_at hr)
  exact up_iff_of_set hr hd hruns (hduties.trans (Agenda.set_of_at hd)) (heq d.isDone)

/-- A run that has just been claimed is not up. -/
theorem up_of_claim (hl : s.agenda.Lawful) (hruns : t.dispatcher.runs = s.dispatcher.runs ++ [({} : Run)])
    (hduties : t.duties = s.duties ++ [.idle]) : t.Up ↔ s.Up := by
  have hlength : s.duties.length = s.dispatcher.runs.length := by simpa [agenda] using hl.length
  refine exists_congr fun j => ?_
  simp only [isUpAt, hruns, hduties]
  by_cases hj : j < s.dispatcher.runs.length
  · rw [List.getElem?_append_left hj, List.getElem?_append_left (hlength ▸ hj)]
  · rw [List.getElem?_eq_none (Nat.le_of_not_lt hj), List.getElem?_append_right (Nat.le_of_not_lt hj),
      List.getElem?_singleton]
    split <;> simp [Run.Phase.isUp, Run.Phase.isBetween]

theorem broadcasts_of_access (h : Access s m t) (hl : s.agenda.Lawful) : Broadcasts s t := by
  have hl' := lawful_of_access h hl
  cases h with
  | claim _ => exact .nothing rfl rfl (up_of_claim hl rfl rfl)
  | bound _ k r _ _ hr hp | forgo _ k r _ _ hr hp =>
      exact .nothing rfl rfl (up_of_advanced hl hr rfl rfl fun _ => by rw [hp]; rfl)
  | close i k r _ hr _ => exact .nothing rfl rfl (up_of_advanced hl hr rfl rfl fun _ => rfl)
  | begin k r _ hr hp | leave k r hr hp =>
      exact .nothing rfl rfl (up_of_turned hl hr rfl rfl fun _ => by rw [hp]; rfl)
  | wait k r _ phase hr hw _ =>
      refine .nothing rfl rfl (up_of_turned hl hr rfl rfl fun _ => ?_)
      rw [Run.Phase.isUp_of_isBetween hw.isBetween.1]
      exact Run.Phase.isUp_of_isBetween hw.isBetween.2
  | call k r outcome hr hp =>
      exact .nothing rfl rfl (up_of_turned hl hr rfl rfl fun _ => by rw [hp]; cases outcome <;> rfl)
  | quit k r hr hp _ =>
      refine .nothing rfl rfl (up_of_turned hl hr rfl rfl fun _ => ?_)
      rcases hp with hp | ⟨_, hp⟩ <;> rw [hp] <;> rfl
  | openRound k _ a hd => exact .nothing rfl rfl (up_of_work hl hd (by simp) rfl rfl rfl)
  | reopen k _ r a hd => exact .nothing rfl rfl (up_of_work hl hd (by simp) rfl rfl rfl)
  | hire k _ r a hd =>
      exact .nothing (congrArg _ outlets_setRound) (congrArg _ outlets_setRound)
        (up_of_work hl hd (by simp) (congrArg _ dispatcher_setRound) duties_minded rfl)
  | announceStart k _ a started hd ho =>
      -- the run is the one that is not over, so that no other is up before
      obtain ⟨run, hr, hlive, hstand⟩ := stand_at hl hd (by simp)
      have hphase := announcing_phase hstand
      obtain ⟨hlt, -⟩ := List.getElem?_eq_some_iff.1 hd
      refine .started a ho rfl ?_ ⟨k, ?_⟩
      · rw [up_iff_at hl hr hlive hd, hphase]
        simp [Run.Phase.isUp, Duty.isDone]
      · have hd' : (s.duties.set k Duty.done)[k]? = some .done := List.getElem?_set_self hlt
        exact (isUpAt_eq
          (s := ({ s with outlets := { s.outlets with started } } : Server μ).turnTo k .done) hr hd').trans
          (by rw [hphase]; rfl)
  | refuse k _ peer hd _ => exact .nothing rfl rfl (up_of_serving hl hd rfl rfl rfl)
  | welcome k _ peer hd _ => exact .nothing rfl rfl (up_of_work hl hd (by simp) rfl rfl rfl)
  | miss k _ peer hd _ => exact .nothing rfl rfl (up_of_serving hl hd rfl rfl rfl)
  | join k _ peer r hd _ => exact .nothing rfl rfl (up_of_work hl hd (by simp) rfl rfl rfl)
  | found k peer r hd => exact .nothing rfl rfl (up_of_work hl hd (by simp) rfl rfl rfl)
  | lose k peer r hd => exact .nothing rfl rfl (up_of_serving hl hd rfl rfl rfl)
  | started k _ a hd _ => exact .nothing rfl rfl (up_of_serving hl hd rfl rfl rfl)
  | reportFailure k _ e _ hd _ => exact .nothing rfl rfl (up_of_serving hl hd rfl rfl rfl)
  | retireNone k _ hd _ => exact .nothing rfl rfl (up_of_work hl hd (by simp) rfl rfl rfl)
  | retire k _ r hd _ => exact .nothing rfl rfl (up_of_work hl hd (by simp) rfl rfl rfl)
  | dismiss k _ r hd =>
      exact .nothing (congrArg _ outlets_setRound) (congrArg _ outlets_setRound)
        (up_of_work hl hd (by simp) (congrArg _ dispatcher_setRound) duties_minded rfl)
  | part k _ stopped hd ho =>
      -- for the same reason no other is up afterwards
      obtain ⟨run, hr, hlive, hstand⟩ := stand_at hl hd (by simp)
      have hphase := parting_phase hstand
      obtain ⟨hlt, -⟩ := List.getElem?_eq_some_iff.1 hd
      refine .stopped ho rfl ?_ ?_
      · rw [up_iff_at hl hr hlive hd, hphase]
        rfl
      · have hd' : (s.duties.set k Duty.done)[k]? = some .done := List.getElem?_set_self hlt
        rw [up_iff_at hl' hr hlive hd', hphase]
        simp [Run.Phase.isUp, Duty.isDone]
  | finish k _ r c hd hr hp =>
      refine .nothing rfl rfl (up_iff_of_set hr hd rfl rfl ?_)
      rw [hp]
      cases c <;> rfl
  | stopNext _ _ _ _ | turnAway _ _ _ _ _ _ | clearStart _ _ _ _ _ _ _ =>
      exact .nothing (congrArg _ outlets_stopAttendant) (congrArg _ outlets_stopAttendant)
        (up_of_same dispatcher_stopAttendant duties_stopAttendant)
  | enter _ _ _ _ _ _ =>
      exact .nothing (congrArg _ outlets_track) (congrArg _ outlets_track) (up_of_same dispatcher_track duties_track)
  | _ => exact .nothing rfl rfl .rfl

end Server

/-! ## Runs of a house -/

/-- A report on a run. -/
inductive Bulletin where
  | started (a : Address)
  | stopped
deriving DecidableEq

/-- The address that a start is reported with. -/
def Bulletin.address? : Bulletin → Option Address
  | .started a => some a
  | .stopped => none

namespace House

variable {h i : House μ} {m : Move} {ms : List Move} {bs : List Bulletin} {b : Bulletin}

section

variable {α : Type} {f : House μ → House μ → List α}

/-- What moves bring about one after the other, where `f` says what one does. -/
def trace (f : House μ → House μ → List α) (h : House μ) : List Move → List α
  | [] => []
  | m :: ms =>
    match h.step m with
    | none => []
    | some i => f h i ++ i.trace f ms

/-- What every move keeps of a house, with what has been brought about, is so in the end. -/
theorem Reaches.traces {P : House μ → List α → Prop}
    (hP : ∀ {h i : House μ} {m : Move} {as : List α}, h.step m = some i → P h as → P i (as ++ f h i))
    (hr : Reaches h ms i) {as : List α} (has : P h as) : P i (as ++ h.trace f ms) := by
  induction hr generalizing as with
  | refl => simpa [trace] using has
  | step hstep _ ih =>
      simp only [trace, hstep, ← List.append_assoc]
      exact ih (hP hstep has)

end

/-- The reports on runs that a move puts into the channels for them. -/
def bulletins (h i : House μ) : List Bulletin :=
  (i.server.outlets.started.sent.drop h.server.outlets.started.sent.length).map .started ++
    (i.server.outlets.stopped.sent.drop h.server.outlets.stopped.sent.length).map fun _ => .stopped

/-- Starts and ends take turns, and a start comes first. -/
def Alternates (bs : List Bulletin) : Prop :=
  ∀ (n : Nat) b, bs[n]? = some b → (b = .stopped ↔ n % 2 = 1)

theorem Alternates.concat (h : Alternates bs) (hb : b = .stopped ↔ bs.length % 2 = 1) : Alternates (bs ++ [b]) := by
  intro n c hc
  rcases of_getElem?_concat hc with hc | ⟨rfl, rfl⟩
  · exact h n c hc
  · exact hb

/-- Somebody receives the reports on runs. -/
structure Receives (h : House μ) : Prop where
  started : h.server.outlets.started.closed = false
  stopped : h.server.outlets.stopped.closed = false

/-- What has been told of runs is what has been put into the channels.  For as long as somebody receives it, whose turn
it is shows whether a run is up. -/
structure Told (h : House μ) (bs : List Bulletin) : Prop where
  lawful : h.server.agenda.Lawful
  starts : bs.filterMap Bulletin.address? = h.server.outlets.started.sent
  ends : bs.count .stopped = h.server.outlets.stopped.sent.length
  alternates : h.Receives → Alternates bs
  up : h.Receives → (h.server.Up ↔ bs.length % 2 = 1)

/-- What is told by a move makes up for what the channels have not held before. -/
theorem Told.records (hh : h.Told bs) (hstarted : h.server.outlets.started.sent <+: i.server.outlets.started.sent)
    (hstopped : h.server.outlets.stopped.sent <+: i.server.outlets.stopped.sent) :
    (bs ++ bulletins h i).filterMap Bulletin.address? = i.server.outlets.started.sent ∧
      (bs ++ bulletins h i).count .stopped = i.server.outlets.stopped.sent.length := by
  obtain ⟨starts, hstarts⟩ := hstarted
  obtain ⟨ends, hends⟩ := hstopped
  have hbulletins : bulletins h i = starts.map .started ++ ends.map fun _ => .stopped := by
    simp [bulletins, ← hstarts, ← hends]
  rw [hbulletins, ← hstarts, ← hends]
  refine ⟨?_, ?_⟩
  · simp [List.filterMap_append, hh.starts, List.filterMap_map, Function.comp_def, Bulletin.address?]
  · have hnone : (starts.map Bulletin.started).count .stopped = 0 := List.count_eq_zero.2 (by simp)
    simp [List.count_append, hh.ends, hnone, List.map_const']

/-- A move that tells nothing. -/
theorem Told.nothing (hh : h.Told bs) (hl : i.server.agenda.Lawful)
    (hstarted : i.server.outlets.started.sent = h.server.outlets.started.sent)
    (hstopped : i.server.outlets.stopped.sent = h.server.outlets.stopped.sent) (hup : i.server.Up ↔ h.server.Up)
    (hreceives : i.Receives → h.Receives) : i.Told (bs ++ bulletins h i) := by
  have hnil : bulletins h i = [] := by simp [bulletins, hstarted, hstopped]
  rw [hnil, List.append_nil]
  exact ⟨hl, hstarted ▸ hh.starts, hstopped ▸ hh.ends, fun hi => hh.alternates (hreceives hi),
    fun hi => hup.trans (hh.up (hreceives hi))⟩

/-- A move that tells of a start or of an end. -/
theorem Told.concat (hh : h.Told bs) (hl : i.server.agenda.Lawful)
    (hstarted : h.server.outlets.started.sent <+: i.server.outlets.started.sent)
    (hstopped : h.server.outlets.stopped.sent <+: i.server.outlets.stopped.sent)
    (hb : i.Receives → bulletins h i = [b]) (hturn : b = .stopped ↔ h.server.Up)
    (hup : i.server.Up ↔ ¬ h.server.Up) (hreceives : i.Receives → h.Receives) : i.Told (bs ++ bulletins h i) := by
  obtain ⟨hstarts, hends⟩ := hh.records hstarted hstopped
  refine ⟨hl, hstarts, hends, fun hi => ?_, fun hi => ?_⟩
  · rw [hb hi]
    exact (hh.alternates (hreceives hi)).concat (hturn.trans (hh.up (hreceives hi)))
  · rw [hb hi, List.length_append, List.length_singleton, hup, hh.up (hreceives hi)]
    omega

theorem told_of_access {n : Server.Move} (haccess : Server.Access h.server n i.server) (hh : h.Told bs) :
    i.Told (bs ++ bulletins h i) := by
  have hl := Server.lawful_of_access haccess hh.lawful
  cases Server.broadcasts_of_access haccess hh.lawful with
  | nothing hstarted hstopped hup =>
      exact hh.nothing hl (by rw [hstarted]) (by rw [hstopped]) hup fun hi =>
        ⟨hstarted ▸ hi.started, hstopped ▸ hi.stopped⟩
  | started a ho hstopped hdown hup =>
      have hreceives : i.Receives → h.Receives := fun hi =>
        ⟨(Channel.closed_of_offer? ho).symm.trans hi.started, hstopped ▸ hi.stopped⟩
      refine hh.concat (b := .started a) hl (Channel.prefix_of_offer? ho) (hstopped ▸ List.prefix_rfl) (fun hi => ?_)
        (by simp [hdown]) (by simp [hdown, hup]) hreceives
      simp [bulletins, Channel.sent_of_offer? ho (hreceives hi).started, hstopped]
  | stopped ho hstarted hup hdown =>
      have hreceives : i.Receives → h.Receives := fun hi =>
        ⟨hstarted ▸ hi.started, (Channel.closed_of_offer? ho).symm.trans hi.stopped⟩
      refine hh.concat (b := .stopped) hl (hstarted ▸ List.prefix_rfl) (Channel.prefix_of_offer? ho) (fun hi => ?_)
        (by simp [hup]) (by simp [hdown, hup]) hreceives
      simp [bulletins, Channel.sent_of_offer? ho (hreceives hi).stopped, hstarted]

theorem told_of_step (hstep : h.step m = some i) (hh : h.Told bs) : i.Told (bs ++ bulletins h i) := by
  rcases step_cases hstep with ⟨n, -, hs⟩ | ⟨o, heq, hd⟩
  · exact told_of_access (Server.access_of_step hs) hh
  · -- the consumer puts nothing in, and whoever receives has received before
    have hl : i.server.agenda.Lawful := by
      rw [heq]
      rcases Server.turn_of_drained hd with hsame | hturn
      · exact hsame ▸ hh.lawful
      · exact Agenda.lawful_of_turn hturn hh.lawful
    refine hh.nothing hl (by rw [heq]; exact hd.started.sent) (by rw [heq]; exact hd.stopped.sent) (by rw [heq]; rfl)
      fun hi => ?_
    have hstarted : o.started.closed = false := by simpa only [heq] using hi.started
    have hstopped : o.stopped.closed = false := by simpa only [heq] using hi.stopped
    exact ⟨hd.started.closed_eq_false hstarted, hd.stopped.closed_eq_false hstopped⟩

theorem told_of_build {b : Builder μ} {s : Server μ} (hb : b.build = .ok s) : ({ server := s } : House μ).Told [] := by
  have hl := Server.lawful_of_build hb
  obtain ⟨codec, config, rfl⟩ := Server.eq_of_build hb
  refine ⟨hl, rfl, rfl, fun _ => ?_, fun _ => ?_⟩
  · intro n b hn
    simp at hn
  · simp [Server.Up, Server.isUpAt]

/-- Whatever has happened to a server, what has been told of its runs is what has been put into the channels, and starts
and ends take turns for as long as somebody receives them. -/
theorem told_of_reaches {b : Builder μ} {s : Server μ} (hb : b.build = .ok s) (hr : Reaches { server := s } ms h) :
    h.Told (trace bulletins { server := s } ms) :=
  hr.traces told_of_step (told_of_build hb)

end House
end Courier
