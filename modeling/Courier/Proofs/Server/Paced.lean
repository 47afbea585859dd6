import Courier.Proofs.Server.Membership

/-!
# Paced — runs that leave nobody behind

A run lowers the flag that refuses connections when it begins.  A stop raises it, and goes on to empty the set; a
registrar looks at it before it enters anybody in the set.  A run that lowers the flag in the middle of a stop, or
while the registrar of a run before it is about to look at it, undoes what the stop has raised it for: somebody may
be entered in the set who outlives the end of the run.  If the flag is lowered at no such moment, nobody does.

- `House.Along` — moves that are made under a condition,
- `Server.isSteady`, `House.Paced` — the flag is lowered at no such moment,
- `Server.Barred`, `Server.barred_of_access` — what is so of runs that have been asked to end,
- `House.stopped_of_ended` — who may not have stopped once a run and its registrar are over,
- `House.survivor_of_lowered_flag` — runs in which somebody has not.
-/

namespace Courier

variable {μ : Type} [Marshaler μ]

namespace Duty

/-- Whether the loop is taking a connection in. -/
def isAdmitting : Duty → Bool
  | .admitting _ => true
  | .joining _ => true
  | .founding _ _ => true
  | _ => false

end Duty

namespace Agenda

variable {p : Agenda} {j k : Nat} {phase : Run.Phase} {duty : Duty}

/-- While the loop of a run has something to do, all other runs are over. -/
theorem Lawful.finished_of_other (hl : p.Lawful) (hd : p.duties[j]? = some duty) (hne : duty ≠ .idle)
    (hjk : j ≠ k) (hk : p.phases[k]? = some phase) : phase = .finished := by
  obtain ⟨phase', hp, hlive, -⟩ := hl.stand_of_duty hd hne
  refine Classical.byContradiction fun hphase => hjk ?_
  have hlast := hl.last k phase hk hphase
  have hlast' := hl.last j phase' hp hlive
  omega

end Agenda

namespace Server

variable {s t : Server μ} {m : Move} {a : AttendantId} {x : Member μ} {k r : Nat} {round round' : Round} {d : Duty}
  {run : Run}

/-! ## When the flag is lowered -/

/-- The flag is not lowered in the middle of a stop, or while a registrar may go on to look at it. -/
def isSteady (s : Server μ) : Move → Bool
  | .work k _ =>
    match s.duties[k]? with
    | some (.reopening _ _) => !s.calls.any Call.isSweeping && !s.rounds.any Round.admits
    | _ => true
  | _ => true

theorem steady_of_reopening {intact : Bool} {p : Address} (h : s.isSteady (.work k intact) = true)
    (hd : s.duties[k]? = some (.reopening r p)) :
    ¬ s.Sweeps ∧ ∀ (i : Nat) round, s.rounds[i]? = some round → round.admits = false := by
  simp only [isSteady, hd, Bool.and_eq_true, Bool.not_eq_true', List.any_eq_false] at h
  refine ⟨?_, fun i round hr => Bool.eq_false_iff.2 (h.2 round (List.mem_of_getElem? hr))⟩
  rintro ⟨i, c, hc, hsweep⟩
  exact h.1 c (List.mem_of_getElem? hc) hsweep

/-- A connection that is being taken in has been so before, or the loop has had it from its listener. -/
theorem admitting_from (h : Access s m t) (hd : t.duties[k]? = some d) (hadm : d.isAdmitting = true) :
    (∃ d', s.duties[k]? = some d' ∧ d'.isAdmitting = true) ∨
      ∃ run, s.dispatcher.runs[k]? = some run ∧ run.phase.isTaking = true := by
  rcases duty_from h hd with hd' | hcomes
  · exact .inl ⟨d, hd', hadm⟩
  · cases hcomes with
    | called outcome hr hp => exact .inr ⟨_, hr, by simp [hp, Run.Phase.isTaking]⟩
    | joining peer hd' _ => exact .inl ⟨_, hd', rfl⟩
    | founding peer r hd' => exact .inl ⟨_, hd', rfl⟩
    | _ => simp [Duty.isAdmitting] at hadm

/-- A registrar that has been told to end, and knows of it, enters nobody any more. -/
theorem RelayGoes.told (h : RelayGoes s m t r round round') (hl : s.agenda.Lawful) (hr : s.rounds[r]? = some round)
    (hs : round.Sound) (hq : round.quit = true) (ha : round.admits = false) :
    round'.quit = true ∧ round'.admits = false := by
  refine ⟨h.quit hq, Bool.eq_false_iff.2 fun ha' => ?_⟩
  rcases h.admits hl hr hs ha' with hadmits | hopen
  · simp [ha] at hadmits
  · simp [hq] at hopen

/-- A run that is about to lower the flag has not accepted anybody: its registrar has not begun. -/
theorem nobody_of_reopening (hl : s.agenda.Lawful) (hp : s.Posted) {p : Address}
    (hd : s.duties[k]? = some (.reopening r p)) (hx : s.members[a]? = some x) : s.runOf? x ≠ some k := by
  intro hrun
  have hbegun : s.agenda.begun[x.round]? = some k := hrun
  obtain ⟨round, hr, hstaffed, -⟩ := hp.joined a x hx
  obtain ⟨phase, -, -, -, hstand⟩ := hl.stand_of_duty (k := k) hd (by simp)
  obtain ⟨-, hseat, -, hb, -⟩ := hstand.of_hiring (.inl rfl)
  rw [← hl.begun_inj hbegun hseat.begun] at hb
  have hunstaffed : round.isStaffed = false := congrArg Prod.fst (badge_of_round hr hb)
  simp [hunstaffed] at hstaffed

/-! ## Runs that have been asked to end -/

/-- What is so of runs that have been asked to end. -/
structure Barred (s : Server μ) : Prop where
  /-- The flag is up while a stop is about to ask a run to end. -/
  raised : ∀ (i : Nat) k, s.calls[i]? = some (.closing k) → s.closing = true
  /-- Once the flag is down again, no connection is taken from the listener any more. -/
  taking : ∀ (k : Nat) run, s.dispatcher.runs[k]? = some run → run.closed = true → s.closing = false →
    run.phase.isTaking = false
  /-- None is being taken in. -/
  loops : ∀ k d, s.dispatcher.isClosed k = true → s.closing = false → s.duties[k]? = some d →
    d.isAdmitting = false
  /-- Nor does a registrar enter anybody. -/
  registrars : ∀ (a : AttendantId) x round k, s.members[a]? = some x → s.runOf? x = some k →
    s.dispatcher.isClosed k = true → s.closing = false → s.rounds[x.round]? = some round →
    round.quit = true ∧ round.admits = false
  /-- Whoever is still in the set is going to be swept out. -/
  swept : ∀ a k, a ∈ s.tracked → s.Accepted k a → s.dispatcher.isClosed k = true → s.Sweeps

theorem sweeps_of_closing {i : Nat} (h : s.calls[i]? = some (.closing k)) : s.Sweeps :=
  ⟨i, _, h, rfl⟩

/-- What a move that leaves the flag down has found: the flag was down before, or a run has just lowered it. -/
theorem lowered_from (h : Access s m t) (hst : s.isSteady m = true) (hc : t.closing = false) :
    s.closing = false ∨ ¬ s.Sweeps ∧ (∀ (i : Nat) round, s.rounds[i]? = some round → round.admits = false) ∧
      ∃ k r p, s.duties[k]? = some (.reopening r p) ∧ t = { s with closing := false }.turnTo k (.hiring r p) := by
  cases hs : s.closing with
  | false => exact .inl rfl
  | true =>
      rcases closing_or_reopening h hs with ht | ⟨k, intact, r, p, rfl, hd, ht⟩
      · simp [hc] at ht
      · obtain ⟨hsweeps, hadmits⟩ := steady_of_reopening hst hd
        exact .inr ⟨hsweeps, hadmits, k, r, p, hd, ht⟩

namespace Barred

/-- With the flag down, whoever has been asked to end now has been so before. -/
theorem closed_from (hs : s.Barred) (h : Access s m t) (hst : s.isSteady m = true) (hc : t.closing = false)
    (hk : t.dispatcher.isClosed k = true) : s.dispatcher.isClosed k = true := by
  rcases isClosed_from h hk with hk' | ⟨i, -, hi⟩
  · exact hk'
  · rcases lowered_from h hst hc with hlow | ⟨hsweeps, -⟩
    · simp [hs.raised i k hi] at hlow
    · exact absurd (sweeps_of_closing hi) hsweeps

theorem raised_of_access (hs : s.Barred) (h : Access s m t) (hst : s.isSteady m = true) {i : Nat}
    (hi : t.calls[i]? = some (.closing k)) : t.closing = true := by
  refine Bool.of_not_eq_false fun hc => ?_
  -- a stop that has just come to this point has raised the flag, and any other has been there before
  have hfrom : s.calls[i]? = some (.closing k) ∨ t.closing = true := by
    rcases (calls_of_access h).call_from hi with hb | ⟨c, hc', rfl | hgoes⟩
    · cases hb
    · exact .inl hc'
    · cases hgoes with
      | bar _ hup => exact .inr hup
  rcases hfrom with hi' | hup
  · rcases lowered_from h hst hc with hlow | ⟨hsweeps, -⟩
    · simp [hs.raised i k hi'] at hlow
    · exact hsweeps (sweeps_of_closing hi')
  · simp [hc] at hup

theorem taking_of_access (hs : s.Barred) (h : Access s m t) (hst : s.isSteady m = true) (hl : s.agenda.Lawful)
    (hr' : t.dispatcher.runs[k]? = some run) (hk : run.closed = true) (hc : t.closing = false) :
    run.phase.isTaking = false := by
  have hclosed := hs.closed_from h hst hc ((isClosed_eq hr').trans hk)
  rcases lowered_from h hst hc with hlow | ⟨-, -, j, r, p, hj, rfl⟩
  · rcases (runs_of_access h).run_from hr' with rfl | ⟨found, hr, rfl | hgoes⟩
    · simp at hk
    · exact hs.taking k _ hr hk hlow
    · rw [isClosed_eq hr] at hclosed
      have hnot := hs.taking k found hr hclosed hlow
      cases hgoes with
      | bound _ _ _ | began _ _ => rfl
      | moved phase _ _ htaking =>
          refine Bool.eq_false_iff.2 fun ht => ?_
          rcases htaking ht with ht' | hopen
          · simp [hnot] at ht'
          · simp [hclosed] at hopen
      | asked _ _ => exact hnot
  · -- the run that has lowered the flag is in its first callback, and all others are over
    have hphase := phase_at (s := s) hr'
    by_cases hjk : j = k
    · obtain rfl := hjk
      obtain ⟨phase, hp, -, -, hstand⟩ := hl.stand_of_duty hj (by simp)
      obtain ⟨hstarted, -⟩ := hstand.of_hiring (.inl rfl)
      rw [Option.some.inj (hphase.symm.trans hp), hstarted]
      rfl
    · rw [hl.finished_of_other hj (by simp) hjk hphase]
      rfl

theorem loops_of_access (hs : s.Barred) (h : Access s m t) (hst : s.isSteady m = true) (hl : s.agenda.Lawful)
    (hk : t.dispatcher.isClosed k = true) (hc : t.closing = false) (hd : t.duties[k]? = some d) :
    d.isAdmitting = false := by
  refine Bool.eq_false_iff.2 fun hadm => ?_
  have hk' := hs.closed_from h hst hc hk
  rcases lowered_from h hst hc with hlow | ⟨-, -, j, r, p, hj, ht⟩
  · rcases admitting_from h hd hadm with ⟨d', hd', hadm'⟩ | ⟨run, hr, htaking⟩
    · simp [hs.loops k d' hk' hlow hd'] at hadm'
    · simp [hs.taking k run hr ((isClosed_eq hr).symm.trans hk') hlow] at htaking
  · -- the run that has lowered the flag takes nobody in yet, and all others are over
    subst ht
    have hd' : (s.duties.set j (.hiring r p))[k]? = some d := hd
    by_cases hjk : j = k
    · obtain rfl := hjk
      obtain ⟨hlt, -⟩ := List.getElem?_eq_some_iff.1 hj
      rw [List.getElem?_set_self hlt] at hd'
      obtain rfl := Option.some.inj hd'
      simp [Duty.isAdmitting] at hadm
    · rw [List.getElem?_set_ne hjk] at hd'
      obtain ⟨phase, hp, hlive, -⟩ := hl.stand_of_duty (k := k) hd' (by rintro rfl; simp [Duty.isAdmitting] at hadm)
      exact hlive (hl.finished_of_other hj (by simp) hjk hp)

theorem registrars_of_access (hs : s.Barred) (h : Access s m t) (hst : s.isSteady m = true) (hm : s.Mustered)
    (hp : s.Posted) {y : Member μ} (hy : t.members[a]? = some y) (hrun : t.runOf? y = some k)
    (hk : t.dispatcher.isClosed k = true) (hc : t.closing = false) (hr' : t.rounds[y.round]? = some round') :
    round'.quit = true ∧ round'.admits = false := by
  have hk' := hs.closed_from h hst hc hk
  rcases lowered_from h hst hc with hlow | ⟨-, hadmits, j, r, p, hj, ht⟩
  · rcases member_of_access h hy with ⟨x, hx, hyr, -, -⟩ | ⟨j, peer, r, hd, rfl, rfl, rfl⟩
    · obtain ⟨round, hr, -⟩ := hp.joined a x hx
      obtain ⟨l, hl⟩ := (hm.enrolled a x hx).run
      obtain rfl := Option.some.inj ((runOf?_of_access h hyr hl).symm.trans hrun)
      obtain ⟨hquit, hnot⟩ := hs.registrars a x round l hx hl hk' hlow hr
      obtain ⟨found, hfound, hgoes⟩ := (relay_of_access h).round_to hr
      rw [hyr] at hr'
      obtain rfl := Option.some.inj (hfound.symm.trans hr')
      -- its registrar has been told to end before
      rcases hgoes with rfl | hgoes
      · exact ⟨hquit, hnot⟩
      · exact hgoes.told hm.lawful hr (hm.rounds _ _ hr) hquit hnot
    · -- the run does not take anybody in any more
      have hbegun := begun_of_founding hm.lawful hd
      obtain rfl : j = k := Option.some.inj (hbegun.symm.trans hrun)
      have hadm := hs.loops j _ hk' hlow hd
      simp [Duty.isAdmitting] at hadm
  · subst ht
    have hx : s.members[a]? = some y := hy
    have hr : s.rounds[y.round]? = some round' := hr'
    have hrun' : s.agenda.begun[y.round]? = some k := hrun
    refine ⟨?_, hadmits y.round round' hr⟩
    -- the run that lowers the flag has accepted nobody yet, and all others are over
    by_cases hjk : j = k
    · obtain rfl := hjk
      exact absurd hrun' (nobody_of_reopening hm.lawful hp hj hx)
    · have hlt := hm.lawful.begun_lt k (List.mem_of_getElem? hrun')
      have hphase := List.getElem?_eq_getElem hlt
      have hfin := hm.lawful.finished_of_other hj (by simp) hjk hphase
      exact quit_of_over hm.lawful (hfin ▸ hphase) hr hrun'

/-- A registrar that is about to enter somebody of a run that has been asked to end finds the flag up. -/
theorem raised_of_entering (hs : s.Barred) (hp : s.Posted) (hr : s.rounds[r]? = some round)
    (hg : round.registrar = .entering a) (hk : s.Accepted k a) (hclosed : s.dispatcher.isClosed k = true) :
    s.closing = true := by
  obtain ⟨x, hx, hrun⟩ := hk
  obtain ⟨y, hy, rfl⟩ := hp.subject r round a hr (hg ▸ rfl)
  obtain rfl := Option.some.inj (hx.symm.trans hy)
  refine Bool.of_not_eq_false fun hlow => ?_
  have hnot := (hs.registrars a x round k hx hrun hclosed hlow hr).2
  simp [Round.admits, hg] at hnot

theorem swept_of_access (hs : s.Barred) (h : Access s m t) (hm : s.Mustered) (hp : s.Posted) (hf : s.Relayed)
    (ha : a ∈ t.tracked) (hk : t.Accepted k a) (hclosed : t.dispatcher.isClosed k = true) : t.Sweeps := by
  have hon : s.Sweeps → t.Sweeps := fun hsweeps => by
    rcases sweeps_of_access h hsweeps with hnil | hsweeps'
    · simp [hnil] at ha
    · exact hsweeps'
  rcases (effect_of_relay (relay_of_access h)).tracked_from ha with ha' | ⟨r, round, hr, hg, hlow⟩
  · obtain ⟨x, hx⟩ := hf.known a (.inl ha')
    rcases isClosed_from h hclosed with hclosed' | ⟨i, -, hi⟩
    · exact hon (hs.swept a k ha' (accepted_from h hm hx hk) hclosed')
    · exact hon (sweeps_of_closing hi)
  · -- nobody enters an attendant of such a run
    obtain ⟨x, hx, -⟩ := hp.subject r round a hr (hg ▸ rfl)
    rcases isClosed_from h hclosed with hclosed' | ⟨i, -, hi⟩
    · simp [hs.raised_of_entering hp hr hg (accepted_from h hm hx hk) hclosed'] at hlow
    · simp [hs.raised i k hi] at hlow

end Barred

theorem barred_of_access (h : Access s m t) (hst : s.isSteady m = true) (hm : s.Mustered) (hp : s.Posted)
    (hf : s.Relayed) (hs : s.Barred) : t.Barred where
  raised := fun _ _ hi => hs.raised_of_access h hst hi
  taking := fun _ _ hr hk hc => hs.taking_of_access h hst hm.lawful hr hk hc
  loops := fun _ _ hk hc hd => hs.loops_of_access h hst hm.lawful hk hc hd
  registrars := fun _ _ _ _ hy hrun hk hc hr => hs.registrars_of_access h hst hm hp hy hrun hk hc hr
  swept := fun _ _ ha hk hclosed => hs.swept_of_access h hm hp hf ha hk hclosed

/-- A stop that has just raised the flag has everything that follows ahead of it. -/
theorem barred_of_closing (he : s.Engaged) (hc : s.closing = true) : s.Barred where
  raised := fun _ _ _ => hc
  taking := fun _ _ _ _ hlow => by simp [hc] at hlow
  loops := fun _ _ _ hlow => by simp [hc] at hlow
  registrars := fun _ _ _ _ _ _ _ hlow => by simp [hc] at hlow
  swept := fun a _ ha _ _ => (he.swept hc).resolve_left (List.ne_nil_of_mem ha)

/-- The consumer does not come near what is so of runs that have been asked to end. -/
theorem barred_of_drained {o : Outlets} (hs : s.Barred) : ({ s with outlets := o } : Server μ).Barred :=
  ⟨hs.raised, hs.taking, hs.loops, hs.registrars, hs.swept⟩

theorem barred_of_build {b : Builder μ} (h : b.build = .ok s) : s.Barred := by
  obtain ⟨codec, config, rfl⟩ := eq_of_build h
  constructor <;> simp

/-! ## Runs that are over -/

/-- The registrar of a run has looked through the inbox, and whoever has not stopped is in the set or on the list of
a stop. -/
theorem stopped_or_shown (hm : s.Mustered) (hx : s.members[a]? = some x)
    (hr : s.rounds[x.round]? = some round) (hg : round.registrar = .finished) :
    x.attendant.status = .stopped ∨ a ∈ s.tracked ∨ s.Stopping a := by
  refine Classical.or_iff_not_imp_left.2 fun hst => ?_
  have henrolled := hm.enrolled a x hx
  have hsound := hm.rounds _ _ hr
  cases henrolled.covered hst with
  | starting hc hreported =>
      -- the accept loop would wait for the start, and the registrar would be at work
      obtain ⟨k, hd, hk⟩ := henrolled.hosted _ hc (Courier.Call.result?_of_launches hc.2 hreported)
      obtain ⟨found, hfound, hquit, -⟩ := round_of_starting hm.lawful hd hk
      obtain rfl := Option.some.inj (hr.symm.trans hfound)
      have hquit' : round.quit = true := hsound.quit (by rw [hg]; rfl)
      simp [hquit] at hquit'
  | awaited h =>
      obtain ⟨found, hfound, hmem | hentering⟩ := h
      · obtain rfl := Option.some.inj (hr.symm.trans hfound)
        simp [hsound.empty hg] at hmem
      · obtain rfl := Option.some.inj (hr.symm.trans hfound)
        simp [hg] at hentering
  | tracked h => exact .inl h
  | stopping h => exact .inr h

/-- Once a run has been asked to end and no stop is under way, nobody it has accepted is in the set or on the list of
a stop. -/
theorem Barred.not_shown (hs : s.Barred) (hu : s.Unhalted) (hk : s.Accepted k a)
    (hclosed : s.dispatcher.isClosed k = true) : a ∉ s.tracked ∧ ¬ s.Stopping a := by
  refine ⟨fun ha => not_sweeps hu (hs.swept a k ha hk hclosed), ?_⟩
  rintro ⟨i, left, hi, -⟩
  have hhalting := hu i _ hi
  simp [Call.isHalting] at hhalting

end Server

namespace House

variable {h i j : House μ} {m : Move} {ms ns : List Move} {a : AttendantId} {k r : Nat} {round : Round}
  {P : Server μ → Server.Move → Bool}

/-! ## Moves under a condition -/

/-- What can be reached from a state by moves of which those of the server are made under a condition. -/
inductive Along (P : Server μ → Server.Move → Bool) : House μ → List Move → House μ → Prop where
  | refl (h : House μ) : Along P h [] h
  | step {h i j : House μ} {m : Move} {ms : List Move} (hstep : h.step m = some i)
      (hm : ∀ n, m = .server n → P h.server n = true) (hrest : Along P i ms j) : Along P h (m :: ms) j

theorem Along.reaches (ha : Along P h ms i) : Reaches h ms i := by
  induction ha with
  | refl => exact .refl _
  | step hstep _ _ ih => exact .step hstep ih

/-- Whether a move is made under the condition, or is not the server's. -/
def meets (P : Server μ → Server.Move → Bool) (h : House μ) : Move → Bool
  | .server n => P h.server n
  | _ => true

/-- The house after given moves, as long as they are made under the condition. -/
def afterAlong (P : Server μ → Server.Move → Bool) (h : House μ) : List Move → Option (House μ)
  | [] => some h
  | m :: ms => if h.meets P m then (h.step m).bind fun i => i.afterAlong P ms else none

theorem along_of_afterAlong (hms : h.afterAlong P ms = some i) : Along P h ms i := by
  induction ms generalizing h with
  | nil =>
      obtain rfl := Option.some.inj hms
      exact .refl h
  | cons m ms ih =>
      simp only [afterAlong, Option.ite_none_right_eq_some, Option.bind_eq_some_iff] at hms
      obtain ⟨hm, u, hstep, hrest⟩ := hms
      refine .step hstep (fun n hn => ?_) (ih hrest)
      subst hn
      exact hm

/-- The flag is never lowered in the middle of a stop, or while a registrar is about to look at it. -/
def Paced : House μ → List Move → House μ → Prop :=
  Along Server.isSteady

theorem barred_of_step (hstep : h.step m = some i) (hm : ∀ n, m = .server n → h.server.isSteady n = true)
    (ha : h.Accounted) (hb : h.server.Barred) : i.server.Barred := by
  rcases step_cases hstep with ⟨n, rfl, hs⟩ | ⟨o, heq, -⟩
  · exact Server.barred_of_access (Server.access_of_step hs) (hm n rfl) ha.ordered.mustered ha.posted ha.relayed hb
  · rw [heq]
    exact Server.barred_of_drained hb

theorem barred_of_paced (hr : Paced h ms i) (ha : h.Accounted) (hb : h.server.Barred) : i.server.Barred := by
  induction hr with
  | refl => exact hb
  | step hstep hm _ ih => exact ih (accounted_of_step hstep ha) (barred_of_step hstep hm ha hb)

/-- Say that the loop of run `k` has ended and its registrar is over.

Whoever the run has accepted has stopped, is still in the set, or is on the list of a stop that is under way.  Provided
the flag that refuses connections has never been lowered in the middle of a stop, or while a registrar may go on to
look at it, only somebody whom a stop is about to sweep out is still in the set, so that everybody has stopped when no
stop is under way. -/
theorem stopped_of_ended {b : Builder μ} {s : Server μ} (hb : b.build = .ok s) (hr : Reaches { server := s } ms h)
    (hk : k ∈ h.server.dispatcher.ended) (hbegun : h.server.agenda.begun[r]? = some k)
    (hround : h.server.rounds[r]? = some round) (hg : round.registrar = .finished)
    (ha : h.server.Accepted k a) :
    (h.server.statusOf a = .stopped ∨ a ∈ h.server.tracked ∨ h.server.Stopping a) ∧
      (Paced { server := s } ms h → (a ∈ h.server.tracked → h.server.Sweeps) ∧
        (h.server.Unhalted → h.server.statusOf a = .stopped)) := by
  have hacc : h.Accounted := accounted_of_reaches hr (accounted_of_build hb)
  obtain ⟨x, hx, hrun⟩ := ha
  have hrun' : h.server.agenda.begun[x.round]? = some k := hrun
  obtain rfl := hacc.ordered.mustered.lawful.begun_inj hrun' hbegun
  have hcases := Server.stopped_or_shown hacc.ordered.mustered hx hround hg
  rw [Server.statusOf_eq hx]
  refine ⟨hcases, fun hpaced => ?_⟩
  have hbarred := barred_of_paced hpaced (accounted_of_build hb) (Server.barred_of_build hb)
  have hclosed := hacc.parted.asked k hk
  refine ⟨fun htracked => hbarred.swept a k htracked ⟨x, hx, hrun⟩ hclosed, fun hu => ?_⟩
  obtain ⟨htracked, hstopping⟩ := hbarred.not_shown hu ⟨x, hx, hrun⟩ hclosed
  exact hcases.resolve_right fun hshown => hshown.elim htracked hstopping

/-- The loop of run 0 has ended, its registrar is over, it has accepted client 0, and no stop is under way. -/
structure Over (h : House μ) : Prop where
  ended : 0 ∈ h.server.dispatcher.ended
  begun : h.server.agenda.begun[0]? = some 0
  registrar : ∃ round, h.server.rounds[0]? = some round ∧ round.registrar = .finished
  accepted : h.server.Accepted 0 0
  unhalted : h.server.Unhalted

/-- Whether all of this is so. -/
def isOver (h : House μ) : Bool :=
  decide (0 ∈ h.server.dispatcher.ended) && decide (h.server.agenda.begun[0]? = some 0) &&
    h.server.rounds[0]?.any (fun round => round.registrar matches .finished) &&
    h.server.members[0]?.any (fun x => decide (h.server.runOf? x = some 0)) &&
    h.server.calls.all fun c => !c.isHalting

theorem over_of_isOver (h : House μ) (hh : h.isOver = true) : h.Over := by
  simp only [isOver, Bool.and_eq_true, decide_eq_true_eq, Option.any_eq_true, List.all_eq_true,
    Bool.not_eq_true'] at hh
  obtain ⟨⟨⟨⟨hended, hbegun⟩, round, hround, hg⟩, haccepted⟩, hhalting⟩ := hh
  refine ⟨hended, hbegun, ⟨round, hround, ?_⟩, haccepted, fun i c hc => hhalting c (List.mem_of_getElem? hc)⟩
  split at hg
  · assumption
  · simp at hg

/-- One client is accepted, and a stop ends the run. -/
theorem stopped_of_one_client :
    ∃ h, twofold.build = .ok fresh.server ∧ Paced fresh (oneClient ++ .server .stop :: oneClientAfter) h ∧
      h.server.Accepted 0 0 ∧ h.server.statusOf 0 = .stopped := by
  obtain ⟨h, hh, hcheck⟩ := (Option.any_eq_true isOver
      (fresh.afterAlong Server.isSteady (oneClient ++ .server .stop :: oneClientAfter))).1 (by decide +kernel)
  have hover := over_of_isOver h hcheck
  obtain ⟨round, hround, hg⟩ := hover.registrar
  have hpaced : Paced fresh (oneClient ++ .server .stop :: oneClientAfter) h := along_of_afterAlong hh
  exact ⟨h, rfl, hpaced, hover.accepted, ((stopped_of_ended (b := twofold) rfl hpaced.reaches hover.ended hover.begun
    hround hg hover.accepted).2 hpaced).2 hover.unhalted⟩

/-- A registrar has a start in hand when a stop comes out well and the run ends, which tells the registrar to end. -/
def inHand : List Move :=
  opening ++ arrival 0 ++ admission 0 ++ [register, register, .server .stop] ++ List.replicate 4 halt ++
    [.server (.loop (.quit 0)), work, work, work, work, .server (.loop (.leave 0))]

/-- A run lowers the flag behind the back of a stop that has just raised it, or while the registrar of the run before
has a start in hand.  The loop has ended, its registrar is over, and no stop is under way, while an attendant that it
has accepted goes on; in the first case nothing is left to do by itself. -/
theorem survivor_of_lowered_flag :
    (∃ h i j, twofold.build = .ok fresh.server ∧ fresh.after early = some h ∧ h.step (.server .stop) = some i ∧
      i.after earlyAfter = some j ∧ j.Over ∧ j.server.Quiet ∧ j.server.statusOf 0 = .running) ∧
    ∃ j, fresh.after (inHand ++ opening 1 2 ++ List.replicate 4 register) = some j ∧ j.Over ∧
      j.server.statusOf 0 = .running := by
  refine ⟨?_, ?_⟩
  · obtain ⟨h, i, j, hh, hi, hj, hcheck⟩ := exists_of_check fresh early earlyAfter
      (fun _ j => j.isOver && decide j.server.Quiet && decide (j.server.statusOf 0 = .running))
      (by decide +kernel)
    simp only [Bool.and_eq_true, decide_eq_true_eq] at hcheck
    obtain ⟨⟨hover, hquiet⟩, hrunning⟩ := hcheck
    exact ⟨h, i, j, rfl, hh, hi, hj, over_of_isOver j hover, hquiet, hrunning⟩
  · obtain ⟨j, hj, hcheck⟩ := exists_of_run fresh (inHand ++ opening 1 2 ++ List.replicate 4 register)
      (fun j => j.isOver && decide (j.server.statusOf 0 = .running))
      (by decide +kernel)
    simp only [Bool.and_eq_true, decide_eq_true_eq] at hcheck
    obtain ⟨hover, hrunning⟩ := hcheck
    exact ⟨j, hj, over_of_isOver j hover, hrunning⟩

end House
end Courier
