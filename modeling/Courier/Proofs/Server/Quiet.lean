import Courier.Proofs.Attendant.Quiet
import Courier.Proofs.Server.Stop

/-!
# Quiet — servers that can do nothing on their own

Operations, accept loops, registrars and attendants wait for each other through inboxes and channels.  A server is
quiet when all of them wait: for each other, for peers, or for the consumer.

- `Server.Quiet` — no task can go on by itself, which can be decided,
- `Server.Jammed` — an accept loop waits for an attendant, the attendant for the registrar, and the registrar for
  the consumer,
- `Server.Completed` — what a stop of a run is to bring about,
- `Server.completed_iff_of_quiet` — when it does.
-/

namespace Courier

variable {μ : Type} [Marshaler μ]

/-- Whether a move is the loop's own.  Binding and accepting are up to the network, which also wakes a loop to
look for a connection. -/
def Dispatcher.Move.isOwn : Dispatcher.Move → Bool
  | .begin _ | .rest _ | .call _ | .resume _ | .quit _ | .leave _ => true
  | _ => false

namespace Server

/-- Whether a move is one of the server's own tasks or of an operation under way. -/
def Move.isOwn : Move → Bool
  | .advance _ => true
  | .loop m => m.isOwn
  | .work _ _ => true
  | .register _ => true
  | .attendant _ m => m.isOwn
  | _ => false

/-- No task of the server can go on by itself. -/
def Quiet (s : Server μ) : Prop :=
  ∀ m, m.isOwn = true → s.step m = none

variable {s : Server μ} {a : AttendantId} {x : Member μ} {round : Round} {run : Run} {duty : Duty}
  {c : Server.Call} {i k r : Nat}

/-- The moves of a server's own tasks and of the operations that have been begun. -/
def ownMoves (s : Server μ) : List Move :=
  (List.range s.calls.length).map .advance ++
    (List.range s.dispatcher.runs.length).flatMap (fun k =>
      [.loop (.begin k), .loop (.rest k), .loop (.call k), .loop (.resume k), .loop (.quit k), .loop (.leave k)]) ++
    (List.range s.duties.length).flatMap (fun k => [.work k true, .work k false]) ++
    (List.range s.rounds.length).map .register ++
    s.members.zipIdx.flatMap fun (x, a) => x.attendant.ownMoves.map (.attendant a)

theorem isOwn_of_mem_ownMoves {m : Move} (h : m ∈ s.ownMoves) : m.isOwn = true := by
  simp only [ownMoves, List.mem_append, List.mem_map, List.mem_flatMap, List.mem_cons, List.not_mem_nil,
    or_false] at h
  rcases h with (((⟨i, -, rfl⟩ | ⟨k, -, rfl | rfl | rfl | rfl | rfl | rfl⟩) | ⟨k, -, rfl | rfl⟩) | ⟨r, -, rfl⟩) |
    ⟨⟨x, a⟩, -, n, hn, rfl⟩
  case inr => exact Attendant.isOwn_of_mem_ownMoves hn
  all_goals rfl

/-- A run or an operation that has not been begun cannot go on, and nobody moves an attendant or a registrar
that does not exist. -/
theorem quiet_of_ownMoves (h : ∀ m ∈ s.ownMoves, s.step m = none) : s.Quiet := by
  intro m hm
  cases m with
  | advance i =>
      by_cases hi : i < s.calls.length
      · exact h _ (by simp [ownMoves, hi])
      · have hnone : s.calls[i]? = none := List.getElem?_eq_none (Nat.le_of_not_lt hi)
        simp [step, hnone]
  | loop m =>
      -- a move of a loop names a run, which may not exist
      obtain ⟨k, hk, hmem⟩ : ∃ k, m.run? = some k ∧
          (k < s.dispatcher.runs.length → Move.loop m ∈ s.ownMoves) := by
        cases m with
        | begin k | rest k | call k | resume k | quit k | leave k =>
            exact ⟨k, rfl, fun hlt => by simp [ownMoves, hlt]⟩
        | _ => simp [Move.isOwn, Dispatcher.Move.isOwn] at hm
      by_cases hlt : k < s.dispatcher.runs.length
      · exact h _ (hmem hlt)
      · have hnone : s.dispatcher.step s.now m = none := by
          simp [Dispatcher.step, hk, List.getElem?_eq_none (Nat.le_of_not_lt hlt)]
        cases m <;> simp [step, loop, hnone]
  | work k intact =>
      by_cases hk : k < s.duties.length
      · exact h _ (by cases intact <;> simp [ownMoves, hk])
      · have hnone : s.duties[k]? = none := List.getElem?_eq_none (Nat.le_of_not_lt hk)
        simp [step, hnone]
  | register r =>
      by_cases hr : r < s.rounds.length
      · exact h _ (by simp [ownMoves, hr])
      · have hnone : s.rounds[r]? = none := List.getElem?_eq_none (Nat.le_of_not_lt hr)
        simp [step, hnone]
  | attendant a m =>
      cases hx : s.members[a]? with
      | none => simp [step, moveAttendant, hx]
      | some x =>
          cases hr : s.rounds[x.round]? with
          | none => simp [step, moveAttendant, hx, hr]
          | some round =>
              have hquiet : x.attendant.Quiet a s.now (s.portsOf round) := by
                refine Attendant.quiet_of_ownMoves fun n hn => ?_
                have hmem : Move.attendant a n ∈ s.ownMoves := by
                  refine List.mem_append_right _ (List.mem_flatMap.2 ⟨(x, a), ?_, ?_⟩)
                  · exact List.mem_zipIdx_iff_getElem?.2 hx
                  · exact List.mem_map.2 ⟨n, hn, rfl⟩
                have hstep := h _ hmem
                simpa only [step, moveAttendant, hx, hr, Option.map_eq_none_iff] using hstep
              simp only [step, moveAttendant, hx, hr, hquiet m hm, Option.map_none]
  | _ => simp [Move.isOwn] at hm

instance : Decidable s.Quiet :=
  decidable_of_iff (∀ m ∈ s.ownMoves, (s.step m).isNone = true)
    ⟨fun h => quiet_of_ownMoves fun m hm => Option.isNone_iff_eq_none.1 (h m hm),
      fun h m hm => Option.isNone_iff_eq_none.2 (h m (isOwn_of_mem_ownMoves hm))⟩

/-! ## What nobody can do -/

namespace Quiet

theorem advance_eq_none (h : s.Quiet) (hc : s.calls[i]? = some c) : s.advance c = none := by
  have hstep := h (.advance i) rfl
  simpa only [step, hc, Option.map_eq_none_iff] using hstep

theorem work_eq_none (h : s.Quiet) (hd : s.duties[k]? = some duty) : s.work k true duty = none := by
  have hstep := h (.work k true) rfl
  simpa only [step, hd, Option.map_eq_none_iff] using hstep

theorem register_eq_none (h : s.Quiet) (hr : s.rounds[r]? = some round) : s.register r round = none := by
  have hstep := h (.register r) rfl
  simpa only [step, hr] using hstep

theorem loop_eq_none {m : Dispatcher.Move} (h : s.Quiet) (hr : s.dispatcher.runs[k]? = some run)
    (hm : m.isOwn = true) (hk : m.run? = some k) : Dispatcher.stepRun s.now s.dispatcher k run m = none := by
  have hstep : s.loop m = none := h (.loop m) hm
  have hnone : s.dispatcher.step s.now m = none := by
    cases m <;> simp_all [Dispatcher.Move.isOwn, loop]
  simpa only [Dispatcher.step, hk, hr] using hnone

theorem attendant (h : s.Quiet) (hx : s.members[a]? = some x) (hr : s.rounds[x.round]? = some round) :
    x.attendant.Quiet a s.now (s.portsOf round) := by
  intro m hm
  have hstep := h (.attendant a m) hm
  simpa only [step, moveAttendant, hx, hr, Option.map_eq_none_iff] using hstep

end Quiet

/-! ## Registrars -/

/-- A registrar has something to pass on, and the consumer has left no room for it. -/
inductive Blocked (o : Outlets) : Registrar → Prop where
  | announcing (a : AttendantId) (hc : o.attendantStarted.closed = false)
      (hf : o.attendantStarted.isFull = true) : Blocked o (.announcing a)
  | reporting (a : AttendantId) (e : Ending) (hc : o.attendantStopped.closed = false)
      (hf : o.attendantStopped.isFull = true) : Blocked o (.reporting a e)

/-- A registrar is not blocked if there is room for its reports. -/
theorem not_blocked_of_room {o : Outlets} {g : Registrar}
    (hstarted : o.attendantStarted.closed = false → o.attendantStarted.isFull = false)
    (hstopped : o.attendantStopped.closed = false → o.attendantStopped.isFull = false) : ¬ Blocked o g := by
  intro hb
  cases hb with
  | announcing _ hc hfull => simp [hstarted hc] at hfull
  | reporting _ _ hc hfull => simp [hstopped hc] at hfull

/-- A registrar that waits for nothing to come about has not been told to end. -/
theorem of_await_eq_none {outcome : Option (Server μ)} (h : s.await r round outcome = none) : outcome = none := by
  unfold await at h
  split at h
  · simp at h
  · split at h
    · simp at h
    · exact Option.map_eq_none_iff.1 h

theorem await_ne_none_of_quit {outcome : Option (Server μ)} (hq : round.quit = true) :
    s.await r round outcome ≠ none := by
  unfold await
  cases round.poised <;> simp [hq]

/-- A registrar that has been told to end waits for nobody. -/
theorem finished_of_quiet (hq : s.Quiet) (hr : s.rounds[r]? = some round) (hs : round.isStaffed = true)
    (hquit : round.quit = true) : round.registrar = .finished := by
  have hregister := hq.register_eq_none hr
  cases hg : round.registrar with
  | absent => simp [Round.isStaffed, hg] at hs
  | waiting | announcing a | reporting a e => simp [register, hg, await_ne_none_of_quit hquit] at hregister
  | entering a => simp [register, hg] at hregister
  | erasing a e => simp [register, hg] at hregister
  | closing => simp [register, hg] at hregister
  | clearing =>
      simp only [register, hg] at hregister
      split at hregister <;> simp at hregister
  | finished => rfl

/-- A registrar that has not been told to end waits for a report or for the consumer. -/
theorem waits_of_quiet (hq : s.Quiet) (hr : s.rounds[r]? = some round) (hsound : round.Sound)
    (hs : round.isStaffed = true) (hquit : round.quit = false) :
    round.registrar = .waiting ∧ round.inbox.queue = [] ∨ Blocked s.outlets round.registrar := by
  have hregister := hq.register_eq_none hr
  have hleft : round.registrar.hasLeft = false := by
    cases hl : round.registrar.hasLeft with
    | false => rfl
    | true => simp [hsound.quit hl] at hquit
  cases hg : round.registrar with
  | absent => simp [Round.isStaffed, hg] at hs
  | waiting =>
      simp only [register, hg] at hregister
      exact .inl ⟨rfl, (Channel.take?_eq_none_iff _).1 (Option.map_eq_none_iff.1 (of_await_eq_none hregister))⟩
  | entering a => simp [register, hg] at hregister
  | erasing a e => simp [register, hg] at hregister
  | announcing a =>
      simp only [register, hg] at hregister
      have hnone : s.outlets.attendantStarted.offer? a = none := Option.map_eq_none_iff.1 (of_await_eq_none hregister)
      obtain ⟨hopen, hfull⟩ := Channel.offer?_eq_none_iff.1 hnone
      exact .inr (.announcing a hopen hfull)
  | reporting a e =>
      simp only [register, hg] at hregister
      have hnone : s.outlets.attendantStopped.offer? (a, e) = none :=
        Option.map_eq_none_iff.1 (of_await_eq_none hregister)
      obtain ⟨hopen, hfull⟩ := Channel.offer?_eq_none_iff.1 hnone
      exact .inr (.reporting a e hopen hfull)
  | closing => simp [hg, Registrar.hasLeft] at hleft
  | clearing => simp [hg, Registrar.hasLeft] at hleft
  | finished => simp [hg, Registrar.hasLeft] at hleft

/-! ## Accept loops -/

theorem run_at {phase : Run.Phase} (hp : s.agenda.phases[k]? = some phase) :
    ∃ run, s.dispatcher.runs[k]? = some run ∧ run.phase = phase := by
  have hmap : (s.dispatcher.runs.map (·.phase))[k]? = some phase := hp
  simpa only [List.getElem?_map, Option.map_eq_some_iff] using hmap

theorem closed_at (hk : s.dispatcher.isClosed k = true) (hr : s.dispatcher.runs[k]? = some run) :
    run.closed = true := by
  simpa only [Dispatcher.isClosed, hr] using hk

/-- Between its callbacks, a run that has been asked to end waits for nobody. -/
theorem finished_of_idle (hq : s.Quiet) (hl : s.agenda.Lawful) (hb : s.agenda.Bound k)
    (hk : s.dispatcher.isClosed k = true) (hd : s.duties[k]? = some .idle) :
    s.agenda.phases[k]? = some .finished := by
  obtain ⟨phase, hp, hbound⟩ := hb.phase hl
  obtain ⟨run, hr, rfl⟩ := run_at hp
  have hclosed := closed_at hk hr
  cases hphase : run.phase with
  | binding => exact absurd hphase hbound
  | spawned a =>
      have hbegin := hq.loop_eq_none (m := .begin k) hr rfl rfl
      simp [Dispatcher.stepRun, hphase] at hbegin
  | calling c =>
      -- a callback that is under way has something to do
      rw [hphase] at hp
      obtain ⟨duty, hd', -, hstand⟩ := hl.stand_of_phase hp (by simp)
      obtain rfl := Option.some.inj (hd.symm.trans hd')
      cases hstand with
      | waiting hw _ _ _ _ => simp at hw
      | hiring a hw _ _ _ _ => simp at hw
      | opens ho _ _ _ _ => cases ho
      | leaving hw _ _ _ _ _ _ => simp at hw
  | polling =>
      have hquit := hq.loop_eq_none (m := .quit k) hr rfl rfl
      simp [Dispatcher.stepRun, hphase, hclosed] at hquit
  | accepting =>
      have hrest := hq.loop_eq_none (m := .rest k) hr rfl rfl
      simp [Dispatcher.stepRun, hphase] at hrest
  | accepted outcome =>
      have hcall := hq.loop_eq_none (m := .call k) hr rfl rfl
      simp [Dispatcher.stepRun, hphase] at hcall
  | pausing deadline =>
      have hquit := hq.loop_eq_none (m := .quit k) hr rfl rfl
      simp [Dispatcher.stepRun, hphase, hclosed] at hquit
  | leaving =>
      have hleave := hq.loop_eq_none (m := .leave k) hr rfl rfl
      simp [Dispatcher.stepRun, hphase] at hleave
  | finished => rw [hp, hphase]

/-- Inside a callback, a run with room for its own reports waits for the start of an attendant. -/
theorem starting_of_duty (hq : s.Quiet) (hl : s.agenda.Lawful) (hspared : s.Spared k)
    (hd : s.duties[k]? = some duty) (hne : duty ≠ .idle)
    (hstarted : ∀ a, duty = .announcing a → s.outlets.started.isFull = false)
    (hfailed : ∀ e, duty = .reporting e → s.outlets.acceptFailed.isFull = false) :
    ∃ a, duty = .starting a ∧ s.hasStarted a = false := by
  have hwork := hq.work_eq_none hd
  cases duty with
  | idle => exact absurd rfl hne
  | opening a => simp [work] at hwork
  | reopening r a => simp [work] at hwork
  | hiring r a => simp [work] at hwork
  | announcing a =>
      -- the report would find the room that the run has been granted
      simp only [work, Option.map_eq_none_iff] at hwork
      obtain ⟨-, hfull⟩ := Channel.offer?_eq_none_iff.1 hwork
      simp [hstarted a rfl] at hfull
  | admitting peer => simp [work] at hwork
  | joining peer =>
      simp only [work] at hwork
      split at hwork <;> simp at hwork
  | founding peer r => simp [work] at hwork
  | starting a =>
      refine ⟨a, rfl, ?_⟩
      cases hs : s.hasStarted a with
      | false => rfl
      | true => simp [work, hs] at hwork
  | reporting e =>
      simp only [work, Option.map_eq_none_iff] at hwork
      obtain ⟨-, hfull⟩ := Channel.offer?_eq_none_iff.1 hwork
      simp [hfailed e rfl] at hfull
  | retiring =>
      simp only [work] at hwork
      split at hwork <;> simp at hwork
  | dismissing r => simp [work] at hwork
  | parting =>
      simp only [work, Option.map_eq_none_iff] at hwork
      obtain ⟨-, hfull⟩ := Channel.offer?_eq_none_iff.1 hwork
      rcases hspared with hroom | hpast
      · simp [hroom] at hfull
      · rcases hpast.duty_eq hl hd with hidle | ⟨-, hdone⟩
        · simp at hidle
        · simp at hdone
  | done =>
      -- a callback that is done returns to its loop
      obtain ⟨phase, hp, -, -, hstand⟩ := hl.stand_of_duty hd hne
      obtain ⟨c, rfl⟩ : ∃ c, phase = .calling c := by
        cases hstand with
        | hiring a hw _ _ _ _ => simp at hw
        | opens ho _ _ _ _ => cases ho <;> exact ⟨_, rfl⟩
        | leaving hw _ _ _ _ _ _ =>
            rcases hw with ⟨rfl, -⟩ | ⟨-, hw⟩
            · exact ⟨_, rfl⟩
            · simp at hw
      obtain ⟨run, hr, hphase⟩ := run_at hp
      simp [work, Dispatcher.step, Dispatcher.Move.run?, hr, Dispatcher.stepRun, hphase] at hwork

/-! ## Who waits for whom -/

/-- Run `k` waits for the start of attendant `a`, whose report finds the inbox full.  The registrar, which is to
make room, waits for the consumer, and would be told to end by nobody but the run. -/
structure Jam (s : Server μ) (k : Nat) (a : AttendantId) (x : Member μ) (round : Round) : Prop where
  duty : s.duties[k]? = some (.starting a)
  member : s.members[a]? = some x
  run : s.runOf? x = some k
  start : ∃ r, x.attendant.Led (.announcing r)
  joined : s.rounds[x.round]? = some round
  inbox : round.inbox.closed = false ∧ round.inbox.isFull = true
  quit : round.quit = false
  registrar : Blocked s.outlets round.registrar

/-- Run `k`, an attendant and a registrar wait for each other and for the consumer. -/
def Jammed (s : Server μ) (k : Nat) : Prop :=
  ∃ a x round, s.Jam k a x round

/-- A start that has not come out cannot make its report. -/
theorem announcing_of_quiet {id : AttendantId} {now : Nat} {b : Attendant μ} {p : Ports} {d : Courier.Call μ}
    (hq : b.Quiet id now p) (hd : b.Led d) (hnone : d.result? = none) :
    ∃ r, d = .announcing r ∧ p.lifecycle.closed = false ∧ p.lifecycle.isFull = true := by
  have hat : b.calls[0]? = some d := by
    rw [← List.head?_eq_getElem?, hd.1]
  have hadvance := hq.advance_eq_none hat
  cases d with
  | claimed =>
      simp only [Attendant.advance] at hadvance
      split at hadvance <;> simp at hadvance
  | announcing r =>
      simp only [Attendant.advance, Option.map_eq_none_iff] at hadvance
      exact ⟨r, rfl, Channel.offer?_eq_none_iff.1 hadvance⟩
  | handing r => simp [Attendant.advance] at hadvance
  | started result => simp [Courier.Call.result?] at hnone
  | _ => simp [Attendant.Led, Courier.Call.launches] at hd

/-- An accept loop that waits for a start waits, in the end, for the consumer. -/
theorem jammed_of_starting (hq : s.Quiet) (hm : s.Mustered) (hd : s.duties[k]? = some (.starting a))
    (hs : s.hasStarted a = false) : s.Jammed k := by
  obtain ⟨x, hx, hrun⟩ := hm.hosts k a hd
  obtain ⟨d, hled⟩ := (hm.enrolled a x hx).led
  obtain ⟨round, hr, hquit, hstaffed⟩ := round_of_starting hm.lawful hd hrun
  have hnone : d.result? = none := by
    rw [hasStarted_of_led hx hled] at hs
    simpa using hs
  obtain ⟨receiver, rfl, hopen, hfull⟩ := announcing_of_quiet (hq.attendant hx hr) hled hnone
  have hsound := hm.rounds _ _ hr
  refine ⟨a, x, round, hd, hx, hrun, ⟨receiver, hled⟩, hr, ⟨hopen, hfull⟩, hquit, ?_⟩
  rcases waits_of_quiet hq hr hsound hstaffed hquit with ⟨-, hempty⟩ | hblocked
  · -- a full inbox is not empty
    have hlen : round.inbox.sent.length ≤ round.inbox.taken := List.drop_eq_nil_iff.1 hempty
    have hfull' : round.inbox.taken + round.inbox.capacity ≤ round.inbox.sent.length :=
      of_decide_eq_true hfull
    rw [hsound.capacity, Round.inboxCapacity] at hfull'
    omega
  · exact hblocked

/-! ## Completion -/

/-- What a stop of run `k` is to bring about: the loop has been left and its end reported, as far as anybody
receives it, nobody but a later run keeps the listener, and whoever the run has accepted has stopped and released
both halves of the connection. -/
structure Completed (s : Server μ) (k : Nat) : Prop where
  finished : s.dispatcher.isFinished k = true
  ended : k ∈ s.dispatcher.ended
  published : s.outlets.stopped.closed = false →
    ∃ j, j < s.outlets.stopped.sent.length ∧ s.dispatcher.ended[j]? = some k
  idle : s.dispatcher.state = .idle ∨ k + 1 < s.dispatcher.runs.length
  released : ∀ (a : AttendantId) x, s.members[a]? = some x → s.runOf? x = some k →
    x.attendant.status = .stopped ∧ x.attendant.readReleased = true ∧ x.attendant.writeReleased = true

/-- Whoever run `k` has accepted and the server tracks has stopped. -/
def Strayless (s : Server μ) (k : Nat) : Prop :=
  ∀ a x, a ∈ s.tracked → s.members[a]? = some x → s.runOf? x = some k → x.attendant.status = .stopped

/-- A run that has been asked to end is over, or it is jammed. -/
theorem finished_or_jammed_of_quiet (hq : s.Quiet) (hm : s.Mustered) (hb : s.agenda.Bound k)
    (hk : s.dispatcher.isClosed k = true) (hspared : s.Spared k)
    (hstarted : ∀ a, s.duties[k]? = some (.announcing a) → s.outlets.started.isFull = false)
    (hfailed : ∀ e, s.duties[k]? = some (.reporting e) → s.outlets.acceptFailed.isFull = false) :
    s.agenda.phases[k]? = some .finished ∨ s.Jammed k := by
  obtain ⟨phase, hp, -⟩ := hb.phase hm.lawful
  obtain ⟨duty, hd⟩ := hm.lawful.duty_of_phase hp
  by_cases hidle : duty = .idle
  · exact .inl (finished_of_idle hq hm.lawful hb hk (hidle ▸ hd))
  · obtain ⟨a, rfl, hs⟩ := starting_of_duty hq hm.lawful hspared hd hidle
      (fun a ha => hstarted a (ha ▸ hd)) (fun e he => hfailed e (he ▸ hd))
    exact .inr (jammed_of_starting hq hm hd hs)

/-- After the end of its run, an attendant that is not tracked has stopped. -/
theorem stopped_of_finished (hq : s.Quiet) (hm : s.Mustered) (hfin : s.agenda.phases[k]? = some .finished)
    (hx : s.members[a]? = some x) (hrun : s.runOf? x = some k) (ha : a ∉ s.tracked) :
    x.attendant.status = .stopped := by
  have henrolled := hm.enrolled a x hx
  have hover := hm.lawful.passed k hfin
  have hidle : s.duties[k]? = some .idle := hover.idle
  refine Classical.byContradiction fun hne => ?_
  cases henrolled.covered hne with
  | starting hc hr =>
      -- the accept loop would wait for the start
      obtain ⟨j, hj, hjrun⟩ := henrolled.hosted _ hc (Courier.Call.result?_of_launches hc.2 hr)
      obtain rfl := Option.some.inj (hrun.symm.trans hjrun)
      simp [hidle] at hj
  | awaited h =>
      obtain ⟨round, hr, hfound⟩ := h
      have hbadge : round.badge = (true, true) := badge_of_round hr (hover.dismissed x.round hrun)
      have hg := finished_of_quiet hq hr (congrArg Prod.fst hbadge) (congrArg Prod.snd hbadge)
      rcases hfound with hmem | hentering
      · simp [(hm.rounds _ _ hr).empty hg] at hmem
      · simp [hg] at hentering
  | tracked h => exact ha h
  | stopping h =>
      obtain ⟨i, left, hi, hmem⟩ := h
      have hadvance := hq.advance_eq_none hi
      cases left with
      | nil => simp at hmem
      | cons b left => simp [advance] at hadvance

/-- After the end of its run, an attendant that has stopped has released its connection. -/
theorem released_of_finished (hq : s.Quiet) (hm : s.Mustered) (hfin : s.agenda.phases[k]? = some .finished)
    (hx : s.members[a]? = some x) (hrun : s.runOf? x = some k) (hst : x.attendant.status = .stopped) :
    x.attendant.readReleased = true ∧ x.attendant.writeReleased = true := by
  have henrolled := hm.enrolled a x hx
  have hover := hm.lawful.passed k hfin
  have hidle : s.duties[k]? = some .idle := hover.idle
  obtain ⟨d, hled⟩ := henrolled.led
  obtain ⟨round, hr, -⟩ := round_at (hover.dismissed x.round hrun)
  have hresult : d.result? ≠ none := by
    intro hnone
    obtain ⟨j, hj, hjrun⟩ := henrolled.hosted d hled hnone
    obtain rfl := Option.some.inj (hrun.symm.trans hjrun)
    simp [hidle] at hj
  have hstarted : d = .started (.ok ()) := Courier.Call.started_of_launches hled.2 hresult
  exact Attendant.released_of_quiet henrolled.staged (hstarted ▸ hled) hst (hq.attendant hx hr)

theorem completed_of_finished (hq : s.Quiet) (hm : s.Mustered) (hb : s.agenda.Bound k)
    (hfin : s.agenda.phases[k]? = some .finished) (hs : s.Strayless k) : s.Completed k := by
  obtain ⟨hended, hpublished⟩ := (hm.lawful.passed k hfin).published (by
    rcases hb with hb | ⟨a, ha⟩
    · exact hb
    · simp [hfin] at ha)
  obtain ⟨run, hr, hphase⟩ := run_at hfin
  refine ⟨?_, hended, ?_, ?_, ?_⟩
  · simp [Dispatcher.isFinished, hr, hphase]
  · intro hopen
    exact hpublished _ (by simp [agenda, Channel.extent?, hopen])
  · by_cases hlast : k + 1 < s.dispatcher.runs.length
    · exact .inr hlast
    · -- only the last run may not be over
      refine .inl (hm.lawful.rest fun j phase hj => Classical.byContradiction fun hne => ?_).state
      have hlen := hm.lawful.last j phase hj hne
      have hlt : k < s.agenda.phases.length := (List.getElem?_eq_some_iff.1 hfin).1
      have hphases : s.agenda.phases.length = s.dispatcher.runs.length := by simp [agenda]
      have hjk : j = k := by omega
      rw [hjk, hfin] at hj
      exact hne (Option.some.inj hj).symm
  · intro a x hx hrun
    have hst : x.attendant.status = .stopped := by
      by_cases ha : a ∈ s.tracked
      · exact hs a x ha hx hrun
      · exact stopped_of_finished hq hm hfin hx hrun ha
    exact ⟨hst, released_of_finished hq hm hfin hx hrun hst⟩

/-- A quiet server has completed the end of a run unless the run is jammed or somebody it has accepted has been
tracked after the set was emptied. -/
theorem completed_iff_of_quiet (hq : s.Quiet) (hm : s.Mustered) (hb : s.agenda.Bound k)
    (hk : s.dispatcher.isClosed k = true) (hspared : s.Spared k)
    (hstarted : ∀ a, s.duties[k]? = some (.announcing a) → s.outlets.started.isFull = false)
    (hfailed : ∀ e, s.duties[k]? = some (.reporting e) → s.outlets.acceptFailed.isFull = false) :
    s.Completed k ↔ ¬ s.Jammed k ∧ s.Strayless k := by
  refine ⟨fun hc => ⟨?_, ?_⟩, fun ⟨hj, hs⟩ => ?_⟩
  · rintro ⟨a, x, round, hjam⟩
    have hfin : s.agenda.phases[k]? = some .finished := by
      have hfinished := hc.finished
      unfold Dispatcher.isFinished at hfinished
      split at hfinished
      · next run hr => simpa [agenda, hr] using hfinished
      · simp at hfinished
    have hidle : s.duties[k]? = some .idle := (hm.lawful.passed k hfin).idle
    simp [hjam.duty] at hidle
  · intro a x _ hx hrun
    exact (hc.released a x hx hrun).1
  · rcases finished_or_jammed_of_quiet hq hm hb hk hspared hstarted hfailed with hfin | hjammed
    · exact completed_of_finished hq hm hb hfin hs
    · exact absurd hjammed hj

/-! ## Stops -/

/-- A run that is bound can be asked to end. -/
theorem close_of_bound (hl : s.agenda.Lawful) (hb : s.agenda.Bound k) :
    ∃ d, s.dispatcher.step s.now (.close k) = some d := by
  obtain ⟨phase, hp, hbound⟩ := hb.phase hl
  obtain ⟨run, hr, rfl⟩ := run_at hp
  simp only [Dispatcher.step, Dispatcher.Move.run?, hr]
  cases hphase : run.phase with
  | binding => exact absurd hphase hbound
  | _ => simp [Dispatcher.stepRun, hphase]

/-- Nobody waits to ask a run to end. -/
theorem not_closing_of_quiet (hq : s.Quiet) (hl : s.agenda.Lawful) (hb : s.agenda.Bound k) :
    s.calls[i]? ≠ some (.closing k) := by
  intro hc
  obtain ⟨d, hd⟩ := close_of_bound hl hb
  have hadvance := hq.advance_eq_none hc
  simp [advance, hd] at hadvance

/-- A stop of a run has come out, and the run has been asked to end. -/
theorem halted_of_quiet (hq : s.Quiet) (hl : s.agenda.Lawful) (hb : s.agenda.Bound k) (hh : s.Halts i k) :
    s.calls[i]? = some (.halted (.ok ())) ∧ s.dispatcher.isClosed k = true := by
  cases hh with
  | barring hc =>
      have hadvance := hq.advance_eq_none hc
      simp [advance] at hadvance
  | closing hc => exact absurd hc (not_closing_of_quiet hq hl hb)
  | ending hc he hk =>
      refine ⟨?_, hk⟩
      have hadvance := hq.advance_eq_none hc
      rename_i c
      cases c with
      | emptying => simp [advance] at hadvance
      | stopping left => cases left <;> simp [advance] at hadvance
      | halted result =>
          cases result with
          | ok _ => exact hc
          | error e => simp [Call.isEnding] at he
      | _ => simp [Call.isEnding] at he

/-- While the flag that a stop has raised stays so, nobody is tracked. -/
theorem tracked_of_raised (hq : s.Quiet) (hm : s.Mustered) (he : s.Engaged) (hr : s.Raised i k) :
    s.tracked = [] := by
  rcases hr.flag with hc | hclosing
  · have hadvance := hq.advance_eq_none hc
    simp [advance] at hadvance
  · refine (he.swept hclosing).resolve_right ?_
    rintro ⟨j, c, hj, hc⟩
    cases c with
    | closing l => exact not_closing_of_quiet hq hm.lawful (he.bound l (.inr ⟨j, _, hj, rfl⟩)) hj
    | emptying =>
        have hadvance := hq.advance_eq_none hj
        simp [advance] at hadvance
    | _ => simp [Call.isSweeping] at hc

end Server
end Courier
