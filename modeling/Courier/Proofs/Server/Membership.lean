import Courier.Proofs.Server.Reports

/-!
# Membership — the set and the attendants that go on

The set is kept up to date by reports that take their time.  Once nothing is left to do, and there has been room for
the reports, it is exactly the attendants that are running.

- `Server.Renewed`, `Server.renewed_of_access` — nobody from before comes into the set,
- `Server.tracked_iff_of_quiet` — the set of a quiet server,
- `House.membership_of_quiet` — the same for whatever has happened since nobody was in the set.
-/

namespace Courier

variable {μ : Type} [Marshaler μ]
namespace Server

variable {s t : Server μ} {m : Move} {a : AttendantId} {x : Member μ} {k n r : Nat} {round : Round}

/-! ## Whoever has been accepted before -/

/-- No run is going on and no stop is under way, nobody is in the set and no registrar is about to enter anybody. -/
structure Vacant (s : Server μ) : Prop where
  state : s.dispatcher.state = .idle
  callers : s.Unhalted
  tracked : s.tracked = []
  registrars : ∀ (r : Nat) round, s.rounds[r]? = some round → round.admits = false

/-- The runs before the `n`-th are over, and their attendants neither are in the set nor come into it. -/
structure Renewed (s : Server μ) (n : Nat) : Prop where
  finished : ∀ k : Nat, k < n → s.agenda.phases[k]? = some .finished
  tracked : ∀ a k, a ∈ s.tracked → s.Accepted k a → n ≤ k
  admits : ∀ (r : Nat) round k, s.rounds[r]? = some round → round.admits = true → s.agenda.begun[r]? = some k → n ≤ k

theorem renewed_of_vacant (hl : s.agenda.Lawful) (hv : s.Vacant) : s.Renewed s.dispatcher.runs.length where
  finished := by
    intro k hk
    have hlt : k < s.agenda.phases.length := by simpa [agenda] using hk
    have hat := List.getElem?_eq_getElem hlt
    refine Classical.byContradiction fun hne => ?_
    have hphase : s.agenda.phases[k] ≠ .finished := fun hfin => hne (hfin ▸ hat)
    -- a run that goes on keeps the server from being idle
    obtain ⟨-, -, hbusy, -⟩ := hl.stand_of_phase hat hphase
    exact hbusy hv.state
  tracked := by simp [hv.tracked]
  admits := fun r round _ hr hg => by simp [hv.registrars r round hr] at hg

/-- The registrar of a run that is over has been told to end. -/
theorem quit_of_over (hl : s.agenda.Lawful) (hk : s.agenda.phases[k]? = some .finished)
    (hr : s.rounds[r]? = some round) (hbegun : s.agenda.begun[r]? = some k) : round.quit = true :=
  congrArg Prod.snd (badge_of_round hr ((hl.passed k hk).dismissed r hbegun))

theorem renewed_of_access (h : Access s m t) (hm : s.Mustered) (hp : s.Posted) (hf : s.Relayed)
    (hs : s.Renewed n) : t.Renewed n where
  finished := by
    intro k hk
    rcases turn_of_access h with heq | hturn
    · rw [heq]
      exact hs.finished k hk
    · exact Agenda.finished_of_turn hturn (hs.finished k hk)
  tracked := by
    intro a k ha hk
    rcases (effect_of_relay (relay_of_access h)).tracked_from ha with ha' | ⟨r, round, hr, hg, -⟩
    · obtain ⟨x, hx⟩ := hf.known a (.inl ha')
      exact hs.tracked a k ha' (accepted_from h hm hx hk)
    · obtain ⟨x, hx, rfl⟩ := hp.subject r round a hr (hg ▸ rfl)
      obtain ⟨y, hy, hrun⟩ := accepted_from h hm hx hk
      obtain rfl := Option.some.inj (hx.symm.trans hy)
      exact hs.admits x.round round k hr (by simp [Round.admits, hg]) hrun
  admits := by
    intro r round' k hr' hg' hk
    rcases (relay_of_access h).round_from hr' with rfl | ⟨round, hr, hgoes⟩
    · simp [Round.admits, Round.fresh] at hg'
    · obtain ⟨hlt, -⟩ := List.getElem?_eq_some_iff.1 (badge_at hr)
      have hk' := begun_from h hm.lawful hlt hk
      rcases hgoes with rfl | hgoes
      · exact hs.admits r _ k hr hg' hk'
      · refine (hgoes.admits hm.lawful hr (hm.rounds r round hr) hg').elim (fun h => hs.admits r round k hr h hk')
          fun hquit => Nat.le_of_not_lt fun hlt => ?_
        -- a registrar that sees that it has not been told to end belongs to a run that is not over
        simp [quit_of_over hm.lawful (hs.finished k hlt) hr hk'] at hquit

/-! ## Quiet servers -/

/-- While no registrar is blocked, all reports have been taken. -/
theorem inbox_of_quiet (hq : s.Quiet) (hm : s.Mustered) (hp : s.Posted) (hroom : ∀ g, ¬ Blocked s.outlets g)
    (hr : s.rounds[r]? = some round) : round.inbox.queue = [] := by
  by_cases hstaffed : round.isStaffed = true
  · cases hquit : round.quit with
    | true => exact (hm.rounds r round hr).empty (finished_of_quiet hq hr hstaffed hquit)
    | false =>
        rcases waits_of_quiet hq hr (hm.rounds r round hr) hstaffed hquit with ⟨-, hempty⟩ | hblocked
        · exact hempty
        · exact absurd hblocked (hroom _)
  · -- nobody has joined a round without registrar
    refine List.eq_nil_iff_forall_not_mem.2 fun n hn => ?_
    obtain ⟨x, hx, rfl⟩ := hp.origin r round n hr (List.mem_of_mem_drop hn)
    obtain ⟨found, hfound, hstaffed', -⟩ := hp.joined n.attendant x hx
    obtain rfl := Option.some.inj (hr.symm.trans hfound)
    exact hstaffed hstaffed'

/-- Whoever has not stopped is in the set. -/
theorem tracked_of_quiet (hq : s.Quiet) (hm : s.Mustered) (hp : s.Posted) (hu : s.Unhalted)
    (hroom : ∀ g, ¬ Blocked s.outlets g) (hx : s.members[a]? = some x) (hst : x.attendant.status ≠ .stopped) :
    a ∈ s.tracked := by
  have henrolled := hm.enrolled a x hx
  cases henrolled.covered hst with
  | starting hc hr =>
      -- the accept loop would wait for a registrar that is blocked
      have hnone := Courier.Call.result?_of_launches hc.2 hr
      obtain ⟨k, hd, -⟩ := henrolled.hosted _ hc hnone
      have hnot : s.hasStarted a = false := by simp [hasStarted_of_led hx hc, hnone]
      obtain ⟨_, _, _, hjam⟩ := jammed_of_starting hq hm hd hnot
      exact absurd hjam.registrar (hroom _)
  | awaited h =>
      obtain ⟨round, hr, hmem | hentering⟩ := h
      · simp [inbox_of_quiet hq hm hp hroom hr] at hmem
      · have hregister := hq.register_eq_none hr
        simp only [register, hentering] at hregister
        split at hregister <;> simp at hregister
  | tracked h => exact h
  | stopping h =>
      obtain ⟨i, left, hi, -⟩ := h
      have hhalting := hu i _ hi
      simp [Call.isHalting] at hhalting

/-- What a registrar that waits has heard of whoever is in the set. -/
theorem Filed.heard_of_tracked {ns : List Notice} (h : Filed s a ns .waiting) (ha : a ∈ s.tracked) :
    ns = [.started a] := by
  cases h with
  | unheard _ hnot _ _ => exact absurd ha hnot
  | begun _ _ _ => rfl
  | ended _ _ _ hnot => exact absurd ha (hnot (.inl rfl))

/-- An attendant of which the start has been reported and nothing else. -/
theorem unfinished_of_reported {id : AttendantId} {b : Attendant μ} {p : Ports} (h : b.Reported id p)
    (hopen : p.lifecycle.closed = false) (hn : p.notices id = [.started id]) :
    b.hasStarted = true ∧ b.reader.isFinished = false := by
  unfold Attendant.Reported at h
  rw [hn, hopen] at h
  exact ⟨h.started_of_mem (List.mem_singleton.2 rfl), h.unfinished⟩

/-- A start that has been reported has come out. -/
theorem started_of_quiet {id : AttendantId} {now : Nat} {b : Attendant μ} {p : Ports} {c : Courier.Call μ}
    (hq : b.Quiet id now p) (hled : b.Led c) (hs : b.Staged) (hstarted : b.hasStarted = true) :
    c = .started (.ok ()) := by
  have hreported : c.hasReported = true := by simpa [Attendant.hasStarted, hled.launches_eq hs] using hstarted
  have hat : b.calls[0]? = some c := by rw [← List.head?_eq_getElem?, hled.1]
  have hadvance := hq.advance_eq_none hat
  cases c with
  | handing r => simp [Attendant.advance] at hadvance
  | started result =>
      cases result with
      | ok _ => rfl
      | error e => simp [Courier.Call.hasReported] at hreported
  | _ => simp [Courier.Call.hasReported] at hreported

/-- Whoever is in the set and whose registrar is at work goes on. -/
theorem running_of_quiet (hq : s.Quiet) (hm : s.Mustered) (hf : s.Relayed) (hroom : ∀ g, ¬ Blocked s.outlets g)
    (hx : s.members[a]? = some x) (hr : s.rounds[x.round]? = some round) (hstaffed : round.isStaffed = true)
    (hquit : round.quit = false) (hrep : x.attendant.Reported a (s.portsOf round)) (ha : a ∈ s.tracked) :
    x.attendant.status = .running := by
  have henrolled := hm.enrolled a x hx
  have hsound := hm.rounds _ _ hr
  obtain ⟨hwaiting, hempty⟩ := (waits_of_quiet hq hr hsound hstaffed hquit).resolve_right (hroom _)
  have hheard : round.heard a = [.started a] := (hwaiting ▸ hf.filed a x round hx hr).heard_of_tracked ha
  have hnotices : (s.portsOf round).notices a = [.started a] := by
    rw [notices_eq, hheard, hempty, List.filter_nil, List.append_nil]
  have hopen : round.inbox.closed = false := by
    rw [hsound.closed, hwaiting]
    rfl
  obtain ⟨hstarted, hunfinished⟩ := unfinished_of_reported hrep hopen hnotices
  obtain ⟨c, hled⟩ := henrolled.led
  obtain rfl := started_of_quiet (hq.attendant hx hr) hled henrolled.staged hstarted
  have hlaunches := hled.launches_eq henrolled.staged
  cases hst : x.attendant.status with
  | running => rfl
  | new => exact absurd hst (hled.status_ne_new henrolled.staged)
  | stopped =>
      -- the end would have been reported, as there is room in the inbox
      have hroom' : round.inbox.isFull = false := by
        have hqueue : round.inbox.sent.length ≤ round.inbox.taken := List.drop_eq_nil_iff.1 hempty
        simp only [Channel.isFull, hsound.capacity, Round.inboxCapacity, decide_eq_false_iff_not]
        omega
      have hfinished := Attendant.reader_of_quiet henrolled.staged hlaunches hst hroom' (hq.attendant hx hr)
      simp [hfinished, Reader.isFinished] at hunfinished

theorem statusOf_eq (hx : s.members[a]? = some x) : s.statusOf a = x.attendant.status := by
  simp [statusOf, attendant?, hx]

/-- The set of a quiet server that nobody has stopped is exactly the attendants that are running. -/
theorem tracked_iff_of_quiet (hq : s.Quiet) (hm : s.Mustered) (hp : s.Posted) (hf : s.Relayed) (hpart : s.Parted)
    (hu : s.Undisturbed n) (hn : s.Renewed n) (hroom : ∀ g, ¬ Blocked s.outlets g) :
    a ∈ s.tracked ↔ s.statusOf a = .running := by
  constructor
  · -- whoever is in the set belongs to a run whose registrar is at work, and has not reported its end
    intro ha
    obtain ⟨x, hx⟩ := hf.known a (.inl ha)
    obtain ⟨k, hk⟩ := (hm.enrolled a x hx).run
    obtain ⟨round, hr, hstaffed, hrep⟩ := hp.joined a x hx
    have hquit := hu.quit hm.lawful hpart hr hk (hn.tracked a k ha ⟨x, hx, hk⟩)
    rw [statusOf_eq hx]
    exact running_of_quiet hq hm hf hroom hx hr hstaffed hquit hrep ha
  · intro hst
    cases hx : s.members[a]? with
    | none => simp [statusOf, attendant?, hx] at hst
    | some x =>
        rw [statusOf_eq hx] at hst
        exact tracked_of_quiet hq hm hp hu.callers hroom hx (by simp [hst])

end Server

namespace House

variable {h i j : House μ} {m : Move} {ms ns : List Move} {n : Nat}

theorem renewed_of_reaches (hr : Reaches h ms i) (ha : h.Accounted) (hn : h.server.Renewed n) :
    i.server.Renewed n := by
  induction hr with
  | refl => exact hn
  | step hstep _ ih =>
      refine ih (accounted_of_step hstep ha) ?_
      rcases step_cases hstep with ⟨l, -, hs⟩ | ⟨o, heq, -⟩
      · exact Server.renewed_of_access (Server.access_of_step hs) ha.ordered.mustered ha.posted ha.relayed hn
      · rw [heq]
        exact ⟨hn.finished, hn.tracked, hn.admits⟩

/-- Say that no run is going on, that no stop is under way, and that nobody is in the set or about to be; a server
that has just been built is like that.  Whatever happens then, short of a stop, once nothing is left to do and there
is room for reports on attendants, all reports have been taken, and the set is exactly the attendants that are
running, each once. -/
theorem membership_of_quiet {b : Builder μ} {s : Server μ} (hb : b.build = .ok s)
    (hr : Reaches { server := s } ms h) (hv : h.server.Vacant) (hr' : Reaches h ns j)
    (hcalm : ∀ m ∈ ns, m.isCalm = true) (hq : j.server.Quiet)
    (hstarted : j.server.outlets.attendantStarted.closed = false →
      j.server.outlets.attendantStarted.isFull = false)
    (hstopped : j.server.outlets.attendantStopped.closed = false →
      j.server.outlets.attendantStopped.isFull = false) :
    (∀ (r : Nat) round, j.server.rounds[r]? = some round → round.inbox.queue = []) ∧
      j.server.tracked.Nodup ∧ ∀ a, a ∈ j.server.tracked ↔ j.server.statusOf a = .running := by
  have ha : h.Accounted := accounted_of_reaches hr (accounted_of_build hb)
  have hj : j.Accounted := accounted_of_reaches hr' ha
  have hm := hj.ordered.mustered
  have hwatched := watched_of_reaches hr' hcalm ha (watched_of_unhalted ha.ordered hv.callers)
  have hrenewed := renewed_of_reaches hr' ha (Server.renewed_of_vacant ha.ordered.mustered.lawful hv)
  have hroom : ∀ g, ¬ Server.Blocked j.server.outlets g := fun g => Server.not_blocked_of_room hstarted hstopped
  refine ⟨fun r round hround => ?_, hj.relayed.tracked, fun a => ?_⟩
  · exact Server.inbox_of_quiet hq hm hj.posted hroom hround
  · exact Server.tracked_iff_of_quiet hq hm hj.posted hj.relayed hj.parted hwatched.undisturbed hrenewed hroom

/-- Two clients connect, and the consumer takes the report on the first one.  Then the first one leaves, which its
read loop comes to know and reports. -/
def leaver : List Move :=
  oneClient ++ arrival 1 ++ admission 1 ++ relaying ++ [.take .attendantStarted] ++ leaving 0 ++ relaying

theorem membership_of_leaver :
    ∃ j, twofold.build = .ok fresh.server ∧ fresh.after leaver = some j ∧ j.server.statusOf 0 = .stopped ∧
      j.server.statusOf 1 = .running ∧ 0 ∉ j.server.tracked ∧ 1 ∈ j.server.tracked := by
  obtain ⟨j, hj, hcheck⟩ := exists_of_run fresh leaver
    (fun j => decide j.server.Quiet && !j.server.outlets.attendantStarted.isFull &&
        !j.server.outlets.attendantStopped.isFull && decide (j.server.statusOf 0 = .stopped) &&
        decide (j.server.statusOf 1 = .running))
    (by decide +kernel)
  simp only [Bool.and_eq_true, decide_eq_true_eq, Bool.not_eq_true'] at hcheck
  obtain ⟨⟨⟨⟨hquiet, hstarted⟩, hstopped⟩, hfirst⟩, hsecond⟩ := hcheck
  have hvacant : fresh.server.Vacant := ⟨rfl, by simp [Server.Unhalted, fresh], rfl, by simp [fresh]⟩
  have hcalm : ∀ m ∈ leaver, m.isCalm = true := List.all_eq_true.1 (by decide +kernel)
  have hset := (membership_of_quiet (b := twofold) rfl (.refl fresh) hvacant (reaches_of_after hj) hcalm hquiet
    (fun _ => hstarted) (fun _ => hstopped)).2.2
  exact ⟨j, rfl, hj, hfirst, hsecond, fun h => by simp [(hset 0).1 h] at hfirst, (hset 1).2 hsecond⟩

end House
end Courier
