import Courier.Proofs.Attendant.Lead
import Courier.Proofs.Server.Parts
import Courier.Proofs.Server.Rounds

/-!
# Members — nobody a server has accepted is forgotten

From its start on, an attendant that has not stopped is on its way through the inbox, in the hand of the
registrar, in the set, or on the list of a stop.

1. one lemma for each thing of a server that tells of an attendant says what a move does to it,
2. `Server.Covered` lists the places where an attendant that has not stopped is known,
3. `Server.Enrolled` says this of a member, beside its own law and what others believe of it,
4. `Server.enrolled_of_access` keeps it.
-/

namespace Courier

variable {μ : Type} [Marshaler μ]
namespace Server

/-! ## What tells of an attendant -/

/-- The run in which a member has been accepted: the one that has set up its round. -/
def runOf? (s : Server μ) (x : Member μ) : Option Nat :=
  s.agenda.begun[x.round]?

/-- The start of an attendant has been reported to a round and not been reflected. -/
def Awaits (s : Server μ) (r : Nat) (a : AttendantId) : Prop :=
  ∃ round, s.rounds[r]? = some round ∧
    (.started a ∈ round.inbox.queue ∨ round.registrar = .entering a)

/-- The end of an attendant has been reported and not been reflected. -/
def Tells (s : Server μ) (a : AttendantId) : Prop :=
  ∃ (r : Nat) (round : Round) (e : Ending), s.rounds[r]? = some round ∧
    (.stopped a e ∈ round.inbox.queue ∨ round.registrar = .erasing a e)

/-- A stop is about to stop an attendant. -/
def Stopping (s : Server μ) (a : AttendantId) : Prop :=
  ∃ (i : Nat) (left : List AttendantId), s.calls[i]? = some (.stopping left) ∧ a ∈ left

/-- The status of an attendant, if it exists, is final. -/
def Halted (s : Server μ) (a : AttendantId) : Prop :=
  ∀ x, s.members[a]? = some x → x.attendant.status = .stopped

/-- The places where an attendant that has not stopped is known. -/
inductive Covered (s : Server μ) (a : AttendantId) (x : Member μ) : Prop where
  | starting {c : Courier.Call μ} (hc : x.attendant.Led c) (hr : c.hasReported = false)
  | awaited (h : s.Awaits x.round a)
  | tracked (h : a ∈ s.tracked)
  | stopping (h : s.Stopping a)

/-- What is so of every member. -/
structure Enrolled (s : Server μ) (a : AttendantId) (x : Member μ) : Prop where
  staged : x.attendant.Staged
  led : ∃ c, x.attendant.Led c
  run : ∃ k, s.runOf? x = some k
  /-- The accept loop waits for the start of a member. -/
  hosted : ∀ c, x.attendant.Led c → c.result? = none →
    ∃ k, s.duties[k]? = some (.starting a) ∧ s.runOf? x = some k
  /-- Only an end that has come about is reported. -/
  told : s.Tells a → x.attendant.status = .stopped
  covered : x.attendant.status ≠ .stopped → s.Covered a x

variable {s t : Server μ} {m : Move} {a b : AttendantId} {x y : Member μ} {r k i : Nat} {round : Round}

/-! ## Stops of attendants -/

theorem members_stopAttendant (h : (s.stopAttendant a).members[b]? = some y) :
    ∃ x, s.members[b]? = some x ∧ y.round = x.round ∧ y.peer = x.peer ∧
      (b ≠ a ∧ y.attendant = x.attendant ∨ b = a ∧ y.attendant = x.attendant.beginStop) := by
  unfold stopAttendant at h
  split at h
  · next x hx =>
    rcases of_getElem?_set h with ⟨hab, hy⟩ | ⟨rfl, rfl⟩
    · exact ⟨y, hy, rfl, rfl, .inl ⟨Ne.symm hab, rfl⟩⟩
    · exact ⟨x, hx, rfl, rfl, .inr ⟨rfl, rfl⟩⟩
  · next hx =>
    refine ⟨y, h, rfl, rfl, .inl ⟨?_, rfl⟩⟩
    rintro rfl
    simp [hx] at h

theorem status_beginStop (c : Attendant μ) : c.beginStop.status = .stopped := by
  unfold Attendant.beginStop
  split
  · next h => exact h
  · rfl

theorem halted_stopAttendant : (s.stopAttendant a).Halted a := by
  intro y hy
  obtain ⟨x, -, -, -, ⟨hne, -⟩ | ⟨-, hb⟩⟩ := members_stopAttendant hy
  · exact absurd rfl hne
  · rw [hb, status_beginStop]

/-! ## What a move does to one member -/

/-- What a move leaves of a member. -/
inductive Keeps (s : Server μ) (m : Move) (t : Server μ) (a : AttendantId) (x y : Member μ) : Prop where
  | same (h : y.attendant = x.attendant)
  | stopped (h : y.attendant = x.attendant.beginStop)
  | moved (n : Attendant.Move) (round : Round) (q : Ports) (hm : m = .attendant a n)
      (hr : s.rounds[x.round]? = some round)
      (h : x.attendant.step a s.now (s.portsOf round) n = some (y.attendant, q))
      (ht : t.rounds = s.rounds.set x.round { round with inbox := q.lifecycle })

theorem member_of_access (h : Access s m t) (hy : t.members[a]? = some y) :
    (∃ x, s.members[a]? = some x ∧ y.round = x.round ∧ y.peer = x.peer ∧ Keeps s m t a x y) ∨
      ∃ k peer r, s.duties[k]? = some (.founding peer r) ∧ a = s.members.length ∧
        t = (s.found peer r).turnTo k (.starting s.members.length) ∧
        y = ⟨(Attendant.create s.codec s.config.throttle s.config.writer).beginStart, r, peer⟩ := by
  -- a member that another one's stop has passed by, or that has been stopped itself
  have hstop : ∀ {b : AttendantId}, (s.stopAttendant b).members[a]? = some y →
      ∃ x, s.members[a]? = some x ∧ y.round = x.round ∧ y.peer = x.peer ∧ Keeps s m t a x y := by
    intro b hb
    obtain ⟨x, hx, hr, hp, ⟨-, hk⟩ | ⟨-, hk⟩⟩ := members_stopAttendant hb
    · exact ⟨x, hx, hr, hp, .same hk⟩
    · exact ⟨x, hx, hr, hp, .stopped hk⟩
  cases h with
  | stopNext _ _ _ _ | turnAway _ _ _ _ _ _ | clearStart _ _ _ _ _ _ _ => exact .inl (hstop hy)
  | hire _ _ _ _ _ | dismiss _ _ _ _ => exact .inl ⟨y, members_setRound (s := s) ▸ hy, rfl, rfl, .same rfl⟩
  | enter _ _ _ _ _ _ => exact .inl ⟨y, members_track (s := s) ▸ hy, rfl, rfl, .same rfl⟩
  | found k peer r hd =>
      have hy' : (s.members ++
          [⟨(Attendant.create s.codec s.config.throttle s.config.writer).beginStart, r, peer⟩])[a]? =
            some y := hy
      rcases of_getElem?_concat hy' with hy' | ⟨hlast, rfl⟩
      · exact .inl ⟨y, hy', rfl, rfl, .same rfl⟩
      · exact .inr ⟨k, peer, r, hd, hlast, rfl, rfl⟩
  | attendant b n member round c q hm hr hstep =>
      have hy' : (s.members.set b { member with attendant := c })[a]? = some y := hy
      rcases of_getElem?_set hy' with ⟨-, hy'⟩ | ⟨rfl, rfl⟩
      · exact .inl ⟨y, hy', rfl, rfl, .same rfl⟩
      · exact .inl ⟨member, hm, rfl, rfl, .moved n round q rfl hr hstep rfl⟩
  | _ => exact .inl ⟨y, hy, rfl, rfl, .same rfl⟩

/-! ## What a move does to whatever tells of an attendant -/

theorem begun_of_access (h : Access s m t) : s.agenda.begun <+: t.agenda.begun := by
  rcases turn_of_access h with heq | hturn
  · exact heq ▸ List.prefix_rfl
  · have hcall : ∀ k c, s.agenda.begun <+: (s.agenda.call k c).begun := fun k c => by
      rw [Agenda.begun_call]
      exact List.prefix_append ..
    generalize t.agenda = q at hturn
    cases hturn with
    | begin k a _ => exact hcall k _
    | call k outcome _ => exact hcall k _
    | quit k _ _ => exact hcall k _
    | _ => exact List.prefix_rfl

theorem runOf?_of_access (h : Access s m t) (hr : y.round = x.round) (hx : s.runOf? x = some k) :
    t.runOf? y = some k := by
  unfold runOf?
  rw [hr]
  exact Agenda.getElem?_of_front (begun_of_access h) hx

/-- An accept loop that waits for a start is inside a callback. -/
theorem calling_of_starting {phase : Run.Phase} (hl : s.agenda.Lawful)
    (hk : s.duties[k]? = some (.starting a)) (hp : s.agenda.phases[k]? = some phase) :
    ∃ c, phase = .calling c := by
  obtain ⟨phase', hp', -, -, hstand⟩ := hl.stand_of_duty (k := k) hk (by simp)
  obtain rfl := Option.some.inj (hp.symm.trans hp')
  obtain ⟨r, ho, -⟩ := hstand.of_service rfl
  cases ho with
  | starting peer _ => exact ⟨_, rfl⟩

/-- The accept loop waits for a start until it has come out. -/
theorem starting_of_access (h : Access s m t) (hl : s.agenda.Lawful)
    (hk : s.duties[k]? = some (.starting a)) :
    t.duties[k]? = some (.starting a) ∨ s.hasStarted a = true := by
  cases duties_of_access h with
  | same ht => exact .inl (ht ▸ hk)
  | begun ht =>
      obtain ⟨hlt, -⟩ := List.getElem?_eq_some_iff.1 hk
      exact .inl (by rw [ht, List.getElem?_append_left hlt, hk])
  | @between j run d hr hp _ ht =>
      have hjk : j ≠ k := by
        rintro rfl
        obtain ⟨c, hc⟩ := calling_of_starting hl hk (phase_at hr)
        exact hp c hc
      exact .inl (by rw [ht, List.getElem?_set_ne hjk, hk])
  | @inside j d e hd hfrom _ ht =>
      by_cases hjk : j = k
      · -- the loop itself goes on, which takes a start that has come out
        obtain rfl := hjk
        exact .inr (hfrom a (Option.some.inj (hd.symm.trans hk)))
      · exact .inl (by rw [ht, List.getElem?_set_ne hjk, hk])
  | @founded j peer r hd ht =>
      have hjk : j ≠ k := by
        rintro rfl
        have hne := hd.symm.trans hk
        simp at hne
      subst ht
      exact .inl ((List.getElem?_set_ne hjk).trans hk)

/-- Whoever is on the list of a stop stays there until stopped. -/
theorem stopping_of_access (h : Access s m t) (hs : s.Stopping a) : t.Stopping a ∨ t.Halted a := by
  obtain ⟨j, left, hj, ha⟩ := hs
  obtain ⟨c, hc, rfl | hgoes⟩ := (calls_of_access h).call_to hj
  · exact .inl ⟨j, left, hc, ha⟩
  · cases hgoes with
    | finish => simp at ha
    | next b left hmembers =>
        rcases List.mem_cons.1 ha with rfl | ha'
        · exact .inr fun y hy => halted_stopAttendant y (hmembers ▸ hy)
        · exact .inl ⟨j, left, hc, ha'⟩

theorem mem_track (h : a ∈ s.tracked ∨ a = b) : a ∈ (s.track b).tracked := by
  unfold track
  split
  · next hb =>
    rcases h with h | rfl
    · exact h
    · exact hb
  · rcases h with h | rfl <;> simp [*]

/-- Whoever is tracked leaves the set for the list of a stop, or after the end. -/
theorem tracked_of_access (h : Access s m t) (ha : a ∈ s.tracked) :
    a ∈ t.tracked ∨ t.Stopping a ∨ s.Tells a := by
  cases h with
  | empty i hc =>
      obtain ⟨hlt, -⟩ := List.getElem?_eq_some_iff.1 hc
      exact .inr (.inl ⟨i, s.tracked, List.getElem?_set_self hlt, ha⟩)
  | erase r round b e hr hg =>
      by_cases hab : a = b
      · obtain rfl := hab
        exact .inr (.inr ⟨r, round, e, hr, .inr hg⟩)
      · refine .inl (List.mem_filter.2 ⟨ha, ?_⟩)
        simpa using hab
  | enter r round b _ _ _ => exact .inl (mem_track (.inl ha))
  | stopNext _ _ _ _ | turnAway _ _ _ _ _ _ | clearStart _ _ _ _ _ _ _ =>
      exact .inl ((tracked_stopAttendant (s := s)).symm ▸ ha)
  | hire _ _ _ _ _ | dismiss _ _ _ _ => exact .inl ((tracked_setRound (s := s)).symm ▸ ha)
  | _ => exact .inl ha

/-- A reported start stays where it is in its round, or the attendant is tracked or stopped. -/
theorem awaits_of_goes {j : Nat} {round' : Round} (hgoes : RoundGoes s t j round round') (hl : s.agenda.Lawful)
    (hj : s.rounds[j]? = some round) (hsound : round.Sound)
    (ha : .started a ∈ round.inbox.queue ∨ round.registrar = .entering a) :
    (.started a ∈ round'.inbox.queue ∨ round'.registrar = .entering a) ∨ a ∈ t.tracked ∨ t.Halted a := by
  have hstop : ∀ b, t.members = (s.stopAttendant b).members → t.Halted b := fun b hm y hy =>
    halted_stopAttendant y (hm ▸ hy)
  cases hgoes with
  | hired hd =>
      have habsent := absent_of_hiring hl hd hj
      rcases ha with hq | hg
      · exact .inl (.inl hq)
      · simp [habsent] at hg
  | dismissed | poised _ _ _ => exact .inl ha
  | turned _ hentering _ _ _ =>
      rcases ha with hq | hg
      · exact .inl (.inl hq)
      · exact absurd hg (hentering a)
  | @takenStart b inbox hg htk =>
      rcases ha with hq | hg'
      · rw [Channel.take?_cons htk] at hq
        rcases List.mem_cons.1 hq with hn | hq'
        · -- the start that is awaited is the one that is taken
          obtain rfl := Notice.started.inj hn
          exact .inl (.inr rfl)
        · exact .inl (.inl hq')
      · simp [hg] at hg'
  | takenEnd hg htk =>
      rcases ha with hq | hg'
      · rw [Channel.take?_cons htk] at hq
        rcases List.mem_cons.1 hq with hn | hq'
        · simp at hn
        · exact .inl (.inl hq')
      · simp [hg] at hg'
  | entered hg ht =>
      rcases ha with hq | hg'
      · exact .inl (.inl hq)
      · -- the registrar has the attendant in hand, and either tracks or stops it
        obtain rfl := Registrar.entering.inj (hg.symm.trans hg')
        rcases ht with ht | ht
        · exact .inr (.inl (ht ▸ mem_track (.inr rfl)))
        · exact .inr (.inr (hstop _ ht))
  | shut hg | finished hg _ =>
      rcases ha with hq | hg'
      · exact .inl (.inl hq)
      · simp [hg] at hg'
  | @cleared n inbox hg htk hn =>
      rcases ha with hq | hg'
      · rw [Channel.take?_cons htk] at hq
        rcases List.mem_cons.1 hq with hn' | hq'
        · exact .inr (.inr (hstop a (hn a hn'.symm)))
        · exact .inl (.inl hq')
      · simp [hg] at hg'
  | offered _ _ hstep _ =>
      rcases ha with hq | hg
      · refine .inl (.inl ?_)
        rcases Attendant.lifecycle_of_access (Attendant.access_of_step hstep) with heq | ⟨notice, -, ho⟩
        · exact heq ▸ hq
        · exact Channel.mem_queue_of_offer? ho hsound.taken hq
      · exact .inl (.inr hg)

/-- A reported start stays in the inbox until the registrar takes it, who tracks the attendant or stops it. -/
theorem awaits_of_access (h : Access s m t) (hl : s.agenda.Lawful)
    (hs : ∀ (r : Nat) round, s.rounds[r]? = some round → round.Sound) (ha : s.Awaits r a) :
    t.Awaits r a ∨ a ∈ t.tracked ∨ t.Halted a := by
  obtain ⟨round, hr, hf⟩ := ha
  obtain ⟨round', hr', rfl | hgoes⟩ := (rounds_of_access h).revises.get_to hr
  · exact .inl ⟨round', hr', hf⟩
  · rcases awaits_of_goes hgoes hl hr (hs r round hr) hf with hf' | hrest
    · exact .inl ⟨round', hr', hf'⟩
    · exact .inr hrest

/-! ## Members -/

theorem led_unique {c : Attendant μ} {d d' : Courier.Call μ} (h : c.Led d) (h' : c.Led d') : d = d' :=
  Option.some.inj (h.1.symm.trans h'.1)

theorem led_beginStop {c : Attendant μ} {d : Courier.Call μ} (h : c.Led d) : c.beginStop.Led d := by
  unfold Attendant.beginStop
  split
  · exact h.record _
  · exact Attendant.Led.record (a := { c with status := .stopped }) h _

/-- An access of a member shows as listed. -/
theorem shows_of_step {n : Attendant.Move} {p q : Ports} {c : Attendant μ} (h : s.Enrolled a x)
    (hstep : x.attendant.step a s.now p n = some (c, q)) :
    Attendant.Shows a x.attendant p c q := by
  obtain ⟨d, hd⟩ := h.led
  exact Attendant.shows_of_access (Attendant.access_of_step hstep) h.staged hd

/-- A round that tells of an end has told of it before, or the attendant has just come to it. -/
theorem tells_of_goes {j : Nat} {round' : Round} {e : Ending} (hgoes : RoundGoes s t j round round')
    (hs : ∀ a x, s.members[a]? = some x → s.Enrolled a x) (hsound : round.Sound)
    (ht : .stopped a e ∈ round'.inbox.queue ∨ round'.registrar = .erasing a e) :
    (.stopped a e ∈ round.inbox.queue ∨ round.registrar = .erasing a e) ∨
      ∃ y, t.members[a]? = some y ∧ y.attendant.status = .stopped := by
  cases hgoes with
  -- the inbox stays as it is, and the registrar has no end in hand
  | hired _ | entered _ _ | shut _ | finished _ _ =>
      rcases ht with hq | hg
      · exact .inl (.inl hq)
      · simp at hg
  | dismissed | poised _ _ _ => exact .inl ht
  | turned _ _ _ _ hne =>
      rcases ht with hq | hg
      · exact .inl (.inl hq)
      · exact absurd hg (hne a e)
  | takenStart _ htk | cleared _ htk _ =>
      rcases ht with hq | hg
      · exact .inl (.inl (Channel.mem_queue_of_take? htk hq))
      · simp at hg
  | takenEnd _ htk =>
      rcases ht with hq | hg
      · exact .inl (.inl (Channel.mem_queue_of_take? htk hq))
      · -- what the registrar has in hand comes out of the inbox
        obtain ⟨rfl, rfl⟩ := Registrar.erasing.inj hg
        refine .inl (.inl ?_)
        rw [Channel.take?_cons htk]
        exact List.mem_cons_self ..
  | @offered b n member c q hm hr hstep hmembers =>
      rcases ht with hq | hg
      · -- only an attendant that reports its own end adds one to the inbox
        have hkept : q.lifecycle = round.inbox → .stopped a e ∈ round.inbox.queue := fun heq => heq ▸ hq
        cases shows_of_step (hs b member hm) hstep with
        | nothing _ _ _ heq => exact .inl (.inl (hkept heq))
        | claimed _ _ _ heq => exact .inl (.inl (hkept heq))
        | started _ _ _ heq => exact .inl (.inl (hkept heq))
        | announced _ _ _ ho =>
            rcases Channel.eq_or_mem_of_offer? ho hsound.taken hq with hnew | hq'
            · simp at hnew
            · exact .inl (.inl hq')
        | reported e' _ _ _ hstopped ho =>
            rcases Channel.eq_or_mem_of_offer? ho hsound.taken hq with hnew | hq'
            · obtain ⟨rfl, -⟩ := Notice.stopped.inj hnew
              obtain ⟨hlt, -⟩ := List.getElem?_eq_some_iff.1 hm
              refine .inr ⟨{ member with attendant := c }, ?_, hstopped⟩
              rw [hmembers, List.getElem?_set_self hlt]
            · exact .inl (.inl hq')
      · exact .inl (.inr hg)

/-- An end is reported by the attendant that has come to it. -/
theorem tells_of_access (h : Access s m t) (hs : ∀ a x, s.members[a]? = some x → s.Enrolled a x)
    (hsound : ∀ (r : Nat) round, s.rounds[r]? = some round → round.Sound) (ht : t.Tells a) :
    s.Tells a ∨ ∃ y, t.members[a]? = some y ∧ y.attendant.status = .stopped := by
  obtain ⟨r, round', e, hr', hf⟩ := ht
  rcases (rounds_of_access h).revises.get_from hr' with rfl | ⟨round, hr, rfl | hgoes⟩
  · -- a round that has just been set up tells of nothing
    simp [Round.fresh, Channel.queue] at hf
  · exact .inl ⟨r, _, e, hr, hf⟩
  · rcases tells_of_goes hgoes hs (hsound r round hr) hf with hf' | hstopped
    · exact .inl ⟨r, round, e, hr, hf'⟩
    · exact .inr hstopped

/-- While an accept loop waits for the start of a member, the registrar of the member is at work. -/
theorem round_of_starting (hl : s.agenda.Lawful) (hd : s.duties[k]? = some (.starting a))
    (hk : s.runOf? x = some k) :
    ∃ round, s.rounds[x.round]? = some round ∧ round.quit = false ∧ round.isStaffed = true := by
  obtain ⟨phase, -, -, -, hstand⟩ := hl.stand_of_duty (k := k) hd (by simp)
  obtain ⟨r, -, hseat, -, hb, -⟩ := hstand.of_service rfl
  -- no other round has been set up by the run
  have hat : s.agenda.begun[x.round]? = some k := hk
  obtain rfl := hl.begun_inj hat hseat.begun
  obtain ⟨round, hr, hbadge⟩ := round_at hb
  exact ⟨round, hr, congrArg Prod.snd hbadge, congrArg Prod.fst hbadge⟩

/-- A start that is reported while the registrar is at work is in the inbox. -/
theorem awaits_of_announced (hl : s.agenda.Lawful)
    (hsound : ∀ (r : Nat) round, s.rounds[r]? = some round → round.Sound) {q : Ports}
    {d : Courier.Call μ} (hx : s.Enrolled a x) (hd : x.attendant.Led d) (hnone : d.result? = none)
    (hr : s.rounds[x.round]? = some round)
    (ht : t.rounds = s.rounds.set x.round { round with inbox := q.lifecycle })
    (ho : round.inbox.offer? (.started a) = some q.lifecycle) : t.Awaits x.round a := by
  obtain ⟨k, hk, hrun⟩ := hx.hosted d hd hnone
  obtain ⟨round', hr', hquit, -⟩ := round_of_starting hl hk hrun
  obtain rfl := Option.some.inj (hr.symm.trans hr')
  have hround := hsound _ round hr
  have hopen : round.inbox.closed = false := by
    rw [hround.closed]
    cases hshut : round.registrar.hasShut with
    | false => rfl
    | true => simp [hround.quit (Registrar.hasLeft_of_hasShut hshut)] at hquit
  obtain ⟨hlt, -⟩ := List.getElem?_eq_some_iff.1 hr
  refine ⟨_, by rw [ht, List.getElem?_set_self hlt], .inl ?_⟩
  rcases Channel.queue_of_offer? ho hround.taken with ⟨-, hclosed⟩ | ⟨hqueue, -⟩
  · simp [hopen] at hclosed
  · have hmem : Notice.started a ∈ q.lifecycle.queue := by simp [hqueue]
    exact hmem

theorem Keeps.halted (h : Keeps s m t a x y) (hx : s.Enrolled a x)
    (hs : x.attendant.status = .stopped) : y.attendant.status = .stopped := by
  cases h with
  | same h => rw [h, hs]
  | stopped h => rw [h, status_beginStop]
  | moved n round q _ _ hstep _ =>
      cases shows_of_step hx hstep with
      | nothing _ _ h _ => rcases h with h | h <;> simp [h, hs]
      | claimed _ _ h _ => rw [h, hs]
      | announced _ _ h _ => rw [h, hs]
      | started _ _ h _ => rw [h, hs]
      | reported _ _ _ _ h _ => exact h

theorem Keeps.staged (h : Keeps s m t a x y) (hx : s.Enrolled a x) : y.attendant.Staged := by
  cases h with
  | same h => rw [h]; exact hx.staged
  | stopped h => rw [h]; exact Attendant.staged_beginStop hx.staged
  | moved n round q _ _ hstep _ =>
      exact Attendant.staged_of_access (Attendant.access_of_step hstep) hx.staged

/-- How far the start of a member has come. -/
theorem Keeps.led (h : Keeps s m t a x y) (hx : s.Enrolled a x) :
    ∃ c d, x.attendant.Led c ∧ y.attendant.Led d ∧ (d.result? = none → c.result? = none) := by
  obtain ⟨c, hc⟩ := hx.led
  cases h with
  | same h => exact ⟨c, c, hc, by rw [h]; exact hc, id⟩
  | stopped h => exact ⟨c, c, hc, by rw [h]; exact led_beginStop hc, id⟩
  | moved n round q _ _ hstep _ =>
      cases shows_of_step hx hstep with
      | nothing ha hb _ _ => exact ⟨_, _, ha, hb, id⟩
      | claimed ha hb _ _ => exact ⟨_, _, ha, hb, fun _ => rfl⟩
      | announced ha hb _ _ => exact ⟨_, _, ha, hb, fun _ => rfl⟩
      | started ha hb _ _ => exact ⟨_, _, ha, hb, fun _ => rfl⟩
      | reported _ ha hb _ _ _ => exact ⟨_, _, ha, hb, id⟩

/-- A start that has not been reported is, afterwards, or waits in the inbox. -/
theorem Keeps.starting (h : Keeps s m t a x y) (hl : s.agenda.Lawful)
    (hsound : ∀ (r : Nat) round, s.rounds[r]? = some round → round.Sound) (hx : s.Enrolled a x)
    (hyr : y.round = x.round) {c : Courier.Call μ} (hc : x.attendant.Led c) (hr : c.hasReported = false) :
    t.Covered a y := by
  cases h with
  | same h => exact .starting (c := c) (by rw [h]; exact hc) hr
  | stopped h => exact .starting (c := c) (by rw [h]; exact led_beginStop hc) hr
  | moved n round q _ hround hstep ht =>
      cases shows_of_step hx hstep with
      | nothing ha hb _ _ =>
          obtain rfl := led_unique hc ha
          exact .starting hb hr
      | claimed ha hb _ _ => exact .starting hb rfl
      | announced ha _ _ ho =>
          exact .awaited (hyr ▸ awaits_of_announced hl hsound hx ha rfl hround ht ho)
      | started ha _ _ _ =>
          obtain rfl := led_unique hc ha
          simp [Courier.Call.hasReported] at hr
      | reported _ ha hb _ _ _ =>
          obtain rfl := led_unique hc ha
          exact .starting hb hr

theorem members_length_of_access (h : Access s m t) : s.members.length ≤ t.members.length := by
  have hstop : ∀ b, (s.stopAttendant b).members.length = s.members.length := fun b => by
    unfold stopAttendant
    split
    · exact List.length_set
    · rfl
  cases h with
  | stopNext _ _ _ _ | turnAway _ _ _ _ _ _ | clearStart _ _ _ _ _ _ _ => exact Nat.le_of_eq (hstop _).symm
  | enter _ _ _ _ _ _ => exact Nat.le_of_eq (congrArg List.length members_track.symm)
  | hire _ _ _ _ _ | dismiss _ _ _ _ => exact Nat.le_of_eq (congrArg List.length members_setRound.symm)
  | found k peer r _ =>
      have hlen : (s.members ++ [(⟨(Attendant.create s.codec s.config.throttle s.config.writer).beginStart,
          r, peer⟩ : Member μ)]).length = s.members.length + 1 := List.length_append
      exact Nat.le_trans (Nat.le_succ _) (Nat.le_of_eq hlen.symm)
  | attendant b n member round c q _ _ _ =>
      have hlen : (s.members.set b { member with attendant := c }).length = s.members.length :=
        List.length_set
      exact Nat.le_of_eq hlen.symm
  | _ => exact Nat.le_refl _

/-- An accept loop waits for no start but of those it has waited for, and of the attendant it has just made. -/
theorem starting_from (h : Access s m t) (hk : t.duties[k]? = some (.starting a)) :
    s.duties[k]? = some (.starting a) ∨ ∃ peer r, s.duties[k]? = some (.founding peer r) ∧
      a = s.members.length ∧ t = (s.found peer r).turnTo k (.starting s.members.length) := by
  rcases duty_from h hk with hk' | hcomes
  · exact .inl hk'
  · generalize hd : Duty.starting a = d at hcomes
    cases hcomes with
    | starting hd' ht =>
        obtain rfl := Duty.starting.inj hd
        exact .inr ⟨_, _, hd', rfl, ht⟩
    | called outcome _ => cases outcome <;> simp [Dispatcher.callbackOf, Duty.ofCallback] at hd
    | _ => simp at hd

/-- What the members of a server have in common. -/
structure Mustered (s : Server μ) : Prop where
  lawful : s.agenda.Lawful
  rounds : ∀ (r : Nat) round, s.rounds[r]? = some round → round.Sound
  enrolled : ∀ a x, s.members[a]? = some x → s.Enrolled a x
  /-- Nobody else is reported to have ended. -/
  known : ∀ a, s.Tells a → ∃ x, s.members[a]? = some x
  /-- The accept loop of a run waits for starts of its own members only. -/
  hosts : ∀ (k : Nat) a, s.duties[k]? = some (.starting a) →
    ∃ x, s.members[a]? = some x ∧ s.runOf? x = some k

/-- The round of a connection that is being taken in is the one that the run has set up. -/
theorem begun_of_founding {peer : PeerId} (hl : s.agenda.Lawful)
    (hd : s.duties[k]? = some (.founding peer r)) : s.agenda.begun[r]? = some k := by
  obtain ⟨phase, -, -, -, hstand⟩ := hl.stand_of_duty (k := k) hd (by simp)
  obtain ⟨r', ho, hseat, -⟩ := hstand.of_service rfl
  cases ho with
  | founding _ => exact hseat.begun

/-- The attendant of a connection that has just been accepted. -/
theorem enrolled_found {peer : PeerId} (hs : s.Mustered) (hd : s.duties[k]? = some (.founding peer r)) :
    ((s.found peer r).turnTo k (.starting s.members.length)).Enrolled s.members.length
      ⟨(Attendant.create s.codec s.config.throttle s.config.writer).beginStart, r, peer⟩ := by
  have hrun : s.agenda.begun[r]? = some k := begun_of_founding hs.lawful hd
  have hled := Attendant.led_of_create s.codec s.config.throttle s.config.writer
  refine ⟨Attendant.staged_beginStart (Attendant.staged_create ..), ⟨_, hled⟩, ⟨k, hrun⟩, ?_, ?_, ?_⟩
  · intro _ _ _
    obtain ⟨hlt, -⟩ := List.getElem?_eq_some_iff.1 hd
    exact ⟨k, List.getElem?_set_self hlt, hrun⟩
  · -- nobody has heard of it before
    rintro ⟨j, round, e, hj, hf⟩
    obtain ⟨x, hx⟩ := hs.known s.members.length ⟨j, round, e, hj, hf⟩
    simp at hx
  · intro _
    exact .starting hled rfl

/-- The start of a member has come out once its first operation has. -/
theorem hasStarted_of_led {c : Courier.Call μ} (hx : s.members[a]? = some x) (hc : x.attendant.Led c) :
    s.hasStarted a = c.result?.isSome := by
  simp [hasStarted, attendant?, hx, hc.1]

/-- Nobody is forgotten. -/
theorem covered_of_access (h : Access s m t) (hs : s.Mustered) (hx : s.members[a]? = some x)
    (hyr : y.round = x.round) (hkeep : Keeps s m t a x y) (hty : t.members[a]? = some y)
    (hrun : y.attendant.status ≠ .stopped) : t.Covered a y := by
  have henrolled := hs.enrolled a x hx
  have hnothalted : ¬ t.Halted a := fun hhalted => hrun (hhalted y hty)
  have hxrun : x.attendant.status ≠ .stopped := fun hstopped => hrun (hkeep.halted henrolled hstopped)
  cases henrolled.covered hxrun with
  | starting hc hr => exact hkeep.starting hs.lawful hs.rounds henrolled hyr hc hr
  | awaited ha =>
      rcases awaits_of_access h hs.lawful hs.rounds ha with ha' | ha' | ha'
      · exact .awaited (hyr ▸ ha')
      · exact .tracked ha'
      · exact absurd ha' hnothalted
  | tracked ha =>
      rcases tracked_of_access h ha with ha' | ha' | ha'
      · exact .tracked ha'
      · exact .stopping ha'
      · exact absurd (henrolled.told ha') hxrun
  | stopping ha =>
      rcases stopping_of_access h ha with ha' | ha'
      · exact .stopping ha'
      · exact absurd ha' hnothalted

/-- A member stays one. -/
theorem enrolled_of_keeps (h : Access s m t) (hs : s.Mustered) (hx : s.members[a]? = some x)
    (hyr : y.round = x.round) (hkeep : Keeps s m t a x y) (hty : t.members[a]? = some y) :
    t.Enrolled a y := by
  have henrolled := hs.enrolled a x hx
  obtain ⟨c, d, hc, hd, hcd⟩ := hkeep.led henrolled
  obtain ⟨k, hrun⟩ := henrolled.run
  refine ⟨hkeep.staged henrolled, ⟨d, hd⟩, ⟨k, runOf?_of_access h hyr hrun⟩, ?_, ?_, ?_⟩
  · intro d' hd' hnone
    obtain rfl := led_unique hd hd'
    obtain ⟨j, hj, hjrun⟩ := henrolled.hosted c hc (hcd hnone)
    refine ⟨j, ?_, runOf?_of_access h hyr hjrun⟩
    rcases starting_of_access h hs.lawful hj with hj' | hstarted
    · exact hj'
    · simp [hasStarted_of_led hx hc, hcd hnone] at hstarted
  · intro htells
    rcases tells_of_access h hs.enrolled hs.rounds htells with htold | ⟨y', hy', hstopped⟩
    · exact hkeep.halted henrolled (henrolled.told htold)
    · obtain rfl := Option.some.inj (hty.symm.trans hy')
      exact hstopped
  · exact covered_of_access h hs hx hyr hkeep hty

/-- Every move leaves a server with members of which all this is so. -/
theorem mustered_of_access (h : Access s m t) (hs : s.Mustered) : t.Mustered where
  lawful := lawful_of_access h hs.lawful
  rounds := sound_rounds_of_access h hs.lawful hs.rounds
  enrolled := by
    intro a y hy
    rcases member_of_access h hy with ⟨x, hx, hyr, -, hkeep⟩ | ⟨k, peer, r, hd, rfl, rfl, rfl⟩
    · exact enrolled_of_keeps h hs hx hyr hkeep hy
    · exact enrolled_found hs hd
  known := by
    intro a htells
    rcases tells_of_access h hs.enrolled hs.rounds htells with htold | ⟨y, hy, -⟩
    · obtain ⟨x, hx⟩ := hs.known a htold
      obtain ⟨hlt, -⟩ := List.getElem?_eq_some_iff.1 hx
      exact ⟨_, List.getElem?_eq_getElem (Nat.lt_of_lt_of_le hlt (members_length_of_access h))⟩
    · exact ⟨y, hy⟩
  hosts := by
    intro k a hk
    rcases starting_from h hk with hk' | ⟨peer, r, hd, rfl, rfl⟩
    · obtain ⟨x, hx, hrun⟩ := hs.hosts k a hk'
      obtain ⟨hlt, -⟩ := List.getElem?_eq_some_iff.1 hx
      have hty := List.getElem?_eq_getElem (Nat.lt_of_lt_of_le hlt (members_length_of_access h))
      rcases member_of_access h hty with ⟨x', hx', hyr, -, -⟩ | ⟨_, _, _, _, rfl, _, _⟩
      · obtain rfl := Option.some.inj (hx.symm.trans hx')
        exact ⟨_, hty, runOf?_of_access h hyr hrun⟩
      · simp at hx
    · have hat : ((s.found peer r).turnTo k (.starting s.members.length)).members[s.members.length]? =
          some ⟨(Attendant.create s.codec s.config.throttle s.config.writer).beginStart, r, peer⟩ :=
        List.getElem?_concat_length
      have hbegun : s.agenda.begun[r]? = some k := begun_of_founding hs.lawful hd
      exact ⟨_, hat, hbegun⟩

theorem mustered_of_build {b : Builder μ} (h : b.build = .ok s) : s.Mustered := by
  have hlawful := lawful_of_build h
  obtain ⟨codec, config, rfl⟩ := eq_of_build h
  refine ⟨hlawful, by simp, by simp, ?_, by simp⟩
  rintro a ⟨r, round, e, hr, -⟩
  simp at hr

end Server
end Courier
