import Courier.Proofs.Attendant.Outcome
import Courier.Proofs.Server.House

/-!
# Relay — what registrars take, reflect and pass on

A registrar takes reports out of the inbox of its round one at a time.  A report is reflected in the set of
attendants first, and passed on to the consumer afterwards.  What the registrar is poised to do, or has in hand, it
does without looking again whether it has been told to end.

- `Round.alters`, `Round.admits` — registrars that may alter the set before they look again,
- `Server.RelayTurn`, `Server.relay_of_access` — what a move does to rounds, to the set and to the channels for
  reports on attendants, taken together,
- `Server.Posted`, `Server.posted_of_access` — whose reports are in an inbox, and that they agree with what has
  happened to their attendants.
-/

namespace Courier

variable {μ : Type} [Marshaler μ]

namespace Registrar

/-- The attendant whose report the registrar has in hand. -/
def subject? : Registrar → Option AttendantId
  | .entering a => some a
  | .erasing a _ => some a
  | .announcing a => some a
  | .reporting a _ => some a
  | _ => none

end Registrar

namespace Round

/-- Whether the registrar alters the set, or may yet take a report in order to do so, without looking whether it has
been told to end. -/
def alters (round : Round) : Bool :=
  match round.registrar with
  | .entering _ | .erasing _ _ => true
  | .waiting => round.poised
  | _ => false

/-- Whether the registrar enters somebody in the set, or may yet take a start in order to do so, without looking whether
it has been told to end. -/
def admits (round : Round) : Bool :=
  match round.registrar with
  | .entering _ => true
  | .waiting => round.poised
  | _ => false

theorem alters_of_admits {round : Round} (h : round.admits = true) : round.alters = true := by
  cases hg : round.registrar <;> simp_all [admits, alters]

end Round

namespace Server

variable {s t : Server μ} {m : Move} {a b : AttendantId} {x y : Member μ} {r k : Nat} {round round' : Round}

/-! ## What a move does to reports -/

/-- Nobody is entered in the set or erased from it, and no report on attendants is passed on. -/
structure Unrelayed (s t : Server μ) : Prop where
  tracked : t.tracked = s.tracked
  started : t.outlets.attendantStarted = s.outlets.attendantStarted
  stopped : t.outlets.attendantStopped = s.outlets.attendantStopped

/-- What a move does to round `r`, with what comes about in the set and is passed on. -/
inductive RelayGoes (s : Server μ) (m : Move) (t : Server μ) (r : Nat) (round : Round) : Round → Prop where
  | hired {k : Nat} {p : Address} (hd : s.duties[k]? = some (.hiring r p)) (hu : Unrelayed s t) :
      RelayGoes s m t r round { round with registrar := .waiting }
  | dismissed {k : Nat} {intact : Bool} (hm : m = .work k intact) (hu : Unrelayed s t) :
      RelayGoes s m t r round { round with quit := true }
  | poised {b : Bool} (hg : round.registrar.waits = true)
      (hq : b = true → round.quit = false) (hu : Unrelayed s t) :
      RelayGoes s m t r round { round with poised := b }
  | heeded (hg : round.registrar.waits = true) (hq : round.quit = true)
      (hu : Unrelayed s t) : RelayGoes s m t r round { round with registrar := .closing, poised := false }
  | takenStart {a : AttendantId} {inbox : Channel Notice}
      (hg : round.registrar = .waiting) (hl : round.poised = true)
      (ht : round.inbox.take? = some (.started a, inbox)) (hu : Unrelayed s t) :
      RelayGoes s m t r round { round with inbox, registrar := .entering a, poised := false }
  | takenEnd {a : AttendantId} {e : Ending} {inbox : Channel Notice}
      (hg : round.registrar = .waiting) (hl : round.poised = true)
      (ht : round.inbox.take? = some (.stopped a e, inbox)) (hu : Unrelayed s t) :
      RelayGoes s m t r round { round with inbox, registrar := .erasing a e, poised := false }
  | turnedAway {a : AttendantId} (hg : round.registrar = .entering a)
      (hc : s.closing = true) (hu : Unrelayed s t) :
      RelayGoes s m t r round { round with registrar := .announcing a, poised := false }
  | entered {a : AttendantId} (hg : round.registrar = .entering a)
      (hc : s.closing = false) (ht : t.tracked = (s.track a).tracked)
      (hs : t.outlets.attendantStarted = s.outlets.attendantStarted)
      (he : t.outlets.attendantStopped = s.outlets.attendantStopped) :
      RelayGoes s m t r round { round with registrar := .announcing a, poised := false }
  | erased {a : AttendantId} {e : Ending} (hg : round.registrar = .erasing a e)
      (ht : t.tracked = (s.untrack a).tracked)
      (hs : t.outlets.attendantStarted = s.outlets.attendantStarted)
      (he : t.outlets.attendantStopped = s.outlets.attendantStopped) :
      RelayGoes s m t r round { round with registrar := .reporting a e, poised := false }
  | announced {a : AttendantId} (hg : round.registrar = .announcing a)
      (hl : round.poised = true)
      (ho : s.outlets.attendantStarted.offer? a = some t.outlets.attendantStarted)
      (ht : t.tracked = s.tracked) (he : t.outlets.attendantStopped = s.outlets.attendantStopped) :
      RelayGoes s m t r round { round with registrar := .waiting, poised := false }
  | reported {a : AttendantId} {e : Ending} (hg : round.registrar = .reporting a e)
      (hl : round.poised = true)
      (ho : s.outlets.attendantStopped.offer? (a, e) = some t.outlets.attendantStopped)
      (ht : t.tracked = s.tracked) (hs : t.outlets.attendantStarted = s.outlets.attendantStarted) :
      RelayGoes s m t r round { round with registrar := .waiting, poised := false }
  | shut (hg : round.registrar = .closing) (hu : Unrelayed s t) :
      RelayGoes s m t r round
        { round with inbox := round.inbox.close, registrar := .clearing, poised := false }
  | cleared {n : Notice} {inbox : Channel Notice} (hg : round.registrar = .clearing)
      (ht : round.inbox.take? = some (n, inbox)) (hu : Unrelayed s t) :
      RelayGoes s m t r round { round with inbox, registrar := .clearing, poised := false }
  | finished (hg : round.registrar = .clearing) (ht : round.inbox.take? = none)
      (hu : Unrelayed s t) :
      RelayGoes s m t r round { round with registrar := .finished, poised := false }
  | offered {a : AttendantId} {n : Attendant.Move} {x : Member μ} {b : Attendant μ} {q : Ports}
      (hx : s.members[a]? = some x) (hr : x.round = r)
      (h : x.attendant.step a s.now (s.portsOf round) n = some (b, q))
      (ht : t.members = s.members.set a { x with attendant := b }) (hu : Unrelayed s t) :
      RelayGoes s m t r round { round with inbox := q.lifecycle }

/-- What a move does to rounds, to the set and to what is passed on. -/
inductive RelayTurn (s : Server μ) (m : Move) (t : Server μ) : Prop where
  | same (hr : t.rounds = s.rounds) (hu : Unrelayed s t)
  | opened (hr : t.rounds = s.rounds ++ [Round.fresh]) (hu : Unrelayed s t)
  /-- A stop empties the set. -/
  | emptied {i : Nat} (hc : s.calls[i]? = some .emptying) (hr : t.rounds = s.rounds) (ht : t.tracked = [])
      (hs : t.outlets.attendantStarted = s.outlets.attendantStarted)
      (he : t.outlets.attendantStopped = s.outlets.attendantStopped)
  | moved {r : Nat} {round round' : Round} (hround : s.rounds[r]? = some round)
      (hgoes : RelayGoes s m t r round round') (hr : t.rounds = s.rounds.set r round')

theorem unrelayed_stopAttendant (ht : t.tracked = (s.stopAttendant a).tracked)
    (ho : t.outlets = (s.stopAttendant a).outlets) : Unrelayed s t :=
  ⟨by rw [ht, tracked_stopAttendant], by rw [ho, outlets_stopAttendant], by rw [ho, outlets_stopAttendant]⟩

/-- A registrar that is hired or dismissed belongs to a round, or nothing changes. -/
theorem relay_of_setRound {f : Round → Round} (ht : t.rounds = (s.setRound r f).rounds) (hu : Unrelayed s t)
    (hf : ∀ round, s.rounds[r]? = some round → RelayGoes s m t r round (f round)) : RelayTurn s m t := by
  cases hr : s.rounds[r]? with
  | none => exact .same (ht.trans (congrArg Server.rounds (setRound_of_none hr))) hu
  | some round => exact .moved hr (hf round hr) (ht.trans (rounds_setRound hr))

theorem relay_of_access (h : Access s m t) : RelayTurn s m t := by
  have hnone : Unrelayed s s := ⟨rfl, rfl, rfl⟩
  cases h with
  | empty i hc => exact .emptied hc rfl rfl rfl rfl
  | openRound k _ p _ => exact .opened rfl ⟨rfl, rfl, rfl⟩
  | hire k _ r p hd =>
      have hu : Unrelayed s ((s.setRound r fun round => { round with registrar := .waiting }).turnTo k
          (.announcing p)) := ⟨tracked_setRound, congrArg _ outlets_setRound, congrArg _ outlets_setRound⟩
      exact relay_of_setRound rfl hu fun _ _ => .hired hd hu
  | dismiss k intact r hd =>
      have hu : Unrelayed s ((s.setRound r fun round => { round with quit := true }).turnTo k .parting) :=
        ⟨tracked_setRound, congrArg _ outlets_setRound, congrArg _ outlets_setRound⟩
      exact relay_of_setRound rfl hu fun _ _ => .dismissed rfl hu
  | poise _ r round b hr _ hg hq => exact .moved hr (.poised hg hq ⟨rfl, rfl, rfl⟩) rfl
  | heed r round hr hg hq => exact .moved hr (.heeded hg hq ⟨rfl, rfl, rfl⟩) rfl
  | takeStart r round a inbox hr hg hl ht => exact .moved hr (.takenStart hg hl ht ⟨rfl, rfl, rfl⟩) rfl
  | takeEnd r round a e inbox hr hg hl ht => exact .moved hr (.takenEnd hg hl ht ⟨rfl, rfl, rfl⟩) rfl
  | turnAway r round a hr hg hc =>
      refine .moved hr (.turnedAway hg hc (unrelayed_stopAttendant rfl rfl)) ?_
      unfold setRegister
      rw [rounds_stopAttendant]
  | enter r round a hr hg hc =>
      refine .moved hr (.entered hg hc rfl ?_ ?_) ?_
      · exact congrArg Outlets.attendantStarted outlets_track
      · exact congrArg Outlets.attendantStopped outlets_track
      · unfold setRegister
        rw [rounds_track]
  | erase r round a e hr hg => exact .moved hr (.erased hg rfl rfl rfl) rfl
  | announce r round a _ hr hg hl ho => exact .moved hr (.announced hg hl ho rfl rfl) rfl
  | report r round a e _ hr hg hl ho => exact .moved hr (.reported hg hl ho rfl rfl) rfl
  | shut r round hr hg => exact .moved hr (.shut hg ⟨rfl, rfl, rfl⟩) rfl
  | clearStart r round a inbox hr hg ht =>
      refine .moved hr (.cleared hg ht (unrelayed_stopAttendant rfl rfl)) ?_
      unfold setRegister
      rw [rounds_stopAttendant]
  | clearEnd r round a e inbox hr hg ht => exact .moved hr (.cleared hg ht ⟨rfl, rfl, rfl⟩) rfl
  | retireRegistrar r round hr hg ht => exact .moved hr (.finished hg ht ⟨rfl, rfl, rfl⟩) rfl
  | attendant a n x round b q hx hr h => exact .moved hr (.offered hx rfl h rfl ⟨rfl, rfl, rfl⟩) rfl
  | stopNext _ _ _ _ => exact .same rounds_stopAttendant (unrelayed_stopAttendant rfl rfl)
  | _ => exact .same rfl ⟨rfl, rfl, rfl⟩

/-! ## Looking at one round -/

theorem RelayTurn.revises (h : RelayTurn s m t) :
    Revises (· = Round.fresh) (RelayGoes s m t) s.rounds t.rounds := by
  cases h with
  | same ht _ => exact .same ht
  | opened ht _ => exact .added rfl ht
  | emptied _ ht _ _ _ => exact .same ht
  | moved hr hgoes ht => exact .changed hr hgoes ht

theorem RelayTurn.round_to (h : RelayTurn s m t) (hr : s.rounds[r]? = some round) :
    ∃ round', t.rounds[r]? = some round' ∧ (round' = round ∨ RelayGoes s m t r round round') :=
  h.revises.get_to hr

theorem RelayTurn.round_from (h : RelayTurn s m t) (hr : t.rounds[r]? = some round') :
    round' = Round.fresh ∨
      ∃ round, s.rounds[r]? = some round ∧ (round' = round ∨ RelayGoes s m t r round round') :=
  h.revises.get_from hr

namespace RelayGoes

/-- Reports are put into an inbox by members of its round, each about itself. -/
theorem sent (h : RelayGoes s m t r round round') {n : Notice} (hn : n ∈ round'.inbox.sent) :
    n ∈ round.inbox.sent ∨ ∃ x, s.members[n.attendant]? = some x ∧ x.round = r := by
  cases h with
  | takenStart _ _ ht _ => exact .inl (Channel.sent_of_take? ht ▸ hn)
  | takenEnd _ _ ht _ => exact .inl (Channel.sent_of_take? ht ▸ hn)
  | cleared _ ht _ => exact .inl (Channel.sent_of_take? ht ▸ hn)
  | @offered _ _ _ _ q hx hr hstep _ _ =>
      rcases Attendant.lifecycle_of_access (Attendant.access_of_step hstep) with heq | ⟨own, rfl, ho⟩
      · have hsame : q.lifecycle = round.inbox := heq
        exact .inl (hsame ▸ hn)
      · rcases Channel.mem_sent_of_offer? ho hn with hn | rfl
        · exact .inl hn
        · exact .inr ⟨_, hx, hr⟩
  | _ => exact .inl hn

/-- What a registrar has in hand, it has taken out of the inbox. -/
theorem subject (h : RelayGoes s m t r round round') (ha : round'.registrar.subject? = some a) :
    round.registrar.subject? = some a ∨ ∃ n ∈ round.inbox.sent, n.attendant = a := by
  cases h with
  | dismissed _ _ => exact .inl ha
  | takenStart _ _ ht _ =>
      obtain rfl := Option.some.inj ha
      exact .inr ⟨_, Channel.mem_sent_of_take? ht, rfl⟩
  | takenEnd _ _ ht _ =>
      obtain rfl := Option.some.inj ha
      exact .inr ⟨_, Channel.mem_sent_of_take? ht, rfl⟩
  | turnedAway hg _ _ => exact .inl (hg ▸ ha)
  | entered hg _ _ _ _ => exact .inl (hg ▸ ha)
  | erased hg _ _ _ => exact .inl (hg ▸ ha)
  | poised _ _ _ | offered _ _ _ _ _ => exact .inl ha
  | _ => simp [Registrar.subject?] at ha

/-- A registrar that has begun stays so. -/
theorem isStaffed (h : RelayGoes s m t r round round') (hs : round.isStaffed = true) :
    round'.isStaffed = true := by
  cases h with
  | dismissed _ _ | poised _ _ _ | offered _ _ _ _ _ => exact hs
  | _ => rfl

/-- A registrar that has been told to end is not told anything else. -/
theorem quit (h : RelayGoes s m t r round round') (hq : round.quit = true) : round'.quit = true := by
  cases h with
  | dismissed _ _ => rfl
  | _ => exact hq

/-- A registrar that may alter the set has just seen that it has not been told to end, or has been poised to take a
report, or is where it was. -/
theorem alters_cases (h : RelayGoes s m t r round round') (hl : s.agenda.Lawful) (hr : s.rounds[r]? = some round)
    (hs : round.Sound) (ha : round'.alters = true) :
    round.quit = false ∨ (round.registrar = .waiting ∧ round.poised = true) ∨
      (round'.registrar = round.registrar ∧ round'.poised = round.poised) := by
  cases h with
  | hired hd _ =>
      -- a registrar that has not begun has seen nothing
      have habsent := absent_of_hiring hl hd hr
      have hwaits := hs.poised ha
      simp [habsent, Registrar.waits] at hwaits
  | dismissed _ _ | offered _ _ _ _ _ => exact .inr (.inr ⟨rfl, rfl⟩)
  | @poised b hg hq _ =>
      cases b with
      | true => exact .inl (hq rfl)
      | false => cases hreg : round.registrar <;> simp_all [Round.alters, Registrar.waits]
  | takenStart hg hl _ _ | takenEnd hg hl _ _ => exact .inr (.inl ⟨hg, hl⟩)
  | _ => simp [Round.alters] at ha

theorem alters (h : RelayGoes s m t r round round') (hl : s.agenda.Lawful) (hr : s.rounds[r]? = some round)
    (hs : round.Sound) (ha : round'.alters = true) : round.alters = true ∨ round.quit = false := by
  rcases h.alters_cases hl hr hs ha with hopen | ⟨hg, hp⟩ | ⟨hg, hp⟩
  · exact .inr hopen
  · exact .inl (by simp [Round.alters, hg, hp])
  · exact .inl (by simpa [Round.alters, hg, hp] using ha)

/-- A registrar that comes to be about to enter somebody has just seen that it has not been told to end. -/
theorem admits (h : RelayGoes s m t r round round') (hl : s.agenda.Lawful) (hr : s.rounds[r]? = some round)
    (hs : round.Sound) (ha : round'.admits = true) : round.admits = true ∨ round.quit = false := by
  rcases h.alters_cases hl hr hs (Round.alters_of_admits ha) with hopen | ⟨hg, hp⟩ | ⟨hg, hp⟩
  · exact .inr hopen
  · exact .inl (by simp [Round.admits, hg, hp])
  · exact .inl (by simpa [Round.admits, hg, hp] using ha)

/-- An inbox is used by others than a given attendant, unless the attendant itself has moved. -/
theorem foreign (h : RelayGoes s m t r round round') (a : AttendantId) :
    Channel.Foreign (fun n : Notice => n.attendant = a) round.inbox round'.inbox ∨
      ∃ n x b q, s.members[a]? = some x ∧ x.attendant.step a s.now (s.portsOf round) n = some (b, q) ∧
        t.members = s.members.set a { x with attendant := b } ∧
        round' = { round with inbox := q.lifecycle } := by
  cases h with
  | takenStart _ _ ht _ => exact .inl (.of_take? ht)
  | takenEnd _ _ ht _ => exact .inl (.of_take? ht)
  | cleared _ ht _ => exact .inl (.of_take? ht)
  | shut _ _ => exact .inl .of_close
  | @offered b n x c q hx hr hstep ht _ =>
      by_cases hba : b = a
      · obtain rfl := hba
        exact .inr ⟨n, x, c, q, hx, hstep, ht, rfl⟩
      · rcases Attendant.lifecycle_of_access (Attendant.access_of_step hstep) with heq | ⟨own, hown, ho⟩
        · have hsame : q.lifecycle = round.inbox := heq
          exact .inl (hsame ▸ .refl _ _)
        · exact .inl (.of_offer? ho fun hmine => hba (hown.symm.trans hmine))
  | _ => exact .inl (.refl _ _)

end RelayGoes

/-! ## Reports and their attendants -/

/-- Reports in an inbox come from the members of its round, and agree with what has happened to them. -/
structure Posted (s : Server μ) : Prop where
  origin : ∀ (r : Nat) round n, s.rounds[r]? = some round → n ∈ round.inbox.sent →
    ∃ x, s.members[n.attendant]? = some x ∧ x.round = r
  subject : ∀ (r : Nat) round a, s.rounds[r]? = some round → round.registrar.subject? = some a →
    ∃ x, s.members[a]? = some x ∧ x.round = r
  joined : ∀ (a : AttendantId) x, s.members[a]? = some x → ∃ round, s.rounds[x.round]? = some round ∧
    round.isStaffed = true ∧ x.attendant.Reported a (s.portsOf round)

/-- A member stays one, in its round. -/
theorem member_persists (h : Access s m t) (hx : s.members[a]? = some x) :
    ∃ y, t.members[a]? = some y ∧ y.round = x.round ∧ Keeps s m t a x y := by
  obtain ⟨hlt, -⟩ := List.getElem?_eq_some_iff.1 hx
  have hty := List.getElem?_eq_getElem (Nat.lt_of_lt_of_le hlt (members_length_of_access h))
  rcases member_of_access h hty with ⟨x', hx', hr, -, hkeep⟩ | ⟨_, _, _, _, rfl, _, _⟩
  · obtain rfl := Option.some.inj (hx.symm.trans hx')
    exact ⟨_, hty, hr, hkeep⟩
  · simp at hx

/-- What a move does to round `r`, as a member `a` of the round sees it. -/
inductive RelaySeen (s : Server μ) (m : Move) (t : Server μ) (a : AttendantId) (r : Nat) (round : Round) :
    Round → Prop where
  | aside (hu : Unrelayed s t) : RelaySeen s m t a r round round
  | emptied {i : Nat} (hc : s.calls[i]? = some .emptying) (ht : t.tracked = [])
      (hs : t.outlets.attendantStarted = s.outlets.attendantStarted)
      (he : t.outlets.attendantStopped = s.outlets.attendantStopped) : RelaySeen s m t a r round round
  | elsewhere {j : Nat} {found found' : Round} (hgoes : RelayGoes s m t j found found')
      (ha : found.registrar.subject? ≠ some a) : RelaySeen s m t a r round round
  | here {round' : Round} (hgoes : RelayGoes s m t r round round') : RelaySeen s m t a r round round'

/-- No other registrar than the one of its round has a member in hand. -/
theorem relay_seen (h : Access s m t) (hp : s.Posted) (hx : s.members[a]? = some x)
    (hr : s.rounds[x.round]? = some round) (hr' : t.rounds[x.round]? = some round') :
    RelaySeen s m t a x.round round round' := by
  cases relay_of_access h with
  | same ht hu =>
      rw [ht, hr] at hr'
      obtain rfl := Option.some.inj hr'
      exact .aside hu
  | opened ht hu =>
      obtain ⟨hlt, -⟩ := List.getElem?_eq_some_iff.1 hr
      rw [ht, List.getElem?_append_left hlt, hr] at hr'
      obtain rfl := Option.some.inj hr'
      exact .aside hu
  | emptied hc ht hnil hs he =>
      rw [ht, hr] at hr'
      obtain rfl := Option.some.inj hr'
      exact .emptied hc hnil hs he
  | @moved j found found' hj hgoes ht =>
      rw [ht] at hr'
      by_cases hjr : j = x.round
      · obtain rfl := hjr
        obtain rfl := Option.some.inj (hr.symm.trans hj)
        obtain ⟨hlt, -⟩ := List.getElem?_eq_some_iff.1 hr
        rw [List.getElem?_set_self hlt] at hr'
        obtain rfl := Option.some.inj hr'
        exact .here hgoes
      · rw [List.getElem?_set_ne hjr, hr] at hr'
        obtain rfl := Option.some.inj hr'
        refine .elsewhere hgoes fun ha => ?_
        -- the other registrar would have a member of its own round in hand
        obtain ⟨x', hx', hround⟩ := hp.subject j found a hj ha
        obtain rfl := Option.some.inj (hx.symm.trans hx')
        exact hjr hround.symm

/-- Only the inbox matters to whether reports agree with what has happened. -/
theorem reported_of_lifecycle {c : Attendant μ} {p q : Ports} (h : c.Reported a p)
    (hf : Channel.Foreign (fun n : Notice => n.attendant = a) p.lifecycle q.lifecycle) : c.Reported a q := by
  have hports : c.Reported a { p with lifecycle := q.lifecycle } :=
    Attendant.reported_of_foreign (.of_lifecycle hf) h
  exact hports

theorem reported_beginStop {c : Attendant μ} {p : Ports} (hs : c.Staged) (h : c.Reported a p) :
    c.beginStop.Reported a p := by
  have haccess : Attendant.Access a 0 c p .stop c.beginStop p := Attendant.access_of_beginStop
  exact Attendant.told_of_access haccess hs h

/-- Reports on a member go on to agree with what happens to it. -/
theorem joined_of_keeps (h : Access s m t) (hx : s.members[a]? = some x) (hy : t.members[a]? = some y)
    (hkeep : Keeps s m t a x y) (hs : x.attendant.Staged) (hr : s.rounds[x.round]? = some round)
    (hstaffed : round.isStaffed = true) (hrep : x.attendant.Reported a (s.portsOf round)) :
    ∃ round', t.rounds[x.round]? = some round' ∧ round'.isStaffed = true ∧
      y.attendant.Reported a (t.portsOf round') := by
  -- the member has not been moved by itself, so that others have used its inbox
  have hothers : y.attendant.Reported a (s.portsOf round) → ∃ round', t.rounds[x.round]? = some round' ∧
      round'.isStaffed = true ∧ y.attendant.Reported a (t.portsOf round') := by
    intro hrep'
    obtain ⟨round', hr', rfl | hgoes⟩ := (relay_of_access h).round_to hr
    · exact ⟨round', hr', hstaffed, reported_of_lifecycle hrep' (.refl _ _)⟩
    · refine ⟨round', hr', hgoes.isStaffed hstaffed, ?_⟩
      rcases hgoes.foreign a with hforeign | ⟨n, x', b, q, hx', hstep, ht, rfl⟩
      · exact reported_of_lifecycle hrep' hforeign
      · obtain rfl := Option.some.inj (hx.symm.trans hx')
        obtain ⟨hlt, -⟩ := List.getElem?_eq_some_iff.1 hx
        rw [ht, List.getElem?_set_self hlt] at hy
        obtain rfl := Option.some.inj hy
        have hown : b.Reported a q := Attendant.told_of_access (Attendant.access_of_step hstep) hs hrep
        exact reported_of_lifecycle hown (.refl _ _)
  cases hkeep with
  | same heq => exact hothers (heq ▸ hrep)
  | stopped heq => exact hothers (heq ▸ reported_beginStop hs hrep)
  | moved n round₁ q _ hr₁ hstep ht =>
      obtain rfl := Option.some.inj (hr.symm.trans hr₁)
      obtain ⟨hlt, -⟩ := List.getElem?_eq_some_iff.1 hr
      refine ⟨{ round with inbox := q.lifecycle }, by rw [ht, List.getElem?_set_self hlt], hstaffed, ?_⟩
      have hown : y.attendant.Reported a q :=
        Attendant.told_of_access (Attendant.access_of_step hstep) hs hrep
      exact reported_of_lifecycle hown (.refl _ _)

/-- The registrar of the round that a connection is about to join is at work. -/
theorem round_of_founding {peer : PeerId} (hl : s.agenda.Lawful)
    (hd : s.duties[k]? = some (.founding peer r)) :
    ∃ round, s.rounds[r]? = some round ∧ round.isStaffed = true := by
  obtain ⟨phase, -, -, -, hstand⟩ := hl.stand_of_duty (k := k) hd (by simp)
  obtain ⟨r', ho, -, -, hb, -⟩ := hstand.of_service rfl
  cases ho with
  | founding _ =>
      obtain ⟨round, hr, hbadge⟩ := round_at hb
      exact ⟨round, hr, congrArg Prod.fst hbadge⟩

/-- What is about members is not about an attendant that has just been made. -/
theorem filter_newcomer {α : Type} {about : α → AttendantId} {xs : List α}
    (h : ∀ x ∈ xs, ∃ y, s.members[about x]? = some y) :
    (xs.filter fun x => decide (about x = s.members.length)) = [] := by
  refine List.filter_eq_nil_iff.2 fun x hx hown => ?_
  obtain ⟨y, hy⟩ := h x hx
  rw [of_decide_eq_true hown] at hy
  simp at hy

/-- Nobody has reported anything on an attendant that has just been made. -/
theorem joined_found {peer : PeerId} (hm : s.Mustered) (hp : s.Posted)
    (hd : s.duties[k]? = some (.founding peer r)) :
    ∃ round, s.rounds[r]? = some round ∧ round.isStaffed = true ∧
      (Attendant.create s.codec s.config.throttle s.config.writer).beginStart.Reported s.members.length
        (s.portsOf round) := by
  obtain ⟨round, hr, hstaffed⟩ := round_of_founding hm.lawful hd
  have hsilent : (s.portsOf round).notices s.members.length = [] :=
    filter_newcomer fun n hn => (hp.origin r round n hr hn).imp fun _ hx => hx.1
  have haccess : Attendant.Access s.members.length 0
      (Attendant.create s.codec s.config.throttle s.config.writer) (s.portsOf round) .start
      (Attendant.create s.codec s.config.throttle s.config.writer).beginStart (s.portsOf round) :=
    Attendant.access_of_beginStart
  exact ⟨round, hr, hstaffed, Attendant.told_of_access haccess (Attendant.staged_create ..)
    (Attendant.reported_create _ _ _ _ hsilent)⟩

/-- Moves keep reports and their attendants together. -/
theorem posted_of_access (h : Access s m t) (hm : s.Mustered) (hp : s.Posted) : t.Posted where
  origin := by
    intro r round' n hr hn
    have hfrom : ∃ x, s.members[n.attendant]? = some x ∧ x.round = r := by
      -- a report is in the inbox already, or is put there by its own attendant
      rcases (relay_of_access h).round_from hr with rfl | ⟨round, hr₀, rfl | hgoes⟩
      · simp [Round.fresh] at hn
      · exact hp.origin r _ n hr₀ hn
      · rcases hgoes.sent hn with hn | hown
        · exact hp.origin r _ n hr₀ hn
        · exact hown
    obtain ⟨x, hx, rfl⟩ := hfrom
    obtain ⟨y, hy, hyr, -⟩ := member_persists h hx
    exact ⟨y, hy, hyr⟩
  subject := by
    intro r round' a hr ha
    have hfrom : ∃ x, s.members[a]? = some x ∧ x.round = r := by
      rcases (relay_of_access h).round_from hr with rfl | ⟨round, hr₀, rfl | hgoes⟩
      · simp [Round.fresh, Registrar.subject?] at ha
      · exact hp.subject r _ a hr₀ ha
      · rcases hgoes.subject ha with ha | ⟨n, hn, rfl⟩
        · exact hp.subject r _ a hr₀ ha
        · exact hp.origin r _ n hr₀ hn
    obtain ⟨x, hx, rfl⟩ := hfrom
    obtain ⟨y, hy, hyr, -⟩ := member_persists h hx
    exact ⟨y, hy, hyr⟩
  joined := by
    intro a y hy
    rcases member_of_access h hy with ⟨x, hx, hyr, -, hkeep⟩ | ⟨k, peer, r, hd, rfl, rfl, rfl⟩
    · obtain ⟨round, hr, hstaffed, hrep⟩ := hp.joined a x hx
      rw [hyr]
      exact joined_of_keeps h hx hy hkeep (hm.enrolled a x hx).staged hr hstaffed hrep
    · exact joined_found hm hp hd

theorem posted_of_build {b : Builder μ} (h : b.build = .ok s) : s.Posted := by
  obtain ⟨codec, config, rfl⟩ := eq_of_build h
  exact ⟨by simp, by simp, by simp⟩

/-- The consumer does not come near the inboxes. -/
theorem posted_of_drained {o : Outlets} (hp : s.Posted) : ({ s with outlets := o } : Server μ).Posted where
  origin := hp.origin
  subject := hp.subject
  joined := by
    intro a x hx
    obtain ⟨round, hr, hstaffed, hrep⟩ := hp.joined a x hx
    exact ⟨round, hr, hstaffed, reported_of_lifecycle hrep (.refl _ _)⟩

end Server
end Courier
