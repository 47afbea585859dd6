import Courier.Proofs.Server.Journal

/-!
# Overtaking — messages that come before the start of their attendant

A message goes from the read loop straight to a channel of the server.  The report on the start goes through the inbox
of a round and the hand of its registrar, which is held up while nobody makes room for it.  The order in which a funnel
looks through the channels says nothing of what has not come to them yet.

- `Server.Behind` — where the report is that has not been passed on,
- `Server.Forwarded`, `House.forwarded_of_reaches` — a registrar that goes on has passed on the start of whoever has
  ended,
- `House.start_of_poured` — the handler has been told of the start unless the report is behind.
-/

namespace Courier

variable {μ : Type} [Marshaler μ]

namespace Server

variable {s t : Server μ} {m : Move} {a : AttendantId} {x : Member μ} {r : Nat} {round round' : Round} {e : Ending}

/-! ## Starts on their way -/

/-- The report on the start of an attendant has not been passed on. -/
inductive Behind (s : Server μ) (a : AttendantId) : Prop where
  /-- It is in the inbox. -/
  | queued {x : Member μ} {round : Round} (hx : s.members[a]? = some x) (hr : s.rounds[x.round]? = some round)
      (hq : .started a ∈ round.inbox.queue)
  /-- The registrar has it in hand, and may be waiting for room. -/
  | inHand {x : Member μ} {round : Round} (hx : s.members[a]? = some x) (hr : s.rounds[x.round]? = some round)
      (hg : round.registrar = .entering a ∨ round.registrar = .announcing a)
  /-- The registrar has been told to end, and has dropped it. -/
  | dropped {x : Member μ} {round : Round} (hx : s.members[a]? = some x) (hr : s.rounds[x.round]? = some round)
      (hg : round.registrar.hasLeft = true) (hs : a ∉ s.outlets.attendantStarted.sent)

/-- A start that is in the inbox has not been taken before. -/
theorem heard_of_queued {c : Attendant μ} (hrep : c.Reported a (s.portsOf round))
    (hq : .started a ∈ round.inbox.queue) : round.heard a = [] := by
  have hshape := Attendant.notices_of_reported hrep
  rw [notices_eq] at hshape
  have hmem : .started a ∈ round.inbox.queue.filter fun n => decide (n.attendant = a) :=
    List.mem_filter.2 ⟨hq, by simp [Notice.attendant]⟩
  generalize round.inbox.queue.filter (fun n => decide (n.attendant = a)) = rest at hshape hmem
  generalize round.heard a = ns at hshape
  cases ns with
  | nil => rfl
  | cons n ns =>
      -- behind another report there is none on a start
      have hnot : .started a ∉ ns ++ rest := by
        rcases hshape with h | h | ⟨e, h⟩
        · simp at h
        · have hrest : ns ++ rest = [] := (List.cons.inj h).2
          simp [hrest]
        · have hrest : ns ++ rest = [.stopped a e] := (List.cons.inj h).2
          simp [hrest]
      exact absurd (List.mem_append_right _ hmem) hnot

theorem Filed.not_entered {ns : List Notice} (h : Filed s a ns (.entering a)) :
    a ∉ s.outlets.attendantStarted.sent := by
  cases h with
  | entering _ hs _ => exact hs
  | unheard hg _ _ _ | begun hg _ _ | ended _ hg _ _ => exact absurd rfl hg

theorem Filed.not_heard {g : Registrar} (h : Filed s a [] g) : a ∉ s.outlets.attendantStarted.sent := by
  cases h with
  | unheard _ _ hs _ => exact hs

theorem Behind.not_sent (h : s.Behind a) (hp : s.Posted) (hr : s.Relayed) :
    a ∉ s.outlets.attendantStarted.sent := by
  cases h with
  | @queued x round hx hround hq =>
      obtain ⟨round', hround', -, hrep⟩ := hp.joined a x hx
      obtain rfl := Option.some.inj (hround.symm.trans hround')
      have hf := hr.filed a x round hx hround
      rw [heard_of_queued hrep hq] at hf
      exact hf.not_heard
  | @inHand x round hx hround hg =>
      have hf := hr.filed a x round hx hround
      rcases hg with hg | hg
      · exact (hg ▸ hf).not_entered
      · exact (hg ▸ hf).not_started
  | dropped _ _ _ hs => exact hs

/-! ## Starts of attendants that have ended -/

/-- A start has been passed on, as far as anybody receives it. -/
def Passed (s : Server μ) (a : AttendantId) : Prop :=
  s.IsLost ∨ a ∈ s.outlets.attendantStarted.sent

/-- A registrar that goes on has passed on the start of whoever's end it has taken. -/
def Forwarded (s : Server μ) : Prop :=
  ∀ (a : AttendantId) x round e, s.members[a]? = some x → s.rounds[x.round]? = some round →
    .stopped a e ∈ round.heard a → round.registrar.hasLeft = false → s.Passed a

theorem passed_of_access (h : Access s m t) (hp : s.Passed a) : t.Passed a :=
  have hfed := (feeds_of_access h).starts
  hp.imp (fun hl => hfed.closed.trans hl) hfed.mem_sent

/-- What has been heard has been heard before, or has just been taken. -/
theorem mem_heard_of_take? {n n' : Notice} {inbox : Channel Notice} {g : Registrar} {b : Bool}
    (h : round.inbox.take? = some (n, inbox))
    (hn : n' ∈ ({ round with inbox, registrar := g, poised := b } : Round).heard a) :
    n' ∈ round.heard a ∨ n' = n ∧ n.attendant = a := by
  by_cases hna : n.attendant = a
  · rw [heard_of_take? h g b hna, List.mem_append, List.mem_singleton] at hn
    exact hn.imp_right fun heq => ⟨heq, hna⟩
  · rw [heard_of_take?_ne h g b hna] at hn
    exact .inl hn

/-- A registrar that takes an end has passed the start on before. -/
theorem forwarded_of_goes (h : RelayGoes s m t r round round') (hl : s.agenda.Lawful)
    (hr : s.rounds[r]? = some round) (hstaffed : round.isStaffed = true) (hsound : round.Sound) {c : Attendant μ}
    (hrep : c.Reported a (s.portsOf round)) (hf : s.Filed a (round.heard a) round.registrar)
    (hbefore : .stopped a e ∈ round.heard a → round.registrar.hasLeft = false → s.Passed a)
    (hstop : .stopped a e ∈ round'.heard a) (hleft : round'.registrar.hasLeft = false) : s.Passed a := by
  cases h with
  | hired hd _ => simp [unstaffed_of_hiring hl hd hr] at hstaffed
  | takenStart hg _ ht _ =>
      rcases mem_heard_of_take? ht hstop with hstop | ⟨hn, -⟩
      · exact hbefore hstop (by simp [hg, Registrar.hasLeft])
      · simp at hn
  | takenEnd hg _ ht _ =>
      rcases mem_heard_of_take? ht hstop with hstop | ⟨-, rfl⟩
      · exact hbefore hstop (by simp [hg, Registrar.hasLeft])
      · rw [heard_of_end hrep ht, hg] at hf
        cases hf with
        | begun _ hs _ => exact hs rfl
  | turnedAway hg _ _ | entered hg _ _ _ _ | erased hg _ _ _ | announced hg _ _ _ _ | reported hg _ _ _ _ =>
      exact hbefore hstop (by simp [hg, Registrar.hasLeft])
  | dismissed _ _ | poised _ _ _ => exact hbefore hstop hleft
  | offered _ _ hstep _ _ => exact hbefore (heard_of_step hsound hstep ▸ hstop) hleft
  | heeded _ _ _ | shut _ _ | cleared _ _ _ | finished _ _ _ => simp [Registrar.hasLeft] at hleft

theorem forwarded_of_access (h : Access s m t) (hm : s.Mustered) (hp : s.Posted) (hr : s.Relayed)
    (hf : s.Forwarded) : t.Forwarded := by
  intro a y round' e hy hround' hstop hleft
  refine passed_of_access h ?_
  rcases member_of_access h hy with ⟨x, hx, hyr, -, -⟩ | ⟨k, peer, r, hd, rfl, rfl, rfl⟩
  · obtain ⟨round, hround, hstaffed, hrep⟩ := hp.joined a x hx
    have hbefore := hf a x round e hx hround
    cases relay_seen h hp hx hround (hyr ▸ hround') with
    | aside _ | emptied _ _ _ _ | elsewhere _ _ => exact hbefore hstop hleft
    | here hgoes =>
        exact forwarded_of_goes hgoes hm.lawful hround hstaffed (hm.rounds _ _ hround) hrep
          (hr.filed a x round hx hround) hbefore hstop hleft
  · -- nothing has been heard of an attendant that has just been made
    have hround : s.rounds[r]? = some round' := hround'
    simp [heard_newcomer hp hround] at hstop

theorem forwarded_of_drained {o : Outlets} (h : s.outlets.Drained o) (hf : s.Forwarded) :
    ({ s with outlets := o } : Server μ).Forwarded := fun a x round e hx hround hstop hleft =>
  (hf a x round e hx hround hstop hleft).imp (unnoticed_of_drained h a).lost (unnoticed_of_drained h a).started.2

/-- The start of whoever has reported it is in the inbox or has been taken, unless the inbox has been closed. -/
theorem heard_or_queued {c : Attendant μ} (hrep : c.Reported a (s.portsOf round)) (hstarted : c.hasStarted = true)
    (hopen : round.inbox.closed = false) : .started a ∈ round.heard a ∨ .started a ∈ round.inbox.queue := by
  have hmem : .started a ∈ (s.portsOf round).notices a := by
    have htold : Told a round.inbox.closed ((s.portsOf round).notices a) c.hasStarted c.isHalted c.reader.isFinished :=
      hrep
    rw [hopen, hstarted] at htold
    exact htold.mem_started
  rw [notices_eq] at hmem
  exact (List.mem_append.1 hmem).imp_right fun h => (List.mem_filter.1 h).1

/-- The start of whoever has reported it has been passed on, or it is behind. -/
theorem sent_or_behind (hm : s.Mustered) (hp : s.Posted) (hr : s.Relayed) (hf : s.Forwarded) (hopen : ¬ s.IsLost)
    (hx : s.members[a]? = some x) (hstarted : x.attendant.hasStarted = true) :
    a ∈ s.outlets.attendantStarted.sent ∨ s.Behind a := by
  obtain ⟨round, hround, -, hrep⟩ := hp.joined a x hx
  by_cases hleft : round.registrar.hasLeft = true
  · -- what has not been passed on by then is dropped
    exact (Classical.em _).imp_right fun hs => .dropped hx hround hleft hs
  rw [Bool.not_eq_true] at hleft
  have hinbox : round.inbox.closed = false := by
    rw [(hm.rounds _ _ hround).closed, Bool.eq_false_iff]
    exact fun hshut => by simp [Registrar.hasLeft_of_hasShut hshut] at hleft
  have hpassed : s.Passed a → a ∈ s.outlets.attendantStarted.sent ∨ s.Behind a := fun h => .inl (h.resolve_left hopen)
  have hforwarded : ∀ {e}, .stopped a e ∈ round.heard a → s.Passed a :=
    fun hstop => hf a x round _ hx hround hstop hleft
  -- the registrar goes on, and how far it has come with the start says where the report is
  rcases heard_or_queued hrep hstarted hinbox with hheard | hqueued
  · have hfiled := hr.filed a x round hx hround
    generalize hns : round.heard a = ns, hg : round.registrar = g at hfiled hheard hforwarded hleft
    cases hfiled with
    | unheard _ _ _ _ => simp at hheard
    | entering _ _ _ => exact .inr (.inHand hx hround (.inl hg))
    | announcing _ _ => exact .inr (.inHand hx hround (.inr hg))
    | begun _ hs _ => exact hpassed (hs hleft)
    | erasing _ hs _ => exact hpassed hs
    | reporting _ _ hs _ => exact hpassed hs
    | ended e _ _ _ => exact hpassed (hforwarded (e := e) (by simp))
  · exact .inr (.queued hx hround hqueued)

theorem forwarded_of_build {b : Builder μ} (h : b.build = .ok s) : s.Forwarded := by
  obtain ⟨codec, config, rfl⟩ := eq_of_build h
  intro a x round e hx
  simp at hx

/-- The start of whoever has sent a message has been passed on, or it is behind. -/
theorem sent_or_behind_of_published (hm : s.Mustered) (hp : s.Posted) (hr : s.Relayed) (hf : s.Forwarded)
    (hopen : ¬ s.IsLost) (hc : s.Coursed)
    (hd : (∃ d ∈ s.outlets.messages.sent, d.attendant = a) ∨ ∃ d ∈ s.outlets.throttled.sent, d.attendant = a) :
    a ∈ s.outlets.attendantStarted.sent ∨ s.Behind a := by
  obtain ⟨x, hx⟩ : ∃ x, s.members[a]? = some x := by
    rcases hd with ⟨d, hd, rfl⟩ | ⟨d, hd, rfl⟩
    · exact hc.messages d hd
    · exact hc.throttled d hd
  obtain ⟨round, codec, throttle, writer, p, ms, hround, -, hdel, hdef, hcourse⟩ := hc.course a x hx
  refine sent_or_behind hm hp hr hf hopen hx (Attendant.hasStarted_of_course hdel hdef hcourse ?_)
  rcases hd with ⟨d, hd, hda⟩ | ⟨d, hd, hda⟩
  · exact .inl (List.ne_nil_of_mem (List.mem_filter.2 ⟨hd, by simp [hda]⟩))
  · exact .inr (List.ne_nil_of_mem (List.mem_filter.2 ⟨hd, by simp [hda]⟩))

end Server

namespace House

variable {h i : House μ} {m : Move} {ms : List Move} {past : List (List Event)} {a : AttendantId} {v : Event}

theorem forwarded_of_step (hstep : h.step m = some i) (ha : h.Accounted) (hf : h.server.Forwarded) :
    i.server.Forwarded := by
  rcases step_cases hstep with ⟨n, -, hs⟩ | ⟨o, heq, hd⟩
  · exact Server.forwarded_of_access (Server.access_of_step hs) ha.ordered.mustered ha.posted ha.relayed hf
  · rw [heq]
    exact Server.forwarded_of_drained hd hf

theorem forwarded_of_reaches {b : Builder μ} {s : Server μ} (hb : b.build = .ok s)
    (hr : Reaches { server := s } ms h) : h.server.Forwarded := by
  have hboth : h.Accounted ∧ h.server.Forwarded :=
    hr.preserves (P := fun h => h.Accounted ∧ h.server.Forwarded)
      (fun hstep hh => ⟨accounted_of_step hstep hh.1, forwarded_of_step hstep hh.1 hh.2⟩)
      ⟨accounted_of_build hb, Server.forwarded_of_build hb⟩
  exact hboth.2

/-- A funnel hands a message over that has been sent, and only when no start of an attendant is queued. -/
theorem sent_of_sender (hstep : h.step .scan = some i) (hnew : i.handed = h.handed ++ [v])
    (hv : v.sender? = some a) :
    h.server.outlets.attendantStarted.take? = none ∧
      ((∃ d ∈ h.server.outlets.messages.sent, d.attendant = a) ∨
        ∃ d ∈ h.server.outlets.throttled.sent, d.attendant = a) := by
  obtain ⟨f, g, hf, hg, -, -, hscans, -⟩ := scan_cases hstep
  cases hscans with
  | finished _ hg' => simp [handed, hf, hg, hg'] at hnew
  | told outlet e ht hbefore hg' =>
      obtain rfl : e = v := by simpa [handed, hf, hg, hg'] using hnew
      cases outlet with
      | messages =>
          simp only [Outlets.take?, Option.map_eq_some_iff, Prod.mk.injEq] at ht
          obtain ⟨⟨d, c⟩, ht, rfl, -⟩ := ht
          exact ⟨by simpa [Outlets.take?] using hbefore .attendantStarted (by decide),
            .inl ⟨d, Channel.mem_sent_of_take? ht, Option.some.inj hv⟩⟩
      | throttled =>
          simp only [Outlets.take?, Option.map_eq_some_iff, Prod.mk.injEq] at ht
          obtain ⟨⟨d, c⟩, ht, rfl, -⟩ := ht
          exact ⟨by simpa [Outlets.take?] using hbefore .attendantStarted (by decide),
            .inr ⟨d, Channel.mem_sent_of_take? ht, Option.some.inj hv⟩⟩
      | started | acceptFailed | attendantStarted | attendantStopped | stopped =>
          simp only [Outlets.take?, Option.map_eq_some_iff, Prod.mk.injEq] at ht
          obtain ⟨_, -, rfl, -⟩ := ht
          simp [Event.sender?] at hv

/-- When a funnel hands a message over, its handler or one before it has been told of the start of the attendant,
unless the report on the start is behind: in the inbox, in the hand of the registrar, or dropped by a registrar that
has been told to end. -/
theorem start_of_poured {b : Builder μ} {s : Server μ} (hb : b.build = .ok s) (hp : Poured { server := s } past h)
    (hstep : h.step .scan = some i) (hnew : i.handed = h.handed ++ [v]) (hv : v.sender? = some a) :
    (∃ status, .attendantStarted a status ∈ journal past h) ↔ ¬ h.server.Behind a := by
  have hr := recorded_of_poured hb hp
  obtain ⟨ms, hreaches⟩ := hp.reaches
  have ha : h.Accounted := accounted_of_reaches hreaches (accounted_of_build hb)
  have hforwarded := forwarded_of_reaches hb hreaches
  have hcoursed := coursed_of_reaches hb hreaches
  obtain ⟨hnone, hsent⟩ := sent_of_sender hstep hnew hv
  -- by now the handlers have been told of whatever start has been passed on
  rw [← Server.mem_starts_iff, hr.matched.starts, Channel.passed_of_take?_none hnone]
  refine ⟨fun hstarted hbehind => hbehind.not_sent ha.posted ha.relayed hstarted, fun hnot => ?_⟩
  have hopen : ¬ h.server.IsLost := fun hlost => by
    have hclosed : h.server.outlets.attendantStarted.closed = true := hlost
    simp [hr.heard] at hclosed
  exact (Server.sent_or_behind_of_published ha.ordered.mustered ha.posted ha.relayed hforwarded hopen hcoursed
    hsent).resolve_right hnot

/-- Settings with room for one report of each kind. -/
def single : Builder where
  codec := some (Codec.lines 80)
  config := { lifecycle := 1 }

/-- A server that has just been built with these settings, and its consumer. -/
def narrow : House Codec where
  server :=
    { codec := Codec.lines 80
      config := { lifecycle := 1 }
      outlets := .ofConfig { lifecycle := 1 } }

/-- Two clients connect.  The start of the first one's attendant takes up the room for reports, so that the registrar is
held up with the second one's, and a message of the second one's is sent.  Then a funnel is told of the opening and of
the first start. -/
def heldUp : List Move :=
  oneClient ++ arrival 1 ++ admission 1 ++ reflection ++ [.server (.attendant 1 twoLines)] ++
    List.replicate 3 (.server (.attendant 1 .proceed)) ++ [.scan, .handled, .scan, .handled]

theorem start_of_held_up :
    ∃ h i v, single.build = .ok narrow.server ∧ Poured narrow [[]] h ∧ h.step .scan = some i ∧
      i.handed = h.handed ++ [v] ∧ v.sender? = some 1 ∧ h.server.Behind 1 := by
  obtain ⟨h, hafter, hcheck⟩ := exists_of_run { narrow with funnel := some {} } heldUp
    (fun h => h.handed.filterMap Event.start? == [0] && (h.step .scan).any fun i =>
      (i.handed.drop h.handed.length).filterMap Event.sender? == [1])
    (by decide +kernel)
  simp only [Bool.and_eq_true, beq_iff_eq, Option.any_eq_true] at hcheck
  obtain ⟨hstarts, i, hstep, hsender⟩ := hcheck
  have hpoured : Poured narrow [[]] h :=
    poured_of_after (.pour .refl rfl) (List.all_eq_true.1 (by decide +kernel)) hafter
  obtain ⟨v, hnew⟩ : ∃ v, i.handed = h.handed ++ [v] := by
    rcases handed_of_scan hstep with heq | hnew
    · simp [heq] at hsender
    · exact hnew
  have hv : v.sender? = some 1 := by
    cases hs : v.sender? <;> simp_all
  have hcondition := start_of_poured (b := single) rfl hpoured hstep hnew hv
  have htold : ¬ ∃ status, .attendantStarted 1 status ∈ journal [[]] h := by
    rw [← Server.mem_starts_iff]
    simp [journal, hstarts]
  exact ⟨h, i, v, rfl, hpoured, hstep, hnew, hv, Classical.not_not.1 (mt hcondition.2 htold)⟩

/-- The message overtakes the start, of which the handler is told next. -/
theorem message_before_start :
    ∃ h xs d ys, single.build = .ok narrow.server ∧ Poured narrow [[]] h ∧
      journal [[]] h = xs ++ .message d :: ys ∧ (∀ status, .attendantStarted d.attendant status ∉ xs) ∧
      ∃ status, .attendantStarted d.attendant status ∈ ys := by
  obtain ⟨h, hafter, hcheck⟩ := exists_of_run { narrow with funnel := some {} }
    (heldUp ++ [.scan, .handled, register, register, .scan])
    (fun h => (h.handed.take 2).filterMap Event.start? == [0] && (h.handed[2]?.bind Event.delivery?).any
      (fun d => d.attendant == 1) && (h.handed.drop 3).filterMap Event.start? == [1])
    (by decide +kernel)
  simp only [Bool.and_eq_true, beq_iff_eq, Option.any_eq_true, Option.bind_eq_some_iff] at hcheck
  obtain ⟨⟨hbefore, d, ⟨v, hv, hd⟩, hone⟩, hafterwards⟩ := hcheck
  obtain rfl : v = .message d := by cases v <;> simp_all [Event.delivery?]
  have hpoured : Poured narrow [[]] h :=
    poured_of_after (.pour .refl rfl) (List.all_eq_true.1 (by decide +kernel)) hafter
  obtain ⟨hlt, hget⟩ := List.getElem?_eq_some_iff.1 hv
  have hjournal : journal [[]] h = h.handed.take 2 ++ .message d :: h.handed.drop 3 := by
    rw [← hget, ← List.drop_eq_getElem_cons hlt, List.take_append_drop]
    rfl
  refine ⟨h, _, d, _, rfl, hpoured, hjournal, fun status hstatus => ?_, Server.mem_starts_iff.1 ?_⟩
  · have hmem := Server.mem_starts_iff.2 ⟨status, hstatus⟩
    simp [hbefore, hone] at hmem
  · simp [hafterwards, hone]

end House
end Courier
