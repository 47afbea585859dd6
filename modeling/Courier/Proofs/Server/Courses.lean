import Courier.Proofs.Attendant.Publication
import Courier.Proofs.Server.Membership
import Courier.Proofs.Server.Reports

/-!
# Courses — members of a server as attendants among other tasks

What a server does to one of its members is a course of the attendant: its own moves, stops that others ask for, and the
use that the rest of the server and the consumer make of the channels that it reports on.  Whatever is so of every
course is therefore so of every member.

- `Attendant.foreign_of_access` — what one attendant does to the channels, as another one sees it,
- `Server.Feed`, `Server.feed_of_access` — where the messages on the channels of a server come from,
- `Server.course_of_access` — a move of the server is a course of each member,
- `House.coursed_of_reaches` — every member has gone through a course since it was made,
- `House.publication_of_reaches` — no member loses a message.
-/

namespace Courier

variable {μ : Type} [Marshaler μ]

/-! ## Other attendants -/

namespace Attendant

variable {id : AttendantId} {now : Nat} {a b : Attendant μ} {p q : Ports} {m : Move}

/-- An attendant reports on itself only. -/
theorem foreign_of_access {other : AttendantId} (h : Access id now a p m b q) (hne : id ≠ other) :
    p.Foreign other q := by
  cases h with
  | announce _ _ _ _ ho => exact .of_lifecycle (.of_offer? ho hne)
  | report _ _ _ ho => exact .of_lifecycle (.of_offer? ho hne)
  | deliver _ _ _ _ _ ho => exact .of_messages (.of_offer? ho hne)
  | defer _ _ _ _ _ _ _ ho => exact .of_throttled (.of_offer? ho hne)
  | _ => exact .refl _ _

end Attendant

namespace Server

variable {s t u : Server μ} {m : Move} {a b : AttendantId} {x y : Member μ} {r j : Nat} {round round' found new : Round}

/-! ## Where messages come from -/

/-- What a move does to the channels for messages. -/
inductive Feed (s t : Server μ) : Prop where
  | none (hm : t.outlets.messages = s.outlets.messages) (ht : t.outlets.throttled = s.outlets.throttled)
  | delivered {a : AttendantId} {x : Member μ} {rc : Marshaler.Receiver μ} {msg : Message} (hx : s.members[a]? = some x)
      (hr : x.attendant.reader = .publishing rc msg .none)
      (ho : s.outlets.messages.offer? ⟨a, msg⟩ = some t.outlets.messages)
      (ht : t.outlets.throttled = s.outlets.throttled)
  | deferred {a : AttendantId} {x : Member μ} {rc : Marshaler.Receiver μ} {msg : Message} {instant lapse : Nat}
      (hx : s.members[a]? = some x) (hr : x.attendant.reader = .publishing rc msg (some (instant, lapse)))
      (hm : t.outlets.messages = s.outlets.messages)
      (ho : s.outlets.throttled.offer? ⟨a, msg, instant, lapse⟩ = some t.outlets.throttled)

/-- Only a member that has a message in hand puts one on a channel. -/
theorem feed_of_access (h : Access s m t) : Feed s t := by
  -- neither a change of a round nor a stop comes near the channels
  have hround : ∀ {r : Nat} {f : Round → Round} {u : Server μ}, u.outlets = (s.setRound r f).outlets → Feed s u :=
    fun ho => .none (by rw [ho, outlets_setRound]) (by rw [ho, outlets_setRound])
  have hstop : ∀ {a : AttendantId} {u : Server μ}, u.outlets = (s.stopAttendant a).outlets → Feed s u :=
    fun ho => .none (by rw [ho, outlets_stopAttendant]) (by rw [ho, outlets_stopAttendant])
  cases h with
  | attendant a n x round b q hx hr hstep =>
      cases Attendant.access_of_step hstep with
      | deliver rc msg messages hrd _ ho => exact .delivered hx hrd ho rfl
      | defer rc msg instant lapse throttled hrd _ ho => exact .deferred hx hrd rfl ho
      | _ => exact .none rfl rfl
  | stopNext _ _ _ _ | turnAway _ _ _ _ _ _ | clearStart _ _ _ _ _ _ _ => exact hstop rfl
  | hire _ _ _ _ _ | dismiss _ _ _ _ => exact hround rfl
  | enter _ _ a _ _ _ =>
      have ho : (s.track a).outlets = s.outlets := outlets_track
      exact .none (congrArg Outlets.messages ho) (congrArg Outlets.throttled ho)
  | _ => exact .none rfl rfl

namespace Feed

/-- Messages are a member's. -/
theorem message (h : Feed s t) {d : Delivery} (hd : d ∈ t.outlets.messages.sent) :
    d ∈ s.outlets.messages.sent ∨ ∃ x, s.members[d.attendant]? = some x := by
  cases h with
  | none hm _ | deferred _ _ hm _ => exact .inl (hm ▸ hd)
  | delivered hx _ ho _ =>
      rcases Channel.mem_sent_of_offer? ho hd with hd | rfl
      · exact .inl hd
      · exact .inr ⟨_, hx⟩

theorem throttled (h : Feed s t) {d : Deferral} (hd : d ∈ t.outlets.throttled.sent) :
    d ∈ s.outlets.throttled.sent ∨ ∃ x, s.members[d.attendant]? = some x := by
  cases h with
  | none _ ht | delivered _ _ _ ht => exact .inl (ht ▸ hd)
  | deferred hx _ _ ho =>
      rcases Channel.mem_sent_of_offer? ho hd with hd | rfl
      · exact .inl hd
      · exact .inr ⟨_, hx⟩

end Feed

/-! ## The channels of a member -/

/-- Only one inbox changes. -/
theorem inbox_set {mine : Notice → Prop} (hj : s.rounds[j]? = some found) (hr : s.rounds[r]? = some round)
    (hr' : (s.rounds.set j new)[r]? = some round') (hnew : Channel.Foreign mine found.inbox new.inbox) :
    Channel.Foreign mine round.inbox round'.inbox := by
  obtain ⟨hlt, -⟩ := List.getElem?_eq_some_iff.1 hr
  by_cases hjr : j = r
  · subst hjr
    rw [List.getElem?_set_self hlt] at hr'
    obtain rfl := Option.some.inj hr'
    obtain rfl := Option.some.inj (hj.symm.trans hr)
    exact hnew
  · rw [List.getElem?_set_ne hjr, hr] at hr'
    obtain rfl := Option.some.inj hr'
    exact .refl _ _

theorem inbox_setRound {mine : Notice → Prop} {f : Round → Round} (hr : s.rounds[r]? = some round)
    (hr' : (s.setRound j f).rounds[r]? = some round') (hf : ∀ round, (f round).inbox = round.inbox) :
    Channel.Foreign mine round.inbox round'.inbox := by
  cases hj : s.rounds[j]? with
  | none =>
      rw [setRound_of_none hj, hr] at hr'
      obtain rfl := Option.some.inj hr'
      exact .refl _ _
  | some found =>
      rw [rounds_setRound hj] at hr'
      exact inbox_set hj hr hr' (hf found ▸ .refl _ _)

/-- A move that is not its own is foreign use of the channels of a member. -/
theorem foreign_of_access (h : Access s m t) (hm : ∀ n, m ≠ .attendant a n) (hr : s.rounds[r]? = some round)
    (hr' : t.rounds[r]? = some round') : (s.portsOf round).Foreign a (t.portsOf round') := by
  -- of moves that leave the channels for messages alone only the inbox has to be looked at
  have hquiet : ∀ {u : Server μ}, u.outlets.messages = s.outlets.messages → u.outlets.throttled = s.outlets.throttled →
      Channel.Foreign (fun n : Notice => n.attendant = a) round.inbox round'.inbox →
      (s.portsOf round).Foreign a (u.portsOf round') := by
    intro u hm ht hi
    refine ⟨hi, ?_, ?_⟩
    · simpa only [portsOf, hm] using .refl _ _
    · simpa only [portsOf, ht] using .refl _ _
  have hsame : s.rounds[r]? = some round' → Channel.Foreign (fun n : Notice => n.attendant = a) round.inbox
      round'.inbox := by
    intro hr'
    obtain rfl := Option.some.inj (hr.symm.trans hr')
    exact .refl _ _
  have hstop : ∀ {b : AttendantId}, (s.stopAttendant b).outlets = s.outlets := outlets_stopAttendant
  cases h with
  | attendant b n x found c q hx hj hstep =>
      have hne : b ≠ a := by
        rintro rfl
        exact hm n rfl
      have hown := Attendant.foreign_of_access (Attendant.access_of_step hstep) hne
      exact ⟨inbox_set hj hr hr' hown.lifecycle, hown.messages, hown.throttled⟩
  | openRound k _ p _ =>
      obtain ⟨hlt, -⟩ := List.getElem?_eq_some_iff.1 hr
      have hold : (s.rounds ++ [Round.fresh])[r]? = some round' := hr'
      rw [List.getElem?_append_left hlt] at hold
      exact hquiet rfl rfl (hsame hold)
  | hire _ _ _ _ _ | dismiss _ _ _ _ =>
      exact hquiet (congrArg _ outlets_setRound) (congrArg _ outlets_setRound) (inbox_setRound hr hr' fun _ => rfl)
  | poise _ _ found _ hj _ _ _ | heed _ found hj _ _ | erase _ found _ _ hj _ | retireRegistrar _ found hj _ _
  | announce _ found _ _ hj _ _ _
  | report _ found _ _ _ hj _ _ _ =>
      exact hquiet rfl rfl (inbox_set hj hr hr' (.refl _ _))
  | takeStart _ found _ _ hj _ _ ht | takeEnd _ found _ _ _ hj _ _ ht | clearEnd _ found _ _ _ hj _ ht =>
      exact hquiet rfl rfl (inbox_set hj hr hr' (.of_take? ht))
  | shut _ found hj _ => exact hquiet rfl rfl (inbox_set hj hr hr' .of_close)
  | turnAway _ found _ hj _ _ =>
      simp only [setRegister, rounds_stopAttendant] at hr'
      exact hquiet (congrArg _ hstop) (congrArg _ hstop) (inbox_set hj hr hr' (.refl _ _))
  | clearStart _ found _ inbox hj _ ht =>
      simp only [setRegister, rounds_stopAttendant] at hr'
      exact hquiet (congrArg _ hstop) (congrArg _ hstop) (inbox_set hj hr hr' (.of_take? ht))
  | enter _ found _ hj _ _ =>
      simp only [setRegister, rounds_track] at hr'
      exact hquiet (congrArg _ outlets_track) (congrArg _ outlets_track) (inbox_set hj hr hr' (.refl _ _))
  | stopNext _ _ _ _ => exact hquiet (congrArg _ hstop) (congrArg _ hstop) (hsame (rounds_stopAttendant (s := s) ▸ hr'))
  | _ => exact hquiet rfl rfl (hsame hr')

/-- A move of the server is a course of each of its members. -/
theorem course_of_access (h : Access s m t) (hx : s.members[a]? = some x) (hr : s.rounds[x.round]? = some round) :
    ∃ y round' ms, t.members[a]? = some y ∧ y.round = x.round ∧ t.rounds[x.round]? = some round' ∧
      Course a x.attendant (s.portsOf round) ms y.attendant (t.portsOf round') := by
  obtain ⟨y, hy, hyr, hkeep⟩ := member_persists h hx
  obtain ⟨round', hr', -⟩ := (relay_of_access h).round_to hr
  by_cases hown : ∃ n, m = .attendant a n
  · -- the move is the member's own
    obtain ⟨n, rfl⟩ := hown
    cases h with
    | attendant _ _ x' found b q hx' hj hstep =>
        obtain rfl := Option.some.inj (hx.symm.trans hx')
        obtain rfl := Option.some.inj (hr.symm.trans hj)
        obtain ⟨hlt, -⟩ := List.getElem?_eq_some_iff.1 hx
        obtain ⟨hlt', -⟩ := List.getElem?_eq_some_iff.1 hr
        exact ⟨{ x with attendant := b }, { round with inbox := q.lifecycle }, [n], List.getElem?_set_self hlt, rfl,
          List.getElem?_set_self hlt', .single hstep⟩
    | refuseStop _ _ hm _ | beginStop _ _ _ hm _ | poise _ _ _ _ _ hm _ _ => simp at hm
  · -- others use its channels, and at most begin to stop it
    have hforeign := foreign_of_access h (fun n hn => hown ⟨n, hn⟩) hr hr'
    cases hkeep with
    | same heq => exact ⟨y, round', [], hy, hyr, hr', heq ▸ .others hforeign (.refl _ _)⟩
    | stopped heq =>
        have hstop : x.attendant.step a 0 (t.portsOf round') .stop = some (y.attendant, t.portsOf round') := by
          rw [heq]
          rfl
        exact ⟨y, round', [.stop], hy, hyr, hr', .others hforeign (.single hstop)⟩
    | moved n _ _ hm _ _ _ => exact absurd ⟨n, hm⟩ hown

/-- Every member has gone through a course, on channels on which it had not reported anything before. -/
structure Coursed (s : Server μ) : Prop where
  messages : ∀ d ∈ s.outlets.messages.sent, ∃ x, s.members[d.attendant]? = some x
  throttled : ∀ d ∈ s.outlets.throttled.sent, ∃ x, s.members[d.attendant]? = some x
  course : ∀ (a : AttendantId) x, s.members[a]? = some x → ∃ round codec throttle writer p ms,
    s.rounds[x.round]? = some round ∧ p.notices a = [] ∧ p.deliveries a = [] ∧ p.deferrals a = [] ∧
      Course a (.create codec throttle writer) p ms x.attendant (s.portsOf round)

theorem coursed_of_access (h : Access s m t) (hm : s.Mustered) (hp : s.Posted) (hc : s.Coursed) : t.Coursed where
  messages := by
    intro d hd
    obtain ⟨x, hx⟩ : ∃ x, s.members[d.attendant]? = some x :=
      ((feed_of_access h).message hd).elim (hc.messages d) id
    obtain ⟨y, hy, -⟩ := member_persists h hx
    exact ⟨y, hy⟩
  throttled := by
    intro d hd
    obtain ⟨x, hx⟩ : ∃ x, s.members[d.attendant]? = some x :=
      ((feed_of_access h).throttled hd).elim (hc.throttled d) id
    obtain ⟨y, hy, -⟩ := member_persists h hx
    exact ⟨y, hy⟩
  course := by
    intro a y hy
    rcases member_of_access h hy with ⟨x, hx, -⟩ | ⟨k, peer, r, hd, rfl, rfl, rfl⟩
    · obtain ⟨round, codec, throttle, writer, p, ms, hr, hn, hdel, hdef, hcourse⟩ := hc.course a x hx
      obtain ⟨y', round', ns, hy', hyr, hr', hcourse'⟩ := course_of_access h hx hr
      obtain rfl := Option.some.inj (hy.symm.trans hy')
      exact ⟨round', codec, throttle, writer, p, ms ++ ns, hyr ▸ hr', hn, hdel, hdef, hcourse.trans hcourse'⟩
    · -- nobody has reported anything on an attendant that has just been made
      obtain ⟨round, hr, -⟩ := round_of_founding hm.lawful hd
      have hstart : ∀ c : Attendant μ, c.step s.members.length 0 (s.portsOf round) .start =
          some (c.beginStart, s.portsOf round) := fun _ => rfl
      refine ⟨round, s.codec, s.config.throttle, s.config.writer, s.portsOf round, [.start], hr, ?_,
        filter_newcomer hc.messages, filter_newcomer hc.throttled, .single (hstart _)⟩
      exact filter_newcomer fun n hn => (hp.origin r round n hr hn).imp fun _ hx => hx.1

theorem coursed_of_build {b : Builder μ} (h : b.build = .ok s) : s.Coursed := by
  obtain ⟨codec, config, rfl⟩ := eq_of_build h
  exact ⟨by simp [Outlets.ofConfig], by simp [Outlets.ofConfig], by simp⟩

/-- The consumer takes messages, and puts none in. -/
theorem foreign_of_drained {o : Outlets} (h : s.outlets.Drained o) :
    (s.portsOf round).Foreign a (({ s with outlets := o } : Server μ).portsOf round) :=
  ⟨.refl _ _, .of_consumer h.messages.sent h.messages.closed, .of_consumer h.throttled.sent h.throttled.closed⟩

theorem coursed_of_drained {o : Outlets} (h : s.outlets.Drained o) (hc : s.Coursed) :
    ({ s with outlets := o } : Server μ).Coursed where
  messages := fun d hd => hc.messages d (h.messages.sent ▸ hd)
  throttled := fun d hd => hc.throttled d (h.throttled.sent ▸ hd)
  course := by
    intro a x hx
    obtain ⟨round, codec, throttle, writer, p, ms, hr, hn, hdel, hdef, hcourse⟩ := hc.course a x hx
    have hlater := hcourse.trans (.others (foreign_of_drained h) (.refl _ _))
    exact ⟨round, codec, throttle, writer, p, _, hr, hn, hdel, hdef, hlater⟩

end Server

namespace House

open Attendant (create)

variable {h i : House μ} {m : Move} {ms : List Move}

theorem coursed_of_step (hstep : h.step m = some i) (ha : h.Accounted) (hc : h.server.Coursed) :
    i.server.Coursed := by
  rcases step_cases hstep with ⟨n, -, hs⟩ | ⟨o, heq, hd⟩
  · exact Server.coursed_of_access (Server.access_of_step hs) ha.ordered.mustered ha.posted hc
  · rw [heq]
    exact Server.coursed_of_drained hd hc

theorem coursed_of_reaches {b : Builder μ} {s : Server μ} (hb : b.build = .ok s)
    (hr : Reaches { server := s } ms h) : h.server.Coursed := by
  have hboth : h.Accounted ∧ h.server.Coursed :=
    hr.preserves (P := fun h => h.Accounted ∧ h.server.Coursed)
      (fun hstep hh => ⟨accounted_of_step hstep hh.1, coursed_of_step hstep hh.1 hh.2⟩)
      ⟨accounted_of_build hb, Server.coursed_of_build hb⟩
  exact hboth.2

/-- An attendant that reports on channels which it shares with others, one of its own or a member of a server, loses no
message while somebody receives. -/
theorem publication_of_reaches :
    (∀ (id : AttendantId) (codec : μ) throttle writer (p : Ports) ns a q, p.deliveries id = [] → p.deferrals id = [] →
      Course id (create codec throttle writer) p ns a q → q.messages.closed = false →
      q.throttled.closed = false → a.Publishes id q) ∧
    (∀ (b : Builder μ) s ms h (a : AttendantId) x, b.build = .ok s → Reaches { server := s } ms h →
      h.server.members[a]? = some x → h.server.outlets.messages.closed = false →
      h.server.outlets.throttled.closed = false →
      ∃ round, h.server.rounds[x.round]? = some round ∧ x.attendant.Publishes a (h.server.portsOf round)) := by
  refine ⟨fun id codec throttle writer p ns a q hd ht hcourse hm ht' => ?_,
    fun b s ms h a x hb hr hx hm ht => ?_⟩
  · exact Attendant.publishes_of_course hd ht hcourse hm ht'
  · obtain ⟨round, codec, throttle, writer, p, ns, hround, -, hdel, hdef, hcourse⟩ :=
      (coursed_of_reaches hb hr).course a x hx
    exact ⟨round, hround, Attendant.publishes_of_course hdel hdef hcourse hm ht⟩

/-- The stream yields two messages at once. -/
def twoLines : Attendant.Move :=
  .read (.data [91, 34, 65, 34, 93, 10, 91, 34, 66, 34, 93, 10])

/-- An attendant receives two messages; there is room for one of them, and a stop comes while the other one waits. -/
def interrupted : List Attendant.Move :=
  [.start, .advance 0, .advance 0, .advance 0, twoLines, .proceed, .proceed, .proceed, .proceed, .proceed, .stop,
    .advance 1, .quit]

/-- Two clients connect, and each sends two messages, of which the second client's attendant has one in hand. -/
def twoWriters : List Move :=
  oneClient ++ arrival 1 ++ admission 1 ++
    [.server (.attendant 0 twoLines), .server (.attendant 1 twoLines)] ++
    List.replicate 6 (.server (.attendant 0 .proceed)) ++ List.replicate 5 (.server (.attendant 1 .proceed))

theorem publication_of_two_writers :
    (∃ a q, Attendant.after 0 0 (create (Codec.lines 80) 0 8) ⟨{ capacity := 1 }, { capacity := 1 }, { capacity := 1 }⟩
        interrupted = some (a, q) ∧ (q.deliveries 0).map (·.message.command) = ["A"] ∧
      a.received.map (·.command) = ["A", "B"] ∧ a.Publishes 0 q) ∧
    (∃ h x round, fresh.after twoWriters = some h ∧ h.server.members[1]? = some x ∧
      h.server.outlets.messages.sent.map (fun d => (d.attendant, d.message.command)) = [(0, "A"), (0, "B"), (1, "A")] ∧
      x.attendant.Publishes 1 (h.server.portsOf round)) := by
  refine ⟨?_, ?_⟩
  · obtain ⟨⟨a, q⟩, hafter, hcheck⟩ := (Option.any_eq_true (fun (r : Attendant Codec × Ports) =>
        (r.2.deliveries 0).map (·.message.command) == ["A"] && r.1.received.map (·.command) == ["A", "B"] &&
          !r.2.messages.closed && !r.2.throttled.closed)
        (Attendant.after 0 0 (create (Codec.lines 80) 0 8) ⟨{ capacity := 1 }, { capacity := 1 }, { capacity := 1 }⟩
          interrupted)).1 (by decide +kernel)
    simp only [Bool.and_eq_true, beq_iff_eq, Bool.not_eq_true'] at hcheck
    obtain ⟨⟨⟨hdelivered, hreceived⟩, hm⟩, ht⟩ := hcheck
    exact ⟨a, q, hafter, hdelivered, hreceived,
      publication_of_reaches.1 0 (Codec.lines 80) 0 8 _ _ a q rfl rfl (Course.of_after hafter) hm ht⟩
  · obtain ⟨h, hafter, hcheck⟩ := exists_of_run fresh twoWriters
      (fun h => h.server.members[1]?.isSome && !h.server.outlets.messages.closed &&
        !h.server.outlets.throttled.closed && h.server.outlets.messages.sent.map
          (fun d => (d.attendant, d.message.command)) == [(0, "A"), (0, "B"), (1, "A")])
      (by decide +kernel)
    simp only [Bool.and_eq_true, beq_iff_eq, Bool.not_eq_true', Option.isSome_iff_exists] at hcheck
    obtain ⟨⟨⟨⟨x, hx⟩, hm⟩, ht⟩, hsent⟩ := hcheck
    obtain ⟨round, -, hpublishes⟩ :=
      publication_of_reaches.2 twofold fresh.server _ h 1 x rfl (reaches_of_after hafter) hx hm ht
    exact ⟨h, x, round, hafter, hx, hsent, hpublishes⟩

end House
end Courier
