import Courier.Proofs.Attendant.Funnel
import Courier.Proofs.Server.Courses

/-!
# Journal — what the handler of a funnel is told

A funnel looks through the channels of a server in a fixed order and tells its handler of the first event at hand.  The
end of an attendant is the last thing that is told of it: by the time its report is passed on, all that the attendant
had to say is on channels that come before.

- `Outlets.Matches` — the handler has been told of what has been taken off the channels, in order,
- `House.Poured` — runs of a server whose events go to funnels,
- `Server.Concluded` — what the handler has been told of an attendant whose end it is told of,
- `House.Recorded`, `House.recorded_of_poured` — this is so of every end that is told of,
- `House.order_of_poured` — ends of attendants, and the end of a funnel.
-/

namespace Courier

variable {μ : Type} [Marshaler μ]

namespace Outlets

variable {o p : Outlets} {status : AttendantId → Status} {e : Event} {outlet : Outlet} {js : List Event}

/-- The handler has been told of what has been taken off the channels about attendants. -/
structure Matches (o : Outlets) (js : List Event) : Prop where
  starts : js.filterMap Event.start? = o.attendantStarted.passed
  deliveries : js.filterMap Event.delivery? = o.messages.passed
  deferrals : js.filterMap Event.deferral? = o.throttled.passed
  endings : js.filterMap Event.ending? = o.attendantStopped.passed

/-- No more has been taken off these channels than has been put in. -/
structure Bounded (o : Outlets) : Prop where
  starts : o.attendantStarted.taken ≤ o.attendantStarted.sent.length
  deliveries : o.messages.taken ≤ o.messages.sent.length
  deferrals : o.throttled.taken ≤ o.throttled.sent.length
  endings : o.attendantStopped.taken ≤ o.attendantStopped.sent.length

/-- The handler is told of what is taken. -/
theorem matches_of_take? (h : o.take? status outlet = some (e, p)) (hm : o.Matches js) : p.Matches (js ++ [e]) := by
  cases outlet with
  | started | acceptFailed | stopped =>
      simp only [take?, Option.map_eq_some_iff, Prod.mk.injEq] at h
      obtain ⟨⟨_, c⟩, -, rfl, rfl⟩ := h
      refine ⟨?_, ?_, ?_, ?_⟩ <;> rw [List.filterMap_append] <;>
        simp [Event.start?, Event.delivery?, Event.deferral?, Event.ending?, hm.starts, hm.deliveries, hm.deferrals,
          hm.endings]
  | attendantStarted | messages | throttled | attendantStopped =>
      simp only [take?, Option.map_eq_some_iff, Prod.mk.injEq] at h
      obtain ⟨⟨_, c⟩, ht, rfl, rfl⟩ := h
      refine ⟨?_, ?_, ?_, ?_⟩ <;> rw [List.filterMap_append] <;>
        simp [Event.start?, Event.delivery?, Event.deferral?, Event.ending?, hm.starts, hm.deliveries, hm.deferrals,
          hm.endings, Channel.passed_of_take? ht]

/-- Taking an event does not give a receiving end up. -/
theorem heard_of_take? (h : o.take? status outlet = some (e, p)) :
    p.attendantStarted.closed = o.attendantStarted.closed := by
  cases outlet <;> simp only [take?, Option.map_eq_some_iff, Prod.mk.injEq] at h <;> obtain ⟨_, ht, -, rfl⟩ := h
  case attendantStarted => exact Channel.closed_of_take? ht
  all_goals rfl

/-- An end of an attendant is taken off its channel. -/
theorem outlet_of_end {a : AttendantId} {n : Ending} (h : o.take? status outlet = some (.attendantStopped a n, p)) :
    outlet = .attendantStopped := by
  cases outlet <;> simp [take?] at h ⊢

theorem bounded_of_take? (h : o.take? status outlet = some (e, p)) (hb : o.Bounded) : p.Bounded := by
  cases outlet with
  | started | acceptFailed | stopped =>
      simp only [take?, Option.map_eq_some_iff, Prod.mk.injEq] at h
      obtain ⟨_, -, -, rfl⟩ := h
      exact ⟨hb.starts, hb.deliveries, hb.deferrals, hb.endings⟩
  | attendantStarted =>
      simp only [take?, Option.map_eq_some_iff, Prod.mk.injEq] at h
      obtain ⟨_, ht, -, rfl⟩ := h
      exact ⟨Channel.taken_of_take? ht, hb.deliveries, hb.deferrals, hb.endings⟩
  | messages =>
      simp only [take?, Option.map_eq_some_iff, Prod.mk.injEq] at h
      obtain ⟨_, ht, -, rfl⟩ := h
      exact ⟨hb.starts, Channel.taken_of_take? ht, hb.deferrals, hb.endings⟩
  | throttled =>
      simp only [take?, Option.map_eq_some_iff, Prod.mk.injEq] at h
      obtain ⟨_, ht, -, rfl⟩ := h
      exact ⟨hb.starts, hb.deliveries, Channel.taken_of_take? ht, hb.endings⟩
  | attendantStopped =>
      simp only [take?, Option.map_eq_some_iff, Prod.mk.injEq] at h
      obtain ⟨_, ht, -, rfl⟩ := h
      exact ⟨hb.starts, hb.deliveries, hb.deferrals, Channel.taken_of_take? ht⟩

end Outlets

/-! ## One look through the channels -/

namespace Server.Funnel

variable {f g : Funnel} {o p : Outlets} {status : AttendantId → Status} {ended : Bool}

/-- What a look through the channels comes to: the first event at hand is told of, or there is none and the funnel is
over. -/
inductive Scans (f g : Funnel) (status : AttendantId → Status) (o p : Outlets) : Prop where
  | told (outlet : Outlet) (e : Event) (ht : o.take? status outlet = some (e, p))
      (hbefore : ∀ x ∈ Outlet.all.takeWhile (· != outlet), o.take? status x = none)
      (hg : g = { finished := outlet == .stopped, busy := true, calls := f.calls ++ [e] })
  | finished (ho : p = o) (hg : g = { f with finished := true })

/-- Only the last channel tells of the end. -/
theorem stopped_of_take? {outlet : Outlet} {e : Event} (h : o.take? status outlet = some (e, p)) :
    e = .stopped ↔ outlet = .stopped := by
  cases outlet <;> simp only [Outlets.take?, Option.map_eq_some_iff, Prod.mk.injEq] at h <;>
    obtain ⟨_, -, rfl, -⟩ := h <;> simp

/-- What comes before the first occurrence is in front of any occurrence. -/
theorem mem_of_takeWhile {α : Type} [DecidableEq α] {xs ys zs : List α} {a x : α} (h : xs = ys ++ a :: zs)
    (hx : x ∈ xs.takeWhile (· != a)) : x ∈ ys := by
  rw [h, List.takeWhile_append] at hx
  split at hx
  · simpa using hx
  · exact (List.takeWhile_sublist _).subset hx

theorem scans_of_scan (h : f.scan status ended o = some (g, p)) :
    f.busy = false ∧ f.finished = false ∧ Scans f g status o p := by
  unfold scan at h
  split at h
  · simp at h
  · next hfree =>
    obtain ⟨hbusy, hfinished⟩ : f.busy = false ∧ f.finished = false := by simpa using hfree
    refine ⟨hbusy, hfinished, ?_⟩
    split at h
    · next hfind =>
      obtain ⟨before, outlet, after, hall, ht, hbefore⟩ := List.findSome?_eq_some_iff.1 hfind
      -- the end is told of by the last channel, behind all others
      obtain rfl := (stopped_of_take? ht).1 rfl
      simp only [Option.some.injEq, Prod.mk.injEq] at h
      obtain ⟨rfl, rfl⟩ := h
      exact .told .stopped .stopped ht (fun x hx => hbefore x (mem_of_takeWhile hall hx)) rfl
    · next e o' hne hfind =>
      obtain ⟨before, outlet, after, hall, ht, hbefore⟩ := List.findSome?_eq_some_iff.1 hfind
      simp only [Option.some.injEq, Prod.mk.injEq] at h
      obtain ⟨rfl, rfl⟩ := h
      refine .told outlet e ht (fun x hx => hbefore x (mem_of_takeWhile hall hx)) ?_
      have hlast : outlet ≠ .stopped := fun heq => hne ((stopped_of_take? ht).2 heq)
      simp [hfinished, hlast]
    · simp only [Option.ite_none_right_eq_some, Option.some.injEq, Prod.mk.injEq] at h
      obtain ⟨-, rfl, rfl⟩ := h
      exact .finished rfl rfl

end Server.Funnel

namespace Server

variable {s t : Server μ} {m : Move} {a : AttendantId} {x : Member μ} {xs ys : List Event} {js : List Event} {v : Event}

/-! ## What the server does to the channels -/

/-- A move of the server at most puts values into the channels that tell of attendants. -/
structure Feeds (s t : Server μ) : Prop where
  starts : s.outlets.attendantStarted.Fed t.outlets.attendantStarted
  deliveries : s.outlets.messages.Fed t.outlets.messages
  deferrals : s.outlets.throttled.Fed t.outlets.throttled
  endings : s.outlets.attendantStopped.Fed t.outlets.attendantStopped

theorem feeds_of_access (h : Access s m t) : Feeds s t := by
  have hstarts : s.outlets.attendantStarted.Fed t.outlets.attendantStarted ∧
      s.outlets.attendantStopped.Fed t.outlets.attendantStopped := by
    cases effect_of_relay (relay_of_access h) with
    | nothing hu => exact ⟨.inl hu.started, .inl hu.stopped⟩
    | emptied _ hs he | entered _ _ _ _ hs he | erased _ _ _ hs he => exact ⟨.inl hs, .inl he⟩
    | announced _ _ _ ho _ he => exact ⟨.inr ⟨_, ho⟩, .inl he⟩
    | reported _ _ _ ho _ hs => exact ⟨.inl hs, .inr ⟨_, ho⟩⟩
  have hmessages : s.outlets.messages.Fed t.outlets.messages ∧ s.outlets.throttled.Fed t.outlets.throttled := by
    cases feed_of_access h with
    | none hm ht => exact ⟨.inl hm, .inl ht⟩
    | delivered _ _ ho ht => exact ⟨.inr ⟨_, ho⟩, .inl ht⟩
    | deferred _ _ hm ho => exact ⟨.inl hm, .inr ⟨_, ho⟩⟩
  exact ⟨hstarts.1, hmessages.1, hmessages.2, hstarts.2⟩

theorem Feeds.matches (h : Feeds s t) (hb : s.outlets.Bounded) (hm : s.outlets.Matches js) : t.outlets.Matches js where
  starts := hm.starts.trans (h.starts.passed hb.starts).symm
  deliveries := hm.deliveries.trans (h.deliveries.passed hb.deliveries).symm
  deferrals := hm.deferrals.trans (h.deferrals.passed hb.deferrals).symm
  endings := hm.endings.trans (h.endings.passed hb.endings).symm

theorem Feeds.bounded (h : Feeds s t) (hb : s.outlets.Bounded) : t.outlets.Bounded :=
  ⟨h.starts.taken hb.starts, h.deliveries.taken hb.deliveries, h.deferrals.taken hb.deferrals,
    h.endings.taken hb.endings⟩

/-! ## Attendants that have come to their ends -/

/-- The read loop of an attendant whose end has been passed on is over. -/
theorem finished_of_hasEnded (hr : s.Relayed) (hp : s.Posted) (ha : s.HasEnded a) :
    ∃ x, s.members[a]? = some x ∧ x.attendant.reader = .finished := by
  obtain ⟨x, round, hx, hround, hf⟩ := hr.filed_of_known hp (.inr (.inr ha))
  refine ⟨x, hx, ?_⟩
  obtain ⟨round', hround', -, hrep⟩ := hp.joined a x hx
  obtain rfl := Option.some.inj (hround.symm.trans hround')
  have hnotices := notices_eq s round a
  unfold Attendant.Reported at hrep
  generalize hheard : round.heard a = ns, round.registrar = g at hf
  rw [hnotices, hheard] at hrep
  cases hf with
  | ended e _ _ _ =>
      have hmem : .stopped a e ∈
          [.started a, .stopped a e] ++ round.inbox.queue.filter fun n => decide (n.attendant = a) := by simp
      have hfinished := hrep.finished_of_mem hmem
      cases hreader : x.attendant.reader <;> simp_all [Reader.isFinished]
  | unheard _ _ _ he | entering _ _ he | announcing _ he | begun _ _ he | erasing _ _ he
  | reporting _ _ _ he => exact absurd ha he

/-- The messages of an attendant on both channels. -/
structure Mute (s t : Server μ) (a : AttendantId) : Prop where
  deliveries : t.outlets.messages.sent.filter (fun d => decide (d.attendant = a)) =
    s.outlets.messages.sent.filter (fun d => decide (d.attendant = a))
  deferrals : t.outlets.throttled.sent.filter (fun d => decide (d.attendant = a)) =
    s.outlets.throttled.sent.filter (fun d => decide (d.attendant = a))

/-- An attendant whose end has been passed on sends no message any more. -/
theorem mute_of_hasEnded (h : Access s m t) (hr : s.Relayed) (hp : s.Posted) (ha : s.HasEnded a) : Mute s t a := by
  obtain ⟨x, hx, hfinished⟩ := finished_of_hasEnded hr hp ha
  have hother : ∀ {b : AttendantId} {y : Member μ} {rc msg refusal}, s.members[b]? = some y →
      y.attendant.reader = .publishing rc msg refusal → b ≠ a := by
    rintro b y rc msg refusal hy hpub rfl
    obtain rfl := Option.some.inj (hx.symm.trans hy)
    simp [hfinished] at hpub
  cases feed_of_access h with
  | none hm ht => exact ⟨by rw [hm], by rw [ht]⟩
  | delivered hy hpub ho ht =>
      have hforeign : Channel.Foreign (fun d : Delivery => d.attendant = a) s.outlets.messages t.outlets.messages :=
        .of_offer? ho (hother hy hpub)
      exact ⟨hforeign.filter_sent, by rw [ht]⟩
  | deferred hy hpub hm ho =>
      have hforeign : Channel.Foreign (fun d : Deferral => d.attendant = a) s.outlets.throttled t.outlets.throttled :=
        .of_offer? ho (hother hy hpub)
      exact ⟨by rw [hm], hforeign.filter_sent⟩

/-! ## What is told of an attendant -/

/-- Between `xs` and `ys` the handler is told of the end of attendant `a`. -/
structure Concluded (s : Server μ) (a : AttendantId) (xs ys : List Event) : Prop where
  /-- It has been told of the start. -/
  started : ∃ status, .attendantStarted a status ∈ xs
  /-- It has been given each message that the attendant has sent, once and in order. -/
  deliveries : (xs.filterMap Event.delivery?).filter (fun d => decide (d.attendant = a)) =
    s.outlets.messages.sent.filter (fun d => decide (d.attendant = a))
  deferrals : (xs.filterMap Event.deferral?).filter (fun d => decide (d.attendant = a)) =
    s.outlets.throttled.sent.filter (fun d => decide (d.attendant = a))
  /-- It is told nothing of the attendant any more. -/
  silent : ∀ e ∈ ys, e.attendant? ≠ some a

theorem Concluded.mute (h : s.Concluded a xs ys) (hm : Mute s t a) : t.Concluded a xs ys :=
  ⟨h.started, h.deliveries.trans hm.deliveries.symm, h.deferrals.trans hm.deferrals.symm, h.silent⟩

theorem mem_starts_iff : a ∈ xs.filterMap Event.start? ↔ ∃ status, .attendantStarted a status ∈ xs := by
  constructor
  · intro h
    obtain ⟨e, he, hstart⟩ := List.mem_filterMap.1 h
    cases e <;> simp_all [Event.start?]
    exact ⟨_, he⟩
  · rintro ⟨status, h⟩
    exact List.mem_filterMap.2 ⟨_, h, rfl⟩

/-- Whoever's end has been told of has come to it. -/
theorem hasEnded_of_told {e : Ending} (hm : s.outlets.Matches js) (he : .attendantStopped a e ∈ js) : s.HasEnded a := by
  have htold : (a, e) ∈ js.filterMap Event.ending? := List.mem_filterMap.2 ⟨_, he, rfl⟩
  rw [hm.endings] at htold
  exact List.mem_map.2 ⟨_, Channel.mem_sent_of_mem_passed htold, rfl⟩

/-- No more of the messages of one attendant is given to the handler than there is. -/
theorem filter_rest_eq_nil {α : Type} {c : Channel α} {f : α → Bool} {given rest : List α}
    (hp : given ++ rest = c.passed) (hall : given.filter f = c.sent.filter f) : rest.filter f = [] := by
  have hfront : (given ++ rest).filter f <+: c.sent.filter f := (hp ▸ Channel.passed_front c).filter f
  have hlength := hfront.length_le
  rw [List.filter_append, List.length_append, hall] at hlength
  exact List.eq_nil_of_length_eq_zero (by omega)

/-- What the handler is told next is not about an attendant whose end it has been told of. -/
theorem Concluded.next {e : Ending} (h : s.Concluded a xs ys) (hr : s.Relayed)
    (hm : s.outlets.Matches (xs ++ .attendantStopped a e :: ys ++ [v])) : v.attendant? ≠ some a := by
  intro hv
  cases v with
  | attendantStarted b status =>
      obtain rfl := Option.some.inj hv
      -- the start would have been passed on twice
      have hnodup := hr.started.sublist (Channel.passed_front _).sublist
      rw [← hm.starts, List.filterMap_append, List.filterMap_append] at hnodup
      have hmem : b ∈ xs.filterMap Event.start? := mem_starts_iff.2 h.started
      have hdisjoint := (List.nodup_append.1 hnodup).2.2 b (List.mem_append_left _ hmem) b
      simp [Event.start?] at hdisjoint
  | attendantStopped b e' =>
      obtain rfl := Option.some.inj hv
      have hnodup := hr.ended.sublist ((Channel.passed_front s.outlets.attendantStopped).map Prod.fst).sublist
      rw [← hm.endings, List.append_assoc, List.filterMap_append, List.map_append] at hnodup
      have hlater := (List.nodup_append.1 hnodup).2.1
      simp [Event.ending?] at hlater
  | message d =>
      obtain rfl := Option.some.inj hv
      have hp := hm.deliveries
      rw [List.append_assoc, List.filterMap_append] at hp
      have hlater : d ∈ (Event.attendantStopped d.attendant e :: ys ++ [Event.message d]).filterMap Event.delivery? :=
        List.mem_filterMap.2 ⟨.message d, by simp, rfl⟩
      exact List.filter_eq_nil_iff.1 (filter_rest_eq_nil hp h.deliveries) d hlater (by simp)
  | throttled d =>
      obtain rfl := Option.some.inj hv
      have hp := hm.deferrals
      rw [List.append_assoc, List.filterMap_append] at hp
      have hlater : d ∈ (Event.attendantStopped d.attendant e :: ys ++ [Event.throttled d]).filterMap Event.deferral? :=
        List.mem_filterMap.2 ⟨.throttled d, by simp, rfl⟩
      exact List.filter_eq_nil_iff.1 (filter_rest_eq_nil hp h.deferrals) d hlater (by simp)
  | started _ | acceptFailed _ | stopped => simp [Event.attendant?] at hv

/-- When the handler is told of an end, all that the attendant had to say has been taken. -/
theorem concluded_of_take? {o : Outlets} {status : AttendantId → Status} {e : Ending} (hr : s.Relayed) (hp : s.Posted)
    (hopen : s.outlets.attendantStarted.closed = false) (hm : s.outlets.Matches js)
    (ht : s.outlets.take? status .attendantStopped = some (.attendantStopped a e, o))
    (hbefore : ∀ x ∈ Outlet.all.takeWhile (· != .attendantStopped), s.outlets.take? status x = none) :
    s.Concluded a js [] := by
  -- the channels that are looked at before are empty
  have hnone : s.outlets.attendantStarted.take? = none ∧ s.outlets.messages.take? = none ∧
      s.outlets.throttled.take? = none :=
    ⟨by simpa [Outlets.take?] using hbefore .attendantStarted (by decide),
      by simpa [Outlets.take?] using hbefore .messages (by decide),
      by simpa [Outlets.take?] using hbefore .throttled (by decide)⟩
  have hended : s.HasEnded a := by
    simp only [Outlets.take?, Option.map_eq_some_iff, Prod.mk.injEq] at ht
    obtain ⟨⟨_, c⟩, htake, heq, -⟩ := ht
    obtain ⟨rfl, rfl⟩ := Event.attendantStopped.inj heq
    exact List.mem_map.2 ⟨_, Channel.mem_sent_of_take? htake, rfl⟩
  refine ⟨mem_starts_iff.1 ?_, ?_, ?_, by simp⟩
  · rw [hm.starts, Channel.passed_of_take?_none hnone.1]
    exact (hr.of_hasEnded hp hended).1.resolve_left fun hlost => by simp [IsLost, hopen] at hlost
  · rw [hm.deliveries, Channel.passed_of_take?_none hnone.2.1]
  · rw [hm.deferrals, Channel.passed_of_take?_none hnone.2.2]

end Server

namespace House

variable {h i j : House μ} {m : Move} {ms : List Move} {past : List (List Event)} {js : List Event}

/-! ## Runs -/

/-- What the handler of the last funnel has been told. -/
def handed (h : House μ) : List Event :=
  match h.funnel with
  | none => []
  | some f => f.calls

/-- A move of the server or of the funnel that has the receiving ends. -/
def Move.isPouring : Move → Bool
  | .server _ | .scan | .handled => true
  | _ => false

/-- Runs from `h` on in which the events go to funnels only, one funnel after the other; `past` holds what the handlers
of those before the last one have been told. -/
inductive Poured (h : House μ) : List (List Event) → House μ → Prop where
  | refl : Poured h [] h
  | step {past : List (List Event)} {i j : House μ} {m : Move} (hp : Poured h past i) (hm : m.isPouring = true)
      (hs : i.step m = some j) : Poured h past j
  | pour {past : List (List Event)} {i j : House μ} (hp : Poured h past i) (hs : i.step .pour = some j) :
      Poured h (past ++ [i.handed]) j

theorem Poured.reaches (hp : Poured h past i) : ∃ ms, Reaches h ms i := by
  induction hp with
  | refl => exact ⟨[], .refl h⟩
  | step _ _ hs ih | pour _ hs ih =>
      obtain ⟨ms, hr⟩ := ih
      exact ⟨_, hr.trans (.step hs (.refl _))⟩

theorem poured_of_after (hp : Poured h past i) (hms : ∀ m ∈ ms, m.isPouring = true) (ha : i.after ms = some j) :
    Poured h past j := by
  induction ms generalizing i with
  | nil => exact Option.some.inj ha ▸ hp
  | cons m ms ih =>
      obtain ⟨k, hs, hrest⟩ := Option.bind_eq_some_iff.1 ha
      exact ih (.step hp (hms m (by simp)) hs) (fun n hn => hms n (by simp [hn])) hrest

/-- All that has been told, oldest first. -/
def journal (past : List (List Event)) (h : House μ) : List Event :=
  past.flatten ++ h.handed

/-- What is so of what has been told. -/
structure Recorded (js : List Event) (h : House μ) : Prop where
  bounded : h.server.outlets.Bounded
  matched : h.server.outlets.Matches js
  heard : h.server.outlets.attendantStarted.closed = false
  concluded : ∀ xs a e ys, js = xs ++ .attendantStopped a e :: ys → h.server.Concluded a xs ys

theorem recorded_of_build {b : Builder μ} {s : Server μ} (hb : b.build = .ok s) : Recorded [] { server := s } where
  bounded := by
    obtain ⟨codec, config, rfl⟩ := Server.eq_of_build hb
    exact ⟨Nat.le_refl _, Nat.le_refl _, Nat.le_refl _, Nat.le_refl _⟩
  matched := by
    obtain ⟨codec, config, rfl⟩ := Server.eq_of_build hb
    exact ⟨rfl, rfl, rfl, rfl⟩
  heard := by
    obtain ⟨codec, config, rfl⟩ := Server.eq_of_build hb
    rfl
  concluded := by simp

/-- What is so of what has been told depends on the server only. -/
theorem Recorded.of_eq (hr : Recorded js h) (heq : i.server = h.server) : Recorded js i :=
  ⟨heq ▸ hr.bounded, heq ▸ hr.matched, heq ▸ hr.heard, heq ▸ hr.concluded⟩

/-- Nothing is told by a move of the server. -/
theorem recorded_of_server {n : Server.Move} (hstep : h.step (.server n) = some i) (ha : h.Accounted)
    (hr : Recorded js h) : Recorded js i := by
  have haccess := Server.access_of_step (server_of_step hstep)
  have hfeeds := Server.feeds_of_access haccess
  refine ⟨hfeeds.bounded hr.bounded, hfeeds.matches hr.bounded hr.matched, hfeeds.starts.closed.trans hr.heard, ?_⟩
  rintro xs a e ys rfl
  have hended := Server.hasEnded_of_told (a := a) (e := e) hr.matched (by simp)
  exact (hr.concluded xs a e ys rfl).mute (Server.mute_of_hasEnded haccess ha.relayed ha.posted hended)

/-- What a look through the channels comes to for the house. -/
theorem scan_cases (hstep : h.step .scan = some i) :
    ∃ f g, h.funnel = some f ∧ i.funnel = some g ∧ f.busy = false ∧ f.finished = false ∧
      Server.Funnel.Scans f g h.server.statusOf h.server.outlets i.server.outlets ∧
      i.server = { h.server with outlets := i.server.outlets } := by
  cases hf : h.funnel with
  | none => simp [step, hf] at hstep
  | some f =>
      simp only [step, hf, Option.map_eq_some_iff] at hstep
      obtain ⟨⟨g, o⟩, hs, rfl⟩ := hstep
      obtain ⟨hbusy, hfinished, hscans⟩ := Server.Funnel.scans_of_scan hs
      exact ⟨f, g, rfl, rfl, hbusy, hfinished, hscans, rfl⟩

/-- When the call of a handler returns, nothing else changes. -/
theorem handled_cases (hstep : h.step .handled = some i) :
    ∃ f, h.funnel = some f ∧ i = { h with funnel := some { f with busy := false } } := by
  cases hf : h.funnel with
  | none => simp [step, hf] at hstep
  | some f =>
      simp only [step, hf, Server.Funnel.handled, Option.map_eq_some_iff, Option.ite_none_right_eq_some,
        Option.some.injEq] at hstep
      obtain ⟨g, ⟨-, rfl⟩, rfl⟩ := hstep
      exact ⟨f, rfl, rfl⟩

/-- The handler is told of one event at a time. -/
theorem handed_of_scan (hstep : h.step .scan = some i) :
    i.handed = h.handed ∨ ∃ v, i.handed = h.handed ++ [v] := by
  obtain ⟨f, g, hf, hg, -, -, hscans, -⟩ := scan_cases hstep
  cases hscans with
  | told _ v _ _ hg' => exact .inr ⟨v, by simp [handed, hf, hg, hg']⟩
  | finished _ hg' => exact .inl (by simp [handed, hf, hg, hg'])

theorem recorded_of_scan (hstep : h.step .scan = some i) (ha : h.Accounted) (hr : Recorded js h) :
    ∃ new, i.handed = h.handed ++ new ∧ Recorded (js ++ new) i := by
  obtain ⟨f, g, hf, hg, -, -, hscans, heq⟩ := scan_cases hstep
  cases hscans with
  | finished ho hg' =>
      rw [ho] at heq
      exact ⟨[], by simp [handed, hf, hg, hg'], by rw [List.append_nil]; exact hr.of_eq heq⟩
  | told outlet v ht hbefore hg' =>
      have hdrained := Outlets.drained_of_take? ht
      have hmatched := Outlets.matches_of_take? ht hr.matched
      have hmute : ∀ a, Server.Mute h.server i.server a := fun a =>
        ⟨by rw [hdrained.messages.sent], by rw [hdrained.throttled.sent]⟩
      refine ⟨[v], by simp [handed, hf, hg, hg'], Outlets.bounded_of_take? ht hr.bounded, hmatched,
        (Outlets.heard_of_take? ht).trans hr.heard, fun xs a e ys hjs => ?_⟩
      rcases of_concat_eq_append hjs with ⟨rfl, rfl, rfl⟩ | ⟨ys, rfl, rfl⟩
      · -- the handler is told of the end just now
        obtain rfl := Outlets.outlet_of_end ht
        have hnow := Server.concluded_of_take? ha.relayed ha.posted hr.heard hr.matched ht hbefore
        exact hnow.mute (hmute a)
      · -- it has been told before, and nothing about the attendant comes after
        have hbefore' := (hr.concluded xs a e ys rfl).mute (hmute a)
        refine ⟨hbefore'.started, hbefore'.deliveries, hbefore'.deferrals, fun w hw => ?_⟩
        rcases List.mem_append.1 hw with hw | hw
        · exact hbefore'.silent w hw
        · rw [List.mem_singleton.1 hw]
          exact hbefore'.next (accounted_of_step hstep ha).relayed hmatched

/-- Only a look through the channels tells the handler of anything. -/
theorem handed_of_step (hstep : h.step m = some i) (hm : m.isPouring = true) (hne : m ≠ .scan) :
    i.handed = h.handed := by
  cases m with
  | server n =>
      simp only [step, Option.map_eq_some_iff] at hstep
      obtain ⟨s, -, rfl⟩ := hstep
      rfl
  | handled =>
      obtain ⟨f, hf, rfl⟩ := handled_cases hstep
      simp [handed, hf]
  | scan => exact absurd rfl hne
  | _ => simp [Move.isPouring] at hm

/-- A call of the handler returns, or the receiving ends go to another funnel. -/
theorem server_of_still (hstep : h.step m = some i) (hm : m = .handled ∨ m = .pour) : i.server = h.server := by
  rcases hm with rfl | rfl
  · obtain ⟨f, -, rfl⟩ := handled_cases hstep
    rfl
  · simp only [step, Option.ite_none_right_eq_some, Option.some.injEq] at hstep
    obtain ⟨-, rfl⟩ := hstep
    rfl

theorem recorded_of_poured {b : Builder μ} {s : Server μ} (hb : b.build = .ok s) (hp : Poured { server := s } past h) :
    Recorded (journal past h) h := by
  induction hp with
  | refl => exact recorded_of_build hb
  | @step past i j m hp hm hs ih =>
      obtain ⟨ms, hr⟩ := hp.reaches
      have ha : i.Accounted := accounted_of_reaches hr (accounted_of_build hb)
      cases m with
      | server n =>
          rw [journal, handed_of_step hs rfl (by simp)]
          exact recorded_of_server hs ha ih
      | scan =>
          obtain ⟨new, hnew, hrecorded⟩ := recorded_of_scan hs ha ih
          rw [journal, hnew, ← List.append_assoc]
          exact hrecorded
      | handled =>
          rw [journal, handed_of_step hs rfl (by simp)]
          exact ih.of_eq (server_of_still hs (.inl rfl))
      | _ => simp [Move.isPouring] at hm
  | @pour past i j _ hs ih =>
      have hnone : j.handed = [] := by
        simp only [step, Option.ite_none_right_eq_some, Option.some.injEq] at hs
        obtain ⟨-, rfl⟩ := hs
        rfl
      have hsame : journal (past ++ [i.handed]) j = journal past i := by
        simp [journal, hnone]
      rw [hsame]
      exact ih.of_eq (server_of_still hs (.inr rfl))

/-! ## The end of a funnel -/

/-- The handler of a funnel is told of an end last of all. -/
def EndsLast (calls : List Event) : Prop :=
  .stopped ∉ calls.dropLast

/-- A funnel whose handler has been told of an end is over. -/
structure Sealed (h : House μ) : Prop where
  last : EndsLast h.handed
  finished : .stopped ∈ h.handed → ∀ f, h.funnel = some f → f.finished = true

theorem sealed_of_step (hstep : h.step m = some i) (hm : m.isPouring = true) (hs : h.Sealed) : i.Sealed := by
  by_cases hscan : m = .scan
  · subst hscan
    obtain ⟨f, g, hf, hg, -, hopen, hscans, -⟩ := scan_cases hstep
    -- nothing is told of after an end
    have hnot : .stopped ∉ f.calls := fun hmem => by
      have hover := hs.finished (by simpa [handed, hf] using hmem) f hf
      simp [hopen] at hover
    cases hscans with
    | finished _ hg' =>
        refine ⟨?_, fun _ g' hg'' => ?_⟩
        · have hlast := hs.last
          simpa [handed, hf, hg, hg'] using hlast
        · obtain rfl := Option.some.inj (hg.symm.trans hg'')
          rw [hg']
    | told outlet v ht _ hg' =>
        refine ⟨by simpa [EndsLast, handed, hg, hg'] using hnot, fun hmem g' hg'' => ?_⟩
        obtain rfl := Option.some.inj (hg.symm.trans hg'')
        have hv : v = .stopped := by simpa [handed, hg, hg', hnot, eq_comm] using hmem
        simp [hg', (Server.Funnel.stopped_of_take? ht).1 hv]
  · have hsame := handed_of_step hstep hm hscan
    refine ⟨hsame ▸ hs.last, fun hmem g hg => ?_⟩
    rw [hsame] at hmem
    cases m with
    | server n =>
        simp only [step, Option.map_eq_some_iff] at hstep
        obtain ⟨s, -, rfl⟩ := hstep
        exact hs.finished hmem g hg
    | handled =>
        obtain ⟨f, hf, rfl⟩ := handled_cases hstep
        obtain rfl := Option.some.inj hg
        exact hs.finished hmem f hf
    | _ => simp [Move.isPouring] at hm hscan

theorem sealed_of_poured {s : Server μ} (hp : Poured { server := s } past h) :
    h.Sealed ∧ ∀ calls ∈ past, EndsLast calls := by
  induction hp with
  | refl => exact ⟨⟨by simp [EndsLast, handed], by simp [handed]⟩, by simp⟩
  | step _ hm hs ih => exact ⟨sealed_of_step hs hm ih.1, ih.2⟩
  | @pour past i j _ hs ih =>
      simp only [step, Option.ite_none_right_eq_some, Option.some.injEq] at hs
      obtain ⟨-, rfl⟩ := hs
      refine ⟨⟨by simp [EndsLast, handed], by simp [handed]⟩, fun calls hcalls => ?_⟩
      rcases List.mem_append.1 hcalls with hcalls | hcalls
      · exact ih.2 calls hcalls
      · exact List.mem_singleton.1 hcalls ▸ ih.1.last

/-- When the handler is told of the end, nothing else is queued. -/
theorem queued_of_stopped (hstep : h.step .scan = some i) (hv : i.handed = h.handed ++ [.stopped]) :
    ∀ outlet, outlet ≠ .stopped → h.server.outlets.queued outlet = 0 := by
  obtain ⟨f, g, hf, hg, -, -, hscans, -⟩ := scan_cases hstep
  cases hscans with
  | finished _ hg' => simp [handed, hf, hg, hg'] at hv
  | told outlet v ht hbefore hg' =>
      obtain rfl : v = .stopped := by simpa [handed, hf, hg, hg'] using hv
      obtain rfl := (Server.Funnel.stopped_of_take? ht).1 rfl
      intro outlet hne
      have hnone := hbefore outlet (by cases outlet <;> first | exact absurd rfl hne | decide)
      cases outlet <;> simp_all [Outlets.take?, Outlets.queued, Channel.take?_eq_none_iff]

/-- What the handlers of funnels are told of ends, whatever they do and however long their calls take.

- By the time they are told of the end of an attendant they have been told of its start and given each of its messages
  once, and they are told nothing of it any more.
- Each is told of the end of a run at most once and last of all, when no other event is at hand. -/
theorem order_of_poured {b : Builder μ} {s : Server μ} (hb : b.build = .ok s) (hp : Poured { server := s } past h) :
    (∀ xs a e ys, journal past h = xs ++ .attendantStopped a e :: ys → h.server.Concluded a xs ys) ∧
    (∀ calls ∈ past ++ [h.handed], EndsLast calls) ∧
    (∀ i, h.step .scan = some i → i.handed = h.handed ++ [.stopped] →
      ∀ outlet, outlet ≠ .stopped → h.server.outlets.queued outlet = 0) := by
  refine ⟨(recorded_of_poured hb hp).concluded, fun calls hcalls => ?_, fun i hstep hv => queued_of_stopped hstep hv⟩
  obtain ⟨hsealed, hpast⟩ := sealed_of_poured hp
  rcases List.mem_append.1 hcalls with hcalls | hcalls
  · exact hpast calls hcalls
  · exact List.mem_singleton.1 hcalls ▸ hsealed.last

/-- The receiving ends go to a funnel.  A client connects, sends two messages and leaves, and the funnel begins to look
through the channels only then. -/
def lateFunnel : List Move :=
  oneClient ++ [.server (.attendant 0 twoLines)] ++ List.replicate 6 (.server (.attendant 0 .proceed)) ++
    [.server (.attendant 0 (.read .ended))] ++ List.replicate 5 (.server (.attendant 0 .proceed)) ++ relaying ++
    (List.replicate 5 [.scan, .handled]).flatten

theorem order_of_late_funnel :
    ∃ h xs e, twofold.build = .ok fresh.server ∧ Poured fresh [[]] h ∧
      journal [[]] h = xs ++ [.attendantStopped 0 e] ∧
      (xs.filterMap Event.delivery?).map (·.message.command) = ["A", "B"] ∧ h.server.Concluded 0 xs [] := by
  obtain ⟨h, hafter, hcheck⟩ := exists_of_run { fresh with funnel := some {} } lateFunnel
    (fun h => (h.handed.getLast?.bind Event.ending?).any (fun n => n.1 == 0) &&
      (h.handed.dropLast.filterMap Event.delivery?).map (·.message.command) == ["A", "B"])
    (by decide +kernel)
  simp only [Bool.and_eq_true, beq_iff_eq, Option.any_eq_true, Option.bind_eq_some_iff] at hcheck
  obtain ⟨⟨⟨a, e⟩, ⟨v, hlast, hv⟩, rfl⟩, hcommands⟩ := hcheck
  obtain rfl : v = .attendantStopped 0 e := by cases v <;> simp_all [Event.ending?]
  have hpoured : Poured fresh [[]] h :=
    poured_of_after (.pour .refl rfl) (List.all_eq_true.1 (by decide +kernel)) hafter
  obtain ⟨xs, hjournal⟩ := List.getLast?_eq_some_iff.1 hlast
  rw [hjournal, List.dropLast_concat] at hcommands
  exact ⟨h, xs, e, rfl, hpoured, hjournal, hcommands, (order_of_poured (b := twofold) rfl hpoured).1 xs 0 e [] hjournal⟩

end House
end Courier
