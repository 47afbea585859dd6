import Courier.Proofs.Server.Stop
import Courier.Server.House

/-!
# House — runs of a server among its consumer

Whatever the consumer of a server does, and whether it does anything, it takes events out of channels or gives up
their receiving ends.  What is so of every server that has been built, and what a stop brings about, is carried
along the runs of a server with its consumer.

- `House.step_cases` — a move is the server's or the consumer's,
- `House.ordered_of_reaches` — what is so of every server,
- `House.ending_of_reaches` — what is so after a stop.
-/

namespace Courier

variable {μ : Type} [Marshaler μ]

/-! ## Consumers -/

/-- A consumer has used the channel. -/
structure Channel.Drained {α : Type} (c d : Channel α) : Prop where
  sent : d.sent = c.sent
  taken : c.taken ≤ d.taken
  capacity : d.capacity = c.capacity
  closed : c.closed = true → d.closed = true

namespace Channel.Drained

variable {α : Type} {c d : Channel α} {a : α}

theorem refl (c : Channel α) : Drained c c :=
  ⟨rfl, Nat.le_refl _, rfl, id⟩

theorem of_take? (h : c.take? = some (a, d)) : Drained c d := by
  obtain ⟨-, rfl⟩ := take?_eq_some_iff.1 h
  exact ⟨rfl, Nat.le_succ _, rfl, id⟩

theorem of_close : Drained c c.close :=
  ⟨rfl, Nat.le_refl _, rfl, fun _ => rfl⟩

theorem closed_eq_false (h : Drained c d) (hd : d.closed = false) : c.closed = false :=
  Bool.eq_false_iff.2 fun hc => by simp [h.closed hc] at hd

theorem isFull_eq_false (h : Drained c d) (hc : c.isFull = false) : d.isFull = false := by
  have hlt : ¬ c.taken + c.capacity ≤ c.sent.length := by simpa [isFull] using hc
  have htaken := h.taken
  simp only [isFull, h.sent, h.capacity, decide_eq_false_iff_not]
  omega

end Channel.Drained

/-- The consumer has used the channels of a server. -/
structure Outlets.Drained (o p : Outlets) : Prop where
  started : o.started.Drained p.started
  acceptFailed : o.acceptFailed.Drained p.acceptFailed
  attendantStarted : o.attendantStarted.Drained p.attendantStarted
  messages : o.messages.Drained p.messages
  throttled : o.throttled.Drained p.throttled
  attendantStopped : o.attendantStopped.Drained p.attendantStopped
  stopped : o.stopped.Drained p.stopped

namespace Outlets

variable {o p : Outlets} {status : AttendantId → Status} {e : Event} {outlet : Outlet}

theorem Drained.refl (o : Outlets) : o.Drained o :=
  ⟨.refl _, .refl _, .refl _, .refl _, .refl _, .refl _, .refl _⟩

theorem drained_of_close (outlet : Outlet) : o.Drained (o.close outlet) := by
  cases outlet with
  | started => exact { Drained.refl o with started := .of_close }
  | acceptFailed => exact { Drained.refl o with acceptFailed := .of_close }
  | attendantStarted => exact { Drained.refl o with attendantStarted := .of_close }
  | messages => exact { Drained.refl o with messages := .of_close }
  | throttled => exact { Drained.refl o with throttled := .of_close }
  | attendantStopped => exact { Drained.refl o with attendantStopped := .of_close }
  | stopped => exact { Drained.refl o with stopped := .of_close }

theorem drained_of_take? (h : o.take? status outlet = some (e, p)) : o.Drained p := by
  cases outlet with
  | started =>
      simp only [take?, Option.map_eq_some_iff, Prod.mk.injEq] at h
      obtain ⟨⟨_, c⟩, ht, -, rfl⟩ := h
      exact { Drained.refl o with started := .of_take? ht }
  | acceptFailed =>
      simp only [take?, Option.map_eq_some_iff, Prod.mk.injEq] at h
      obtain ⟨⟨_, c⟩, ht, -, rfl⟩ := h
      exact { Drained.refl o with acceptFailed := .of_take? ht }
  | attendantStarted =>
      simp only [take?, Option.map_eq_some_iff, Prod.mk.injEq] at h
      obtain ⟨⟨_, c⟩, ht, -, rfl⟩ := h
      exact { Drained.refl o with attendantStarted := .of_take? ht }
  | messages =>
      simp only [take?, Option.map_eq_some_iff, Prod.mk.injEq] at h
      obtain ⟨⟨_, c⟩, ht, -, rfl⟩ := h
      exact { Drained.refl o with messages := .of_take? ht }
  | throttled =>
      simp only [take?, Option.map_eq_some_iff, Prod.mk.injEq] at h
      obtain ⟨⟨_, c⟩, ht, -, rfl⟩ := h
      exact { Drained.refl o with throttled := .of_take? ht }
  | attendantStopped =>
      simp only [take?, Option.map_eq_some_iff, Prod.mk.injEq] at h
      obtain ⟨⟨_, c⟩, ht, -, rfl⟩ := h
      exact { Drained.refl o with attendantStopped := .of_take? ht }
  | stopped =>
      simp only [take?, Option.map_eq_some_iff, Prod.mk.injEq] at h
      obtain ⟨⟨_, c⟩, ht, -, rfl⟩ := h
      exact { Drained.refl o with stopped := .of_take? ht }

/-- What the consumer does with the channels. -/
inductive Consumed (status : AttendantId → Status) (o : Outlets) : Outlets → Prop where
  | unused : Consumed status o o
  | taken {outlet : Outlet} {e : Event} {p : Outlets} (h : o.take? status outlet = some (e, p)) : Consumed status o p
  | closed (outlet : Outlet) : Consumed status o (o.close outlet)

theorem Consumed.drained (h : o.Consumed status p) : o.Drained p := by
  cases h with
  | unused => exact .refl o
  | taken ht => exact drained_of_take? ht
  | closed outlet => exact drained_of_close outlet

/-- A look through the channels takes at most one event. -/
theorem consumed_of_scan {f g : Server.Funnel} {ended : Bool} (h : f.scan status ended o = some (g, p)) :
    o.Consumed status p := by
  have htaken : ∀ {e : Event}, Outlet.all.findSome? (o.take? status) = some (e, p) → o.Consumed status p := by
    intro e hfind
    obtain ⟨_, -, ht⟩ := List.exists_of_findSome?_eq_some hfind
    exact .taken ht
  unfold Server.Funnel.scan at h
  split at h
  · simp at h
  · split at h
    · next hfind =>
      simp only [Option.some.injEq, Prod.mk.injEq] at h
      exact htaken (h.2 ▸ hfind)
    · next hfind =>
      simp only [Option.some.injEq, Prod.mk.injEq] at h
      exact htaken (h.2 ▸ hfind)
    · simp only [Option.ite_none_right_eq_some, Option.some.injEq, Prod.mk.injEq] at h
      obtain ⟨-, -, rfl⟩ := h
      exact .unused

end Outlets

namespace House

variable {h i j : House μ} {m : Move} {ms ns : List Move} {k l : Nat}

/-- A move of the server changes it as the server by itself does. -/
theorem server_of_step {n : Server.Move} (hstep : h.step (.server n) = some i) :
    h.server.step n = some i.server := by
  simp only [step, Option.map_eq_some_iff] at hstep
  obtain ⟨s, hs, rfl⟩ := hstep
  exact hs

/-- A move is one of the server, or the consumer does something with the channels. -/
theorem consumed_of_step (hstep : h.step m = some i) :
    (∃ n, m = .server n ∧ h.server.step n = some i.server) ∨
      (∃ o, i.server = { h.server with outlets := o } ∧ h.server.outlets.Consumed h.server.statusOf o) := by
  have hsame : h.server = { h.server with outlets := h.server.outlets } := rfl
  -- waiting, pouring and returning leave the channels alone
  cases m with
  | server n => exact .inl ⟨n, rfl, server_of_step hstep⟩
  | take outlet =>
      simp only [step, Option.ite_none_right_eq_some, Option.map_eq_some_iff] at hstep
      obtain ⟨-, ⟨e, o⟩, ht, rfl⟩ := hstep
      exact .inr ⟨o, rfl, .taken ht⟩
  | close outlet =>
      simp only [step, Option.ite_none_right_eq_some, Option.some.injEq] at hstep
      obtain ⟨-, rfl⟩ := hstep
      exact .inr ⟨_, rfl, .closed outlet⟩
  | pour =>
      simp only [step, Option.ite_none_right_eq_some, Option.some.injEq] at hstep
      obtain ⟨-, rfl⟩ := hstep
      exact .inr ⟨_, hsame, .unused⟩
  | scan =>
      cases hf : h.funnel with
      | none => simp [step, hf] at hstep
      | some f =>
          simp only [step, hf, Option.map_eq_some_iff] at hstep
          obtain ⟨⟨g, o⟩, hs, rfl⟩ := hstep
          exact .inr ⟨o, rfl, Outlets.consumed_of_scan hs⟩
  | handled =>
      cases hf : h.funnel with
      | none => simp [step, hf] at hstep
      | some f =>
          simp only [step, hf, Option.map_eq_some_iff] at hstep
          obtain ⟨g, -, rfl⟩ := hstep
          exact .inr ⟨_, hsame, .unused⟩

theorem step_cases (hstep : h.step m = some i) :
    (∃ n, m = .server n ∧ h.server.step n = some i.server) ∨
      (∃ o, i.server = { h.server with outlets := o } ∧ h.server.outlets.Drained o) :=
  (consumed_of_step hstep).imp id fun ⟨o, heq, hc⟩ => ⟨o, heq, hc.drained⟩

end House

/-! ## What the consumer leaves alone -/

namespace Server

variable {s : Server μ} {o : Outlets} {i k : Nat}

theorem turn_of_drained (h : s.outlets.Drained o) :
    ({ s with outlets := o } : Server μ).agenda = s.agenda ∨
      Agenda.Turn s.agenda ({ s with outlets := o } : Server μ).agenda := by
  cases hc : o.stopped.closed with
  | true =>
      have hends : o.stopped.extent? = none := by simp [Channel.extent?, hc]
      refine .inr ?_
      have hturn := Agenda.Turn.forget (p := s.agenda)
      rw [← hends] at hturn
      exact hturn
  | false =>
      have hc' := h.stopped.closed_eq_false hc
      have hends : o.stopped.extent? = s.outlets.stopped.extent? := by
        simp [Channel.extent?, hc, hc', h.stopped.sent]
      refine .inl ?_
      simp only [agenda, hends]

theorem Enrolled.outlets {a : AttendantId} {x : Member μ} (h : s.Enrolled a x) (o : Outlets) :
    ({ s with outlets := o } : Server μ).Enrolled a x := by
  refine ⟨h.staged, h.led, h.run, h.hosted, h.told, fun hrun => ?_⟩
  cases h.covered hrun with
  | starting hc hr => exact .starting hc hr
  | awaited ha => exact .awaited ha
  | tracked ha => exact .tracked ha
  | stopping ha => exact .stopping ha

theorem mustered_of_drained (h : s.outlets.Drained o) (hs : s.Mustered) :
    ({ s with outlets := o } : Server μ).Mustered where
  lawful := by
    rcases turn_of_drained h with heq | hturn
    · rw [heq]
      exact hs.lawful
    · exact Agenda.lawful_of_turn hturn hs.lawful
  rounds := hs.rounds
  enrolled := fun a x hx => (hs.enrolled a x hx).outlets o
  known := hs.known
  hosts := hs.hosts

theorem engaged_of_drained (hs : s.Engaged) : ({ s with outlets := o } : Server μ).Engaged :=
  ⟨hs.bound, hs.swept⟩

theorem halts_of_drained (hs : s.Halts i k) : ({ s with outlets := o } : Server μ).Halts i k := by
  cases hs with
  | barring hc => exact .barring hc
  | closing hc => exact .closing hc
  | ending hc he hk => exact .ending hc he hk

theorem spared_of_drained (h : s.outlets.Drained o) (hs : s.Spared k) :
    ({ s with outlets := o } : Server μ).Spared k := by
  rcases hs with hs | hs
  · exact .inl (h.stopped.isFull_eq_false hs)
  · exact .inr hs

theorem raised_of_drained (hs : s.Raised i k) : ({ s with outlets := o } : Server μ).Raised i k :=
  ⟨⟨hs.underway.phases, hs.underway.duties⟩, hs.flag⟩

end Server

namespace House

variable {h i j : House μ} {m : Move} {ms ns : List Move} {k l : Nat}

/-! ## Runs -/

/-- What is so of every server that has been built. -/
structure Ordered (h : House μ) : Prop where
  mustered : h.server.Mustered
  engaged : h.server.Engaged

theorem ordered_of_step (hstep : h.step m = some i) (ho : h.Ordered) : i.Ordered := by
  rcases step_cases hstep with ⟨n, -, hs⟩ | ⟨o, heq, hd⟩
  · have haccess := Server.access_of_step hs
    exact ⟨Server.mustered_of_access haccess ho.mustered, Server.engaged_of_access haccess ho.engaged⟩
  · refine ⟨?_, ?_⟩
    · rw [heq]
      exact Server.mustered_of_drained hd ho.mustered
    · rw [heq]
      exact Server.engaged_of_drained ho.engaged

/-- What every move keeps is so for good. -/
theorem Reaches.preserves {P : House μ → Prop} (hP : ∀ {h i : House μ} {m : Move}, h.step m = some i → P h → P i)
    (hr : Reaches h ms i) (hh : P h) : P i := by
  induction hr with
  | refl => exact hh
  | step hstep _ ih => exact ih (hP hstep hh)

theorem ordered_of_reaches (hr : Reaches h ms i) (ho : h.Ordered) : i.Ordered :=
  hr.preserves ordered_of_step ho

theorem ordered_of_build {b : Builder μ} {s : Server μ} (hb : b.build = .ok s) :
    ({ server := s } : House μ).Ordered where
  mustered := Server.mustered_of_build hb
  engaged := by
    obtain ⟨codec, config, rfl⟩ := Server.eq_of_build hb
    refine ⟨?_, by simp⟩
    rintro k (hk | ⟨i, c, hc, -⟩)
    · simp at hk
    · simp at hc

/-- Operation `l` is a stop of run `k` for whose report there has been room. -/
structure Ending (h : House μ) (l k : Nat) : Prop where
  halts : h.server.Halts l k
  bound : h.server.agenda.Bound k
  spared : h.server.Spared k

theorem ending_of_step (hstep : h.step m = some i) (ho : h.Ordered) (he : h.Ending l k) : i.Ending l k := by
  rcases step_cases hstep with ⟨n, -, hs⟩ | ⟨o, heq, hd⟩
  · have haccess := Server.access_of_step hs
    exact ⟨Server.halts_of_access haccess he.halts, Server.bound_of_access haccess he.bound,
      Server.spared_of_access haccess ho.mustered.lawful he.bound he.spared⟩
  · refine ⟨?_, ?_, ?_⟩
    · rw [heq]
      exact Server.halts_of_drained he.halts
    · rw [heq]
      exact he.bound
    · rw [heq]
      exact Server.spared_of_drained hd he.spared

theorem ending_of_reaches (hr : Reaches h ms i) (ho : h.Ordered) (he : h.Ending l k) : i.Ending l k := by
  have hboth : i.Ordered ∧ i.Ending l k :=
    hr.preserves (P := fun h => h.Ordered ∧ h.Ending l k)
      (fun hstep hh => ⟨ordered_of_step hstep hh.1, ending_of_step hstep hh.1 hh.2⟩) ⟨ho, he⟩
  exact hboth.2

/-- The flag that a stop has raised stays so for as long as nobody begins a run. -/
theorem raised_of_reaches (hr : Reaches h ms i) (hms : ∀ m ∈ ms, m ≠ .server .run)
    (hl : h.server.Raised l k) : i.server.Raised l k := by
  induction hr with
  | refl => exact hl
  | @step h i j m ms hstep _ ih =>
    refine ih (fun n hn => hms n (List.mem_cons_of_mem _ hn)) ?_
    rcases step_cases hstep with ⟨n, rfl, hs⟩ | ⟨o, heq, -⟩
    · have hne : n ≠ .run := by
        rintro rfl
        exact hms _ (List.mem_cons_self ..) rfl
      exact Server.raised_of_access (Server.access_of_step hs) hne hl
    · rw [heq]
      exact Server.raised_of_drained hl

/-- The server once a stop of run `k` has begun. -/
theorem server_of_stop (hstep : h.step (.server .stop) = some i) (hk : h.server.closer = some k) :
    i.server = { h.server with closer := none }.record (.barring k) := by
  have hs := server_of_step hstep
  simp only [Server.step, Option.ite_none_left_eq_some, Option.some.injEq] at hs
  rw [← hs.2]
  simp [Server.beginStop, hk]

theorem ending_of_stop (hstep : h.step (.server .stop) = some i) (ho : h.Ordered)
    (hk : h.server.closer = some k) (hroom : h.server.outlets.stopped.isFull = false) :
    i.Ending h.server.calls.length k := by
  have hs := server_of_stop hstep hk
  refine ⟨.barring ?_, ?_, .inl ?_⟩
  · rw [hs]
    exact List.getElem?_concat_length
  · rw [hs]
    exact ho.engaged.bound k (.inl hk)
  · rw [hs]
    exact hroom

theorem raised_of_stop (hstep : h.step (.server .stop) = some i) (hk : h.server.closer = some k)
    (hu : h.server.agenda.Underway) : i.server.Raised h.server.calls.length k := by
  have hs := server_of_stop hstep hk
  refine ⟨?_, .inl ?_⟩
  · rw [hs]
    exact hu
  · rw [hs]
    exact List.getElem?_concat_length

end House
end Courier
