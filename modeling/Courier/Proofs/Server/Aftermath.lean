import Courier.Proofs.Server.Paced
import Courier.Proofs.Server.Stakes

/-!
# Aftermath — what a stop leaves

A stop takes the means to end a run away from the server, and only another run that is bound gives it new ones.  In
between nobody is in the set: whoever could be entered belongs to a run that has been asked to end.  Who has been let
past the flag before it was raised goes on from there, though: a loop makes an attendant of the connection it is taking
in, and a registrar reflects the report that it has taken, or has been poised to take.

- `Server.Unaltering`, `House.Spares` — registrars that leave the set alone from now on,
- `Server.Calm`, `Server.calm_of_access` — nothing is left by which a run could be ended, but for one stop,
- `Server.Clearing`, `Server.clearing_of_access` — how far that stop has come,
- `Server.Follows`, `Server.follows_of_access` — who starts afterwards,
- `House.Settled`, `House.Subsiding`, `House.Resting` — all of it along a run,
- `House.idle_of_stop` — the server between a stop and the next run,
- `House.busy_of_races` — runs that show what the conditions are for.
-/

namespace Courier

variable {μ : Type} [Marshaler μ]

/-- Whether the loop is taking in a connection for which it has found the flag down. -/
def Duty.hasWelcomed : Duty → Bool
  | .joining _ => true
  | .founding _ _ => true
  | _ => false

namespace Server

/-- Whether a run comes to be bound. -/
def Move.isBinding : Move → Bool
  | .bind _ (.ok _) => true
  | _ => false

/-- Whether a stop has emptied the set. -/
def Call.hasSwept : Server.Call → Bool
  | .stopping _ => true
  | .halted (.ok _) => true
  | _ => false

variable {s t u : Server μ} {m : Move} {a : AttendantId} {x : Member μ} {i l k r : Nat} {round : Round}
  {c : Server.Call}

/-! ## Registrars that have been told to end -/

/-- The registrar of round `r` has been told to end, and may not alter the set without knowing of it. -/
def Unaltering (s : Server μ) (r : Nat) : Prop :=
  ∃ round, s.rounds[r]? = some round ∧ round.quit = true ∧ round.alters = false

theorem unaltering_of_access (h : Access s m t) (hm : s.Mustered) (hu : s.Unaltering r) : t.Unaltering r := by
  obtain ⟨round, hr, hq, ha⟩ := hu
  obtain ⟨round', hr', rfl | hgoes⟩ := (relay_of_access h).round_to hr
  · exact ⟨round', hr', hq, ha⟩
  · refine ⟨round', hr', hgoes.quit hq, Bool.eq_false_iff.2 fun ha' => ?_⟩
    rcases hgoes.alters hm.lawful hr (hm.rounds r round hr) ha' with halters | hopen
    · simp [ha] at halters
    · simp [hq] at hopen

/-- Such a registrar neither enters anybody in the set nor erases anybody from it. -/
theorem tracked_of_unaltering (h : Access s (.register r) t) (hu : s.Unaltering r) : t.tracked = s.tracked := by
  obtain ⟨round, hr, -, ha⟩ := hu
  cases h with
  | enter _ found a hr' hg _ | erase _ found a e hr' hg =>
      obtain rfl := Option.some.inj (hr'.symm.trans hr)
      simp [Round.alters, hg] at ha
  | turnAway _ _ _ _ _ _ | clearStart _ _ _ _ _ _ _ => exact tracked_stopAttendant
  | _ => rfl

/-- A registrar that has altered the set has nothing in hand by which it could do so again. -/
theorem unaltering_of_altered (h : Access s (.register r) t) (hr : s.rounds[r]? = some round)
    (hq : round.quit = true) (hne : t.tracked ≠ s.tracked) : t.Unaltering r := by
  obtain ⟨hlt, -⟩ := List.getElem?_eq_some_iff.1 hr
  cases h with
  | enter _ found a hr' _ _ =>
      obtain rfl := Option.some.inj (hr'.symm.trans hr)
      refine ⟨{ found with registrar := .announcing a, poised := false }, ?_, hq, rfl⟩
      simp [setRegister, hlt]
  | erase _ found a e hr' _ =>
      obtain rfl := Option.some.inj (hr'.symm.trans hr)
      exact ⟨{ found with registrar := .reporting a e, poised := false }, List.getElem?_set_self hlt, hq, rfl⟩
  | turnAway _ _ _ _ _ _ | clearStart _ _ _ _ _ _ _ => exact absurd tracked_stopAttendant hne
  | _ => exact absurd rfl hne

/-! ## Nothing to end a run by -/

/-- Neither the server nor any operation holds the means to end a run, but for operation `l`, a stop. -/
structure Calm (s : Server μ) (l : Nat) : Prop where
  closer : s.closer = none
  stops : ∀ (i : Nat) c, s.calls[i]? = some c → c.run?.isSome = true → i = l ∧ c.isHalting = true

/-- Only a run that is bound gives anybody the means to end one. -/
theorem calm_of_access (h : Access s m t) (hm : m.isBinding = false) (hs : s.Calm l) : t.Calm l where
  closer := by
    rcases closer_of_access h with heq | ⟨k, hk, -⟩ | ⟨n, k, hn, -⟩
    · exact heq.trans hs.closer
    · simp [hs.closer] at hk
    · obtain ⟨-, hhalting⟩ := hs.stops n _ hn rfl
      simp [Call.isHalting] at hhalting
  stops := by
    intro i c hc hrun
    rcases (calls_of_access h).call_from hc with hb | ⟨d, hd, rfl | hgoes⟩
    · cases hb with
      | stop k hk => simp [hs.closer] at hk
      | _ => simp [Call.run?] at hrun
    · exact hs.stops i c hd hrun
    · cases hgoes with
      | bound k run p _ _ =>
          rcases call_from h hc with hc' | hcomes
          · exact hs.stops i _ hc' rfl
          · cases hcomes with
            | keeping _ p hbind => simp [hbind, Move.isBinding] at hm
            | other _ hne => exact absurd rfl (hne k)
      | bar k _ => exact ⟨(hs.stops i _ hd rfl).1, rfl⟩
      | _ => simp [Call.run?] at hrun

/-- A stop that is not refused leaves the server nothing to end a run by. -/
theorem calm_of_stop (h : Access s .stop t) (hs : s.Sole) :
    t.Calm s.calls.length ∧ (∃ k, t.calls[s.calls.length]? = some (.barring k)) ∨
      t.calls[s.calls.length]? = some (.halted (.error .notListening)) := by
  cases h with
  | refuseStop _ dropped _ _ => exact .inr List.getElem?_concat_length
  | beginStop _ dropped k _ hk =>
      refine .inl ⟨⟨rfl, fun i c hc hrun => ?_⟩, k, List.getElem?_concat_length⟩
      have hc' : (s.calls ++ [.barring k])[i]? = some c := hc
      rcases of_getElem?_concat hc' with hc' | ⟨hlast, rfl⟩
      · -- the server would hold no means that the stop could take
        obtain ⟨j, hj⟩ := Option.isSome_iff_exists.1 hrun
        simp [hs.closer_eq_none hc' (by simp [stake?_of_run? hj])] at hk
      · exact ⟨hlast, rfl⟩
  | poise _ _ _ _ _ hm _ _ => simp at hm

/-- Once the stop has used its means up, every run that has been bound has been asked to end. -/
theorem closed_of_calm (hs : s.Calm l) (hsole : s.Sole) (hc : s.calls[l]? = some c) (hrun : c.run? = none)
    (hk : s.agenda.Bound k) : s.dispatcher.isClosed k = true := by
  refine Bool.of_not_eq_false fun hopen => ?_
  rcases hsole.held k hk hopen with hcloser | ⟨i, d, hd, hheld⟩
  · simp [hs.closer] at hcloser
  · obtain ⟨rfl, -⟩ := hs.stops i d hd (by simp [hheld])
    obtain rfl := Option.some.inj (hc.symm.trans hd)
    simp [hrun] at hheld

/-! ## The stop -/

/-- How far operation `l`, a stop, has come. -/
inductive Clearing (s : Server μ) (l : Nat) : Prop where
  | barring {k : Nat} (hc : s.calls[l]? = some (.barring k))
  | sweeping {c : Server.Call} (hc : s.calls[l]? = some c) (hs : c.isSweeping = true) (hb : s.Barred)
  | cleared {c : Server.Call} (hc : s.calls[l]? = some c) (hs : c.hasSwept = true) (hb : s.Barred)
      (hnil : s.tracked = [])

theorem run?_of_hasSwept (h : c.hasSwept = true) : c.run? = none := by
  cases c <;> simp_all [Call.hasSwept, Call.run?]

/-- After the stop has emptied the set, nobody comes into it. -/
theorem tracked_nil_of_cleared (h : Access s m t) (hcalm : s.Calm l) (hsole : s.Sole) (hm : s.Mustered)
    (hp : s.Posted) (hc : s.calls[l]? = some c) (hs : c.hasSwept = true) (hb : s.Barred) (hnil : s.tracked = []) :
    t.tracked = [] := by
  refine List.eq_nil_iff_forall_not_mem.2 fun a ha => ?_
  rcases (effect_of_relay (relay_of_access h)).tracked_from ha with ha' | ⟨r, round, hr, hg, hlow⟩
  · simp [hnil] at ha'
  · -- it would belong to a run that has been asked to end, whose registrar enters nobody
    obtain ⟨x, hx, -⟩ := hp.subject r round a hr (hg ▸ rfl)
    obtain ⟨k, hrun⟩ := (hm.enrolled a x hx).run
    have hbegun : s.agenda.begun[x.round]? = some k := hrun
    have hclosed := closed_of_calm hcalm hsole hc (run?_of_hasSwept hs) (.inl (List.mem_of_getElem? hbegun))
    simp [hb.raised_of_entering hp hr hg ⟨x, hx, hrun⟩ hclosed] at hlow

theorem clearing_of_access (h : Access s m t) (hst : s.isSteady m = true) (hm : s.Mustered) (hp : s.Posted)
    (hf : s.Relayed) (he : t.Engaged) (hsole : s.Sole) (hcalm : s.Calm l) (hs : s.Clearing l) : t.Clearing l := by
  cases hs with
  | barring hc =>
      obtain ⟨c', hc', rfl | hgoes⟩ := (calls_of_access h).call_to hc
      · exact .barring hc'
      · cases hgoes with
        | bar k hup => exact .sweeping hc' rfl (barred_of_closing he hup)
  | sweeping hc hs hb =>
      have hb' := barred_of_access h hst hm hp hf hb
      obtain ⟨c', hc', rfl | hgoes⟩ := (calls_of_access h).call_to hc
      · exact .sweeping hc' hs hb'
      · cases hgoes with
        | close k _ => exact .sweeping hc' rfl hb'
        | empty hnil => exact .cleared hc' rfl hb' hnil
        | _ => simp [Call.isSweeping] at hs
  | cleared hc hs hb hnil =>
      have hb' := barred_of_access h hst hm hp hf hb
      have hnil' := tracked_nil_of_cleared h hcalm hsole hm hp hc hs hb hnil
      obtain ⟨c', hc', rfl | hgoes⟩ := (calls_of_access h).call_to hc
      · exact .cleared hc' hs hb' hnil'
      · cases hgoes with
        | finish => exact .cleared hc' rfl hb' hnil'
        | next a left _ => exact .cleared hc' rfl hb' hnil'
        | _ => simp [Call.hasSwept] at hs

theorem Clearing.of_halted (hs : s.Clearing l) (hdone : s.calls[l]? = some (.halted (.ok ()))) :
    s.Barred ∧ s.tracked = [] := by
  cases hs with
  | barring hc => simp [hdone] at hc
  | sweeping hc hs _ =>
      obtain rfl := Option.some.inj (hdone.symm.trans hc)
      simp [Call.isSweeping] at hs
  | cleared _ _ hb hnil => exact ⟨hb, hnil⟩

/-! ## Who starts -/

/-- Some loop is taking in a connection for which it has found the flag down. -/
def TakesIn (s : Server μ) : Prop :=
  ∃ (k : Nat) (d : Duty), s.duties[k]? = some d ∧ d.hasWelcomed = true

/-- A loop that has found the flag down has done so before, or finds it down now. -/
theorem welcomed_from (h : Access s m t) {d : Duty} (hd : t.duties[k]? = some d) (hw : d.hasWelcomed = true) :
    (∃ d', s.duties[k]? = some d' ∧ d'.hasWelcomed = true) ∨
      ∃ peer, s.duties[k]? = some (.admitting peer) ∧ s.closing = false := by
  rcases duty_from h hd with hd' | hcomes
  · exact .inl ⟨d, hd', hw⟩
  · cases hcomes with
    | joining peer hd' hlow => exact .inr ⟨peer, hd', hlow⟩
    | founding peer r hd' => exact .inl ⟨_, hd', rfl⟩
    | called outcome _ _ => cases outcome <;> simp [Dispatcher.callbackOf, Duty.ofCallback, Duty.hasWelcomed] at hw
    | _ => simp [Duty.hasWelcomed] at hw

/-- There are as many attendants as before, or a loop makes one of the connection it has been taking in. -/
theorem members_from (h : Access s m t) :
    t.members.length = s.members.length ∨
      ∃ (k : Nat) (peer : PeerId) (r : Nat), s.duties[k]? = some (.founding peer r) ∧
      t = (s.found peer r).turnTo k (.starting s.members.length) := by
  rcases Nat.eq_or_lt_of_le (members_length_of_access h) with heq | hlt
  · exact .inl heq.symm
  · rcases member_of_access h (List.getElem?_eq_getElem hlt) with ⟨x, hx, -⟩ | ⟨k, peer, r, hd, -, ht, -⟩
    · simp at hx
    · exact .inr ⟨k, peer, r, hd, ht⟩

/-- Only one loop at a time takes in a connection. -/
theorem takesIn_from (h : Access s m t) (hl : s.agenda.Lawful)
    (hup : ∀ (k : Nat) peer, s.duties[k]? = some (.admitting peer) → s.closing = true) (ht : t.TakesIn) :
    s.TakesIn ∧ t.members.length = s.members.length := by
  obtain ⟨k, d, hd, hw⟩ := ht
  rcases welcomed_from h hd hw with ⟨d', hd', hw'⟩ | ⟨peer, hd', hlow⟩
  · refine ⟨⟨k, d', hd', hw'⟩, (members_from h).resolve_right ?_⟩
    rintro ⟨j, peer, r, hj, rfl⟩
    have hset : (s.duties.set j (.starting s.members.length))[k]? = some d := hd
    rcases of_getElem?_set hset with ⟨hjk, hd⟩ | ⟨-, rfl⟩
    · -- the other loop would be over
      obtain ⟨phase, hp, hlive, -⟩ := hl.stand_of_duty (k := k) hd (by rintro rfl; simp [Duty.hasWelcomed] at hw)
      exact hlive (hl.finished_of_other hj (by simp) hjk hp)
    · simp [Duty.hasWelcomed] at hw
  · simp [hup k peer hd'] at hlow

/-- A member that has not stopped is running. -/
theorem Enrolled.running (h : s.Enrolled a x) (hx : x.attendant.status ≠ .stopped) :
    x.attendant.status = .running := by
  obtain ⟨c, hc⟩ := h.led
  have hnew := hc.status_ne_new h.staged
  cases hstatus : x.attendant.status <;> simp_all

/-- Only a loop that takes a connection in starts anybody. -/
theorem running_from (h : Access s m t) (hm : s.Mustered) (ha : t.statusOf a = .running) :
    s.statusOf a = .running ∨ a = s.members.length ∧ s.TakesIn := by
  cases hy : t.members[a]? with
  | none => simp [statusOf, attendant?, hy] at ha
  | some y =>
      rw [statusOf_eq hy] at ha
      rcases member_of_access h hy with ⟨x, hx, -, -, hkeep⟩ | ⟨k, peer, r, hd, hlast, -⟩
      · have henrolled := hm.enrolled a x hx
        rw [statusOf_eq hx]
        -- whoever has stopped stays so
        refine .inl (henrolled.running fun hstopped => ?_)
        simp [hkeep.halted henrolled hstopped] at ha
      · exact .inr ⟨hlast, k, _, hd, rfl⟩

/-- Whoever is running now has been running before, but for the attendant of one connection that was being taken in. -/
structure Follows (s t : Server μ) : Prop where
  takesIn : t.TakesIn → s.TakesIn ∧ t.members.length = s.members.length
  running : ∀ a, t.statusOf a = .running → s.statusOf a = .running ∨ a = s.members.length ∧ s.TakesIn

theorem Follows.refl (s : Server μ) : Follows s s :=
  ⟨fun h => ⟨h, rfl⟩, fun _ => .inl⟩

theorem follows_of_access (h : Access t m u) (hm : t.Mustered)
    (hup : ∀ (k : Nat) peer, t.duties[k]? = some (.admitting peer) → t.closing = true) (hf : Follows s t) :
    Follows s u where
  takesIn := by
    intro hu
    obtain ⟨ht, hlen⟩ := takesIn_from h hm.lawful hup hu
    obtain ⟨hs, hlen'⟩ := hf.takesIn ht
    exact ⟨hs, hlen.trans hlen'⟩
  running := by
    intro a ha
    rcases running_from h hm ha with ha' | ⟨rfl, ht⟩
    · exact hf.running a ha'
    · obtain ⟨hs, hlen⟩ := hf.takesIn ht
      exact .inr ⟨hlen, hs⟩

/-- A loop that is about to look at the flag finds it up, once every run has been asked to end. -/
theorem raised_of_admitting (hcalm : s.Calm l) (hsole : s.Sole) (hl : s.agenda.Lawful) (hc : s.calls[l]? = some c)
    (hrun : c.run? = none) (hb : s.Barred) {peer : PeerId} (hd : s.duties[k]? = some (.admitting peer)) :
    s.closing = true := by
  obtain ⟨phase, -, -, -, hstand⟩ := hl.stand_of_duty (k := k) hd (by simp)
  obtain ⟨r, -, hseat, -⟩ := hstand.of_service rfl
  have hclosed := closed_of_calm hcalm hsole hc hrun (.inl (List.mem_of_getElem? hseat.begun))
  refine Bool.of_not_eq_false fun hlow => ?_
  have hadm := hb.loops k _ hclosed hlow hd
  simp [Duty.isAdmitting] at hadm

/-- The flag is lowered neither in the middle of a stop nor while a registrar may go on to look at it, and no run is
bound. -/
def isResting (s : Server μ) (m : Move) : Bool :=
  s.isSteady m && !m.isBinding

end Server

namespace House

open Server (Follows)

variable {h i j : House μ} {m : Move} {ms ns : List Move} {l n r : Nat} {c : Server.Call} {result : Except Error Unit}
  {s : Server μ}

/-! ## What has come out -/

theorem outcome_of_step (hstep : h.step m = some i) (hc : h.server.calls[n]? = some c)
    (hr : c.result? = some result) : i.server.calls[n]? = some c := by
  rcases step_cases hstep with ⟨_, -, hs⟩ | ⟨o, heq, -⟩
  · exact Server.outcome_of_access (Server.access_of_step hs) hc hr
  · rw [heq]
    exact hc

theorem outcome_of_reaches (hr : Reaches h ms i) (hc : h.server.calls[n]? = some c)
    (hres : c.result? = some result) : i.server.calls[n]? = some c :=
  hr.preserves (fun hstep hc => outcome_of_step hstep hc hres) hc

/-! ## Registrars that leave the set alone -/

/-- Whatever happens, the registrar of round `r` neither enters anybody in the set any more nor erases anybody. -/
def Spares (h : House μ) (r : Nat) : Prop :=
  ∀ ms i j, Reaches h ms i → i.step (.server (.register r)) = some j → j.server.tracked = i.server.tracked

theorem unaltering_of_step (hstep : h.step m = some i) (ha : h.Accounted) (hu : h.server.Unaltering r) :
    i.server.Unaltering r := by
  rcases step_cases hstep with ⟨_, -, hs⟩ | ⟨o, heq, -⟩
  · exact Server.unaltering_of_access (Server.access_of_step hs) ha.ordered.mustered hu
  · rw [heq]
    exact hu

theorem spares_of_unaltering (ha : h.Accounted) (hu : h.server.Unaltering r) : h.Spares r := by
  intro ms i j hr hstep
  obtain ⟨-, hu'⟩ := hr.preserves (P := fun h : House μ => h.Accounted ∧ h.server.Unaltering r)
    (fun hstep hh => ⟨accounted_of_step hstep hh.1, unaltering_of_step hstep hh.1 hh.2⟩) ⟨ha, hu⟩
  exact Server.tracked_of_unaltering (Server.access_of_step (server_of_step hstep)) hu'

/-! ## Between a stop and the next run -/

/-- What is so of every server and of the stakes in its runs. -/
structure Settled (h : House μ) : Prop where
  accounted : h.Accounted
  sole : h.server.Sole

theorem settled_of_step (hstep : h.step m = some i) (hs : h.Settled) : i.Settled := by
  have ha := hs.accounted
  refine ⟨accounted_of_step hstep ha, ?_⟩
  rcases step_cases hstep with ⟨_, -, hserver⟩ | ⟨o, heq, -⟩
  · exact Server.sole_of_step hserver ha.ordered.mustered.lawful ha.parted ha.ordered.engaged hs.sole
  · rw [heq]
    exact Server.sole_of_drained hs.sole

theorem settled_of_reaches (hr : Reaches h ms i) (hs : h.Settled) : i.Settled :=
  hr.preserves settled_of_step hs

theorem settled_of_build {b : Builder μ} (hb : b.build = .ok s) : ({ server := s } : House μ).Settled :=
  ⟨accounted_of_build hb, Server.sole_of_build hb⟩

/-- What is so while operation `l`, a stop, leaves nothing behind, and afterwards. -/
structure Subsiding (h : House μ) (l : Nat) : Prop where
  settled : h.Settled
  calm : h.server.Calm l
  clearing : h.server.Clearing l

/-- No run is bound, and the flag is lowered neither in the middle of a stop nor while a registrar may go on to look at
it. -/
def Resting : House μ → List Move → House μ → Prop :=
  Along Server.isResting

theorem subsiding_of_step (hstep : h.step m = some i) (hm : ∀ n, m = .server n → h.server.isResting n = true)
    (hs : h.Subsiding l) : i.Subsiding l := by
  have ha := hs.settled.accounted
  have hi := settled_of_step hstep hs.settled
  rcases step_cases hstep with ⟨n, rfl, hserver⟩ | ⟨o, heq, -⟩
  · have haccess := Server.access_of_step hserver
    obtain ⟨hsteady, hbinding⟩ : h.server.isSteady n = true ∧ n.isBinding = false := by
      simpa [Server.isResting] using hm n rfl
    exact ⟨hi, Server.calm_of_access haccess hbinding hs.calm,
      Server.clearing_of_access haccess hsteady ha.ordered.mustered ha.posted ha.relayed hi.accounted.ordered.engaged
        hs.settled.sole hs.calm hs.clearing⟩
  · refine ⟨hi, ?_, ?_⟩ <;> rw [heq]
    · exact ⟨hs.calm.closer, hs.calm.stops⟩
    · cases hs.clearing with
      | barring hc => exact .barring hc
      | sweeping hc hs hb => exact .sweeping hc hs (Server.barred_of_drained hb)
      | cleared hc hs hb hnil => exact .cleared hc hs (Server.barred_of_drained hb) hnil

theorem subsiding_of_resting (hr : Resting h ms i) (hs : h.Subsiding l) : i.Subsiding l := by
  induction hr with
  | refl => exact hs
  | step hstep hm _ ih => exact ih (subsiding_of_step hstep hm hs)

/-- A stop that comes out well has left nothing behind. -/
theorem subsiding_of_stopped (hr : Resting h (.server .stop :: ms) i) (hs : h.Settled)
    (hdone : i.server.calls[h.server.calls.length]? = some (.halted (.ok ()))) :
    i.Subsiding h.server.calls.length := by
  cases hr with
  | step hstep _ hrest =>
      rcases Server.calm_of_stop (Server.access_of_step (server_of_step hstep)) hs.sole with ⟨hcalm, k, hk⟩ | hrefused
      · exact subsiding_of_resting hrest ⟨settled_of_step hstep hs, hcalm, .barring hk⟩
      · have hrefused' := outcome_of_reaches hrest.reaches hrefused rfl
        simp [hdone] at hrefused'

theorem follows_of_step (hstep : h.step m = some i) (hs : h.Subsiding l)
    (hdone : h.server.calls[l]? = some (.halted (.ok ()))) (hf : Follows s h.server) : Follows s i.server := by
  rcases step_cases hstep with ⟨_, -, hserver⟩ | ⟨o, heq, -⟩
  · have hm := hs.settled.accounted.ordered.mustered
    obtain ⟨hbarred, -⟩ := hs.clearing.of_halted hdone
    exact Server.follows_of_access (Server.access_of_step hserver) hm
      (fun _ _ => Server.raised_of_admitting hs.calm hs.settled.sole hm.lawful hdone rfl hbarred) hf
  · rw [heq]
    exact ⟨hf.takesIn, hf.running⟩

theorem follows_of_resting (hr : Resting h ms i) (hs : h.Subsiding l)
    (hdone : h.server.calls[l]? = some (.halted (.ok ()))) (hf : Follows s h.server) : Follows s i.server := by
  induction hr with
  | refl => exact hf
  | step hstep hm _ ih =>
      exact ih (subsiding_of_step hstep hm hs) (outcome_of_step hstep hdone rfl) (follows_of_step hstep hs hdone hf)

/-- A registrar that has been told to end alters the set at most once more, namely if it has a report in hand that the
set does not reflect, or is poised to take one.

From a stop that comes out well until the next run is bound, nobody is in the set, and nobody starts but the attendant
of a connection that the loop was taking in when the stop came out, having found the flag down.  This is provided no
run lowers the flag in the middle of the stop, or while a registrar may go on to look at it. -/
theorem idle_of_stop {b : Builder μ} (hb : b.build = .ok s) (hr : Reaches { server := s } ms h) :
    (∀ (r : Nat) (round : Round), h.server.rounds[r]? = some round → round.quit = true →
      (round.alters = false → h.Spares r) ∧
      ∀ i, h.step (.server (.register r)) = some i → i.server.tracked ≠ h.server.tracked → i.Spares r) ∧
    ∀ ns i os j, Resting h (.server .stop :: ns) i →
      i.server.calls[h.server.calls.length]? = some (.halted (.ok ())) → Resting i os j →
      j.server.length = 0 ∧ ∀ a, j.server.statusOf a = .running →
        i.server.statusOf a = .running ∨ a = i.server.members.length ∧ i.server.TakesIn := by
  have hs : h.Settled := settled_of_reaches hr (settled_of_build hb)
  refine ⟨fun r round hround hq => ⟨fun ha => ?_, fun i hstep hne => ?_⟩, fun ns i os j hi hdone hj => ?_⟩
  · exact spares_of_unaltering hs.accounted ⟨round, hround, hq, ha⟩
  · have haccess := Server.access_of_step (server_of_step hstep)
    exact spares_of_unaltering (accounted_of_step hstep hs.accounted)
      (Server.unaltering_of_altered haccess hround hq hne)
  · have hsubsiding := subsiding_of_stopped hi hs hdone
    have hfollows := follows_of_resting hj hsubsiding hdone (.refl i.server)
    have hdone' := outcome_of_reaches hj.reaches hdone rfl
    obtain ⟨-, hnil⟩ := (subsiding_of_resting hj hsubsiding).clearing.of_halted hdone'
    exact ⟨congrArg List.length hnil, hfollows.running⟩

/-- One client is accepted, a stop comes out well, and everything ends. -/
theorem idle_of_one_client :
    ∃ h i j, twofold.build = .ok fresh.server ∧ Reaches fresh oneClient h ∧ h.server.length = 1 ∧
      Resting h (.server .stop :: List.replicate 5 halt) i ∧ Resting i (oneClientAfter.drop 5) j ∧
      (j.server.length = 0 ∧ ∀ a, j.server.statusOf a = .running →
        i.server.statusOf a = .running ∨ a = i.server.members.length ∧ i.server.TakesIn) ∧ j.Spares 0 := by
  obtain ⟨h, hh, hcheck⟩ := exists_of_run fresh oneClient
    (fun h : House Codec => decide (h.server.length = 1) && decide (h.server.calls.length = 1) &&
      (h.afterAlong Server.isResting (.server .stop :: List.replicate 5 halt)).any fun i : House Codec =>
        i.hasHalted 1 && (i.afterAlong Server.isResting (oneClientAfter.drop 5)).any fun j : House Codec =>
          j.server.rounds[0]?.any fun round => round.quit && !round.alters)
    (by decide +kernel)
  simp only [Bool.and_eq_true, decide_eq_true_eq, Option.any_eq_true, Bool.not_eq_true'] at hcheck
  obtain ⟨⟨hone, hlen⟩, i, hi, hhalted, j, hj, round, hround, hquit, halters⟩ := hcheck
  have hreach := reaches_of_after hh
  have hstop : Resting h (.server .stop :: List.replicate 5 halt) i := along_of_afterAlong hi
  have hlater : Resting i (oneClientAfter.drop 5) j := along_of_afterAlong hj
  have hidle := (idle_of_stop (b := twofold) rfl hreach).2 _ _ _ _ hstop (hlen ▸ calls_of_hasHalted hhalted) hlater
  have hreach' : Reaches fresh (oneClient ++ (.server .stop :: List.replicate 5 halt ++ oneClientAfter.drop 5)) j :=
    hreach.trans (hstop.reaches.trans hlater.reaches)
  have hspares := ((idle_of_stop (b := twofold) rfl hreach').1 0 round hround hquit).1 halters
  exact ⟨h, i, j, rfl, hreach, hone, hstop, hlater, hidle, hspares⟩

/-! ## What goes on after a stop -/

/-- The loop has found the flag down for a client when a stop comes out well. -/
def welcomed : List Move :=
  opening ++ [.server (.loop (.look 0)), .server (.loop (.accept 0 (.ok 0))), .server (.loop (.call 0)), work,
    .server .stop] ++ List.replicate 4 halt

theorem running_after_welcomed :
    ∃ i j, fresh.after welcomed = some i ∧ i.server.calls[1]? = some (.halted (.ok ())) ∧
      i.server.members.length = 0 ∧ i.after [work, work] = some j ∧ j.server.statusOf 0 = .running := by
  obtain ⟨i, hi, hcheck⟩ := exists_of_run fresh welcomed
    (fun i : House Codec => i.hasHalted 1 && decide (i.server.members.length = 0) &&
      (i.after [work, work]).any fun j : House Codec => decide (j.server.statusOf 0 = .running))
    (by decide +kernel)
  simp only [Bool.and_eq_true, decide_eq_true_eq, Option.any_eq_true] at hcheck
  obtain ⟨⟨hhalted, hnone⟩, j, hj, hrunning⟩ := hcheck
  exact ⟨i, j, hi, calls_of_hasHalted hhalted, hnone, hj, hrunning⟩

/-- Operation `l`, a stop, has come out well and is the last one, and somebody is in the set. -/
def Tracks (h : House μ) (l : Nat) : Prop :=
  h.server.calls.length = l + 1 ∧ h.server.calls[l]? = some (.halted (.ok ())) ∧ h.server.length = 1

theorem tracks_of_run {ms : List Move}
    (hcheck : ((fresh.after ms).any fun j : House Codec =>
      decide (j.server.calls.length = l + 1) && j.hasHalted l && decide (j.server.length = 1)) = true) :
    ∃ j, fresh.after ms = some j ∧ j.Tracks l := by
  obtain ⟨j, hj, hcheck⟩ := exists_of_run fresh ms _ hcheck
  simp only [Bool.and_eq_true, decide_eq_true_eq] at hcheck
  obtain ⟨⟨hlast, hhalted⟩, hone⟩ := hcheck
  exact ⟨j, hj, hlast, calls_of_hasHalted hhalted, hone⟩

/-- A registrar has a start in hand when its run has ended.  A stop of another run comes out well, and that run begins
only then and lowers the flag. -/
def relowered : List Move :=
  inHand ++ [.server .run, .server (.bind 2 (.ok default)), .server (.advance 2), .server .stop] ++
    List.replicate 4 (.server (.advance 3)) ++ [.server (.loop (.begin 1)), work 1, work 1, register]

/-- The second run begins, and accepts a client. -/
def secondClient : List Move :=
  [.server (.loop (.begin 1))] ++ List.replicate 5 (work 1) ++ arrival 0 1 ++ admission 0 1 ++ reflection 1

/-- After a stop that comes out well another run is bound, and it accepts a client before it comes out itself. -/
def hasty : List Move :=
  opening ++ [.server .stop] ++ List.replicate 4 halt ++ closing ++ [.server .run, .server (.bind 2 (.ok default))] ++
    secondClient

/-- Whether operation `l` is a run that is bound and has not come out. -/
def isBound (h : House μ) (l : Nat) : Bool :=
  match h.server.calls[l]? with
  | some (.keeping _) => true
  | _ => false

theorem calls_of_isBound (hh : h.isBound l = true) : ∃ k, h.server.calls[l]? = some (.keeping k) := by
  unfold isBound at hh
  split at hh
  · exact ⟨_, by assumption⟩
  · simp at hh

theorem tracked_after_hasty :
    ∃ j k, fresh.after hasty = some j ∧ j.server.calls[1]? = some (.halted (.ok ())) ∧
      j.server.calls[2]? = some (.keeping k) ∧ j.server.length = 1 ∧ j.server.statusOf 0 = .running := by
  obtain ⟨j, hj, hcheck⟩ := exists_of_run fresh hasty
    (fun j => j.hasHalted 1 && j.isBound 2 && decide (j.server.length = 1) && decide (j.server.statusOf 0 = .running))
    (by decide +kernel)
  simp only [Bool.and_eq_true, decide_eq_true_eq] at hcheck
  obtain ⟨⟨⟨hhalted, hkeeping⟩, hone⟩, hrunning⟩ := hcheck
  obtain ⟨k, hk⟩ := calls_of_isBound hkeeping
  exact ⟨j, k, hj, calls_of_hasHalted hhalted, hk, hone, hrunning⟩

/-- A stop has still to empty the set, but its run ends, and another run comes out well. -/
def meanwhile : List Move :=
  opening ++ [.server .stop, halt, halt] ++ closing ++
    [.server .run, .server (.bind 2 (.ok default)), .server (.advance 2)]

/-- Whether operation `l` is a run that has come out well. -/
def hasRun (h : House μ) (l : Nat) : Bool :=
  match h.server.calls[l]? with
  | some (.ran (.ok _)) => true
  | _ => false

theorem calls_of_hasRun (hh : h.hasRun l = true) : h.server.calls[l]? = some (.ran (.ok ())) := by
  unfold hasRun at hh
  split at hh
  · assumption
  · simp at hh

theorem tracked_after_meanwhile :
    ∃ i j c, fresh.after meanwhile = some i ∧ i.server.calls[1]? = some c ∧ c.isSweeping = true ∧
      i.server.calls[2]? = some (.ran (.ok ())) ∧ i.after ([halt, halt] ++ secondClient) = some j ∧
      j.server.calls.length = 3 ∧ j.server.calls[1]? = some (.halted (.ok ())) ∧ j.server.length = 1 ∧
      j.server.statusOf 0 = .running := by
  obtain ⟨i, hi, hcheck⟩ := exists_of_run fresh meanwhile
    (fun i : House Codec => i.server.calls[1]?.any Server.Call.isSweeping && i.hasRun 2 &&
      (i.after ([halt, halt] ++ secondClient)).any fun j : House Codec => decide (j.server.calls.length = 3) &&
        j.hasHalted 1 && decide (j.server.length = 1) && decide (j.server.statusOf 0 = .running))
    (by decide +kernel)
  simp only [Bool.and_eq_true, decide_eq_true_eq, Option.any_eq_true] at hcheck
  obtain ⟨⟨⟨c, hc, hsweeping⟩, hran⟩, j, hj, ⟨⟨hlast, hhalted⟩, hone⟩, hrunning⟩ := hcheck
  exact ⟨i, j, c, hi, hc, hsweeping, calls_of_hasRun hran, hj, hlast, calls_of_hasHalted hhalted, hone, hrunning⟩

theorem entered_after_inHand :
    ∃ i j, fresh.after (inHand ++ opening 1 2) = some i ∧
      (∃ round : Round, i.server.rounds[0]? = some round ∧ round.quit = true) ∧
      i.server.tracked = [] ∧ i.step register = some j ∧ j.server.tracked = [0] := by
  obtain ⟨i, hi, hcheck⟩ := exists_of_run fresh (inHand ++ opening 1 2)
    (fun i : House Codec => i.server.rounds[0]?.any (fun round => round.quit) && decide (i.server.tracked = []) &&
      (i.step register).any fun j : House Codec => decide (j.server.tracked = [0]))
    (by decide +kernel)
  simp only [Bool.and_eq_true, decide_eq_true_eq, Option.any_eq_true] at hcheck
  obtain ⟨⟨hquit, hempty⟩, j, hj, hentered⟩ := hcheck
  exact ⟨i, j, hi, hquit, hempty, hj, hentered⟩

/-- A client starts that the loop was taking in when a stop came out well.  After the last stop has come out well
somebody is in the set for whom the flag was lowered behind the back of the stop, or by a run that began only then.  So
is a client of a run that is bound and has not come out, or that has come out while the stop was under way.  A registrar
that has been told to end enters the attendant that it has in hand. -/
theorem busy_of_races :
    twofold.build = .ok fresh.server ∧
    (∃ i j, fresh.after welcomed = some i ∧ i.server.calls[1]? = some (.halted (.ok ())) ∧
      i.server.members.length = 0 ∧ i.after [work, work] = some j ∧ j.server.statusOf 0 = .running) ∧
    (∃ j, fresh.after (early ++ .server .stop :: earlyAfter) = some j ∧ j.Tracks 1) ∧
    (∃ j, fresh.after relowered = some j ∧ j.Tracks 3) ∧
    (∃ j k, fresh.after hasty = some j ∧ j.server.calls[1]? = some (.halted (.ok ())) ∧
      j.server.calls[2]? = some (.keeping k) ∧ j.server.length = 1 ∧ j.server.statusOf 0 = .running) ∧
    (∃ i j c, fresh.after meanwhile = some i ∧ i.server.calls[1]? = some c ∧ c.isSweeping = true ∧
      i.server.calls[2]? = some (.ran (.ok ())) ∧ i.after ([halt, halt] ++ secondClient) = some j ∧
      j.server.calls.length = 3 ∧ j.server.calls[1]? = some (.halted (.ok ())) ∧ j.server.length = 1 ∧
      j.server.statusOf 0 = .running) ∧
    ∃ i j, fresh.after (inHand ++ opening 1 2) = some i ∧
      (∃ round : Round, i.server.rounds[0]? = some round ∧ round.quit = true) ∧
      i.server.tracked = [] ∧ i.step register = some j ∧ j.server.tracked = [0] :=
  ⟨rfl, running_after_welcomed, tracks_of_run (by decide +kernel), tracks_of_run (by decide +kernel),
    tracked_after_hasty, tracked_after_meanwhile, entered_after_inHand⟩

end House
end Courier
