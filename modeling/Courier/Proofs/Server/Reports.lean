import Courier.Proofs.Server.Completion
import Courier.Proofs.Server.Undisturbed

/-!
# Reports — what the consumer learns of attendants

Whatever happens to a server, the reports on its attendants that reach the consumer come in order, each once, and they
agree with the set.  A registrar looks whether it has been told to end before it passes a report on, not while it does
so; one report may therefore come behind the end of its run.

- `House.Accounted`, `House.accounted_of_reaches` — what is so of every server and its reports,
- `House.Watched`, `House.watched_of_reaches` — what is so besides while nobody stops the server,
- `House.reports_of_reaches` — order, uniqueness and agreement with the set,
- `House.reports_of_races` — runs that show what the conditions are for.
-/

namespace Courier

variable {μ : Type} [Marshaler μ]

/-- Whether a report is about an end. -/
def Notice.isEnd : Notice → Bool
  | .started _ => false
  | .stopped _ _ => true

/-- The report that a registrar is poised to pass on, whatever it is told meanwhile. -/
def Round.held? (round : Round) : Option Notice :=
  if round.poised then
    match round.registrar with
    | .announcing a => some (.started a)
    | .reporting a ending => some (.stopped a ending)
    | _ => none
  else none

namespace Server

variable {s t u : Server μ} {m : Move} {a : AttendantId} {x : Member μ} {k l n r : Nat} {o : Outlets}
  {round round' : Round} {last last' : Option Notice}

/-! ## Who has been accepted by whom -/

/-- Run `k` has accepted attendant `a`. -/
def Accepted (s : Server μ) (k : Nat) (a : AttendantId) : Prop :=
  ∃ x, s.members[a]? = some x ∧ s.runOf? x = some k

theorem accepted_of_access (h : Access s m t) (ha : s.Accepted k a) : t.Accepted k a := by
  obtain ⟨x, hx, hk⟩ := ha
  obtain ⟨y, hy, hyr, -⟩ := member_persists h hx
  exact ⟨y, hy, runOf?_of_access h hyr hk⟩

theorem Accepted.unique (h : s.Accepted k a) (h' : s.Accepted l a) : k = l := by
  obtain ⟨x, hx, hk⟩ := h
  obtain ⟨y, hy, hl⟩ := h'
  obtain rfl := Option.some.inj (hx.symm.trans hy)
  exact Option.some.inj (hk.symm.trans hl)

/-- An attendant is not accepted by another run later on. -/
theorem accepted_from (h : Access s m t) (hm : s.Mustered) (hx : s.members[a]? = some x)
    (ha : t.Accepted k a) : s.Accepted k a := by
  obtain ⟨l, hl⟩ := (hm.enrolled a x hx).run
  have hown : s.Accepted l a := ⟨x, hx, hl⟩
  obtain rfl := (accepted_of_access h hown).unique ha
  exact hown

/-- The registrar has dealt with the end of an attendant. -/
def Processed (s : Server μ) (a : AttendantId) : Prop :=
  ∃ x round e, s.members[a]? = some x ∧ s.rounds[x.round]? = some round ∧
    .stopped a e ∈ round.inbox.passed ∧ round.registrar ≠ .erasing a e

/-- Where no registrar has taken an end, none has dealt with one. -/
theorem not_processed (h : ∀ round ∈ s.rounds, round.inbox.passed.any Notice.isEnd = false) : ¬ s.Processed a := by
  rintro ⟨x, round, e, -, hr, hpassed, -⟩
  have hnone := h round (List.mem_of_getElem? hr)
  simp only [List.any_eq_false] at hnone
  exact hnone _ hpassed rfl

/-! ## What has been passed on -/

theorem Relayed.filed_of_known (hs : s.Relayed) (hp : s.Posted)
    (ha : a ∈ s.tracked ∨ a ∈ s.outlets.attendantStarted.sent ∨ s.HasEnded a) :
    ∃ x round, s.members[a]? = some x ∧ s.rounds[x.round]? = some round ∧
      s.Filed a (round.heard a) round.registrar := by
  obtain ⟨x, hx⟩ := hs.known a ha
  obtain ⟨round, hr, -⟩ := hp.joined a x hx
  exact ⟨x, round, hx, hr, hs.filed a x round hx hr⟩

/-- An end is passed on after the start, as far as anybody receives that, and after the attendant has left the set. -/
theorem Relayed.of_hasEnded (hs : s.Relayed) (hp : s.Posted) (ha : s.HasEnded a) :
    (s.IsLost ∨ a ∈ s.outlets.attendantStarted.sent) ∧ a ∉ s.tracked := by
  obtain ⟨x, round, -, -, hf⟩ := hs.filed_of_known hp (.inr (.inr ha))
  generalize round.heard a = ns, round.registrar = g at hf
  cases hf with
  | ended _ _ hstarted htracked => exact ⟨hstarted ha, htracked (.inr ha)⟩
  | unheard _ _ _ he | entering _ _ he | announcing _ he | begun _ _ he | erasing _ _ he
  | reporting _ _ _ he => exact absurd ha he

theorem hasEnded_of_access (h : Access s m t) (ha : s.HasEnded a) : t.HasEnded a := by
  rcases (effect_of_relay (relay_of_access h)).stopped_from with heq | ⟨_, _, _, _, -, -, -, heq⟩
  · rwa [HasEnded, heq]
  · rw [HasEnded, heq, List.map_append]
    exact List.mem_append_left _ ha

/-- What is passed on between two moments is not about attendants of run `k`, except for a given report. -/
def Silent (k : Nat) (last : Option Notice) (s t : Server μ) : Prop :=
  ∃ starts ends, t.outlets.attendantStarted.sent = s.outlets.attendantStarted.sent ++ starts ∧
    t.outlets.attendantStopped.sent = s.outlets.attendantStopped.sent ++ ends ∧
    (∀ a ∈ starts, t.Accepted k a → last = some (.started a)) ∧
    ∀ p ∈ ends, t.Accepted k p.1 → last = some (.stopped p.1 p.2)

theorem Silent.of_eq (hs : t.outlets.attendantStarted.sent = s.outlets.attendantStarted.sent)
    (he : t.outlets.attendantStopped.sent = s.outlets.attendantStopped.sent) : Silent k last s t :=
  ⟨[], [], by rw [hs, List.append_nil], by rw [he, List.append_nil], by simp, by simp⟩

/-- A registrar has the attendants of its own run in hand. -/
theorem registrar_of_accepted (hm : s.Mustered) (hp : s.Posted) (hk : s.agenda.begun[r]? = some k) {i : Nat}
    (hi : s.rounds[i]? = some round) (ha : round.registrar.subject? = some a) (haccepted : s.Accepted k a) : i = r := by
  obtain ⟨y, hy, hrun⟩ := haccepted
  obtain ⟨x, hx, rfl⟩ := hp.subject i round a hi ha
  obtain rfl := Option.some.inj (hx.symm.trans hy)
  exact hm.lawful.begun_inj hrun hk

/-- Of the attendants of its run, a registrar passes on the report that it is poised to pass on. -/
theorem silent_of_access (h : Access s m t) (hm : s.Mustered) (hp : s.Posted) (hk : s.agenda.begun[r]? = some k)
    (hr : s.rounds[r]? = some round) : Silent k round.held? s t := by
  have heffect := effect_of_relay (relay_of_access h)
  -- whoever of them is passed on is in the hand of this registrar
  have hown : ∀ {i : Nat} {found : Round} {a : AttendantId}, s.rounds[i]? = some found →
      found.registrar.subject? = some a → t.Accepted k a → found = round := by
    intro i found a hi ha haccepted
    obtain ⟨x, hx, -⟩ := hp.subject i found a hi ha
    obtain rfl := registrar_of_accepted hm hp hk hi ha (accepted_from h hm hx haccepted)
    exact Option.some.inj (hi.symm.trans hr)
  have hstarts : ∃ starts, t.outlets.attendantStarted.sent = s.outlets.attendantStarted.sent ++ starts ∧
      ∀ a ∈ starts, t.Accepted k a → round.held? = some (.started a) := by
    rcases heffect.started_from with heq | ⟨i, found, a, hi, hg, hl, heq⟩
    · exact ⟨[], by rw [heq, List.append_nil], by simp⟩
    · refine ⟨[a], heq, fun b hb haccepted => ?_⟩
      obtain rfl := List.mem_singleton.1 hb
      obtain rfl := hown hi (hg ▸ rfl) haccepted
      simp [Round.held?, hg, hl]
  have hends : ∃ ends, t.outlets.attendantStopped.sent = s.outlets.attendantStopped.sent ++ ends ∧
      ∀ p ∈ ends, t.Accepted k p.1 → round.held? = some (.stopped p.1 p.2) := by
    rcases heffect.stopped_from with heq | ⟨i, found, a, e, hi, hg, hl, heq⟩
    · exact ⟨[], by rw [heq, List.append_nil], by simp⟩
    · refine ⟨[(a, e)], heq, fun p hp haccepted => ?_⟩
      obtain rfl := List.mem_singleton.1 hp
      obtain rfl := hown hi (hg ▸ rfl) haccepted
      simp [Round.held?, hg, hl]
  obtain ⟨starts, hst, hsilent⟩ := hstarts
  obtain ⟨ends, hen, hsilent'⟩ := hends
  exact ⟨starts, ends, hst, hen, hsilent, hsilent'⟩

/-- A registrar that has been told to end comes to be poised no more. -/
theorem RelayGoes.held (h : RelayGoes s m t r round round') (hq : round.quit = true) :
    round'.held? = round.held? ∨ round'.held? = none := by
  cases h with
  | dismissed _ _ | offered _ _ _ _ _ => exact .inl rfl
  | hired _ _ => exact .inr (by simp [Round.held?])
  | poised _ hlow _ =>
      refine .inr ?_
      simp only [Round.held?, ite_eq_right_iff]
      intro hb
      simp [hq] at hlow
      simp [hlow] at hb
  | _ => exact .inr rfl

theorem Silent.trans (hst : Silent k last s t) (htu : Silent k last' t u) (hlast : last' = last ∨ last' = none)
    (hm : t.Mustered) (hr : t.Relayed) (hon : ∀ {l a}, t.Accepted l a → u.Accepted l a) : Silent k last s u := by
  obtain ⟨starts, ends, hstarts, hends, hsilent, hsilent'⟩ := hst
  obtain ⟨starts', ends', hstarts', hends', hlater, hlater'⟩ := htu
  -- whoever has been passed on by the first moment is a member, and stays one of its run
  have hback : ∀ {a}, a ∈ t.outlets.attendantStarted.sent ∨ t.HasEnded a → u.Accepted k a → t.Accepted k a := by
    intro a ha hlate
    obtain ⟨x, hx⟩ := hr.known a (.inr ha)
    obtain ⟨l, hl⟩ := (hm.enrolled a x hx).run
    have hown : t.Accepted l a := ⟨x, hx, hl⟩
    obtain rfl := (hon hown).unique hlate
    exact hown
  have hkept : ∀ {n : Notice}, last' = some n → last = some n := by
    rintro n hn
    rcases hlast with rfl | rfl
    · exact hn
    · simp at hn
  refine ⟨starts ++ starts', ends ++ ends', ?_, ?_, fun a ha haccepted => ?_, fun p hp haccepted => ?_⟩
  · rw [hstarts', hstarts, List.append_assoc]
  · rw [hends', hends, List.append_assoc]
  · rcases List.mem_append.1 ha with ha | ha
    · exact hsilent a ha (hback (.inl (hstarts ▸ List.mem_append_right _ ha)) haccepted)
    · exact hkept (hlater a ha haccepted)
  · rcases List.mem_append.1 hp with hp | hp
    · refine hsilent' p hp (hback (.inr ?_) haccepted)
      rw [HasEnded, hends, List.map_append]
      exact List.mem_append_right _ (List.mem_map_of_mem hp)
    · exact hkept (hlater' p hp haccepted)

/-- Whoever is shown and has been passed on is in the set, or its end has been dealt with. -/
theorem tracked_or_processed (hs : s.Kept n) (hr : s.Relayed) (hp : s.Posted) (hn : n ≤ k) (hk : s.Accepted k a)
    (ha : a ∈ s.outlets.attendantStarted.sent) : a ∈ s.tracked ∨ s.Processed a := by
  obtain ⟨x, hx, hrun⟩ := hk
  obtain ⟨y, round, hy, hround, hf⟩ := hr.filed_of_known hp (.inr (.inl ha))
  obtain rfl := Option.some.inj (hx.symm.trans hy)
  have hshown := hs a x k round hx hrun hn hround
  -- a start that has been passed on has been heard and dealt with
  have hmem : .started a ∈ round.heard a ∧ round.registrar ≠ .entering a := by
    generalize round.heard a = ns, round.registrar = g at hf
    cases hf with
    | unheard _ _ hnot _ => exact absurd ha hnot
    | entering _ hnot _ => exact absurd ha hnot
    | announcing hnot _ => exact absurd ha hnot
    | begun hg _ _ => exact ⟨by simp, fun h => hg (h ▸ rfl)⟩
    | ended _ hg _ _ => exact ⟨by simp, fun h => hg (h ▸ rfl)⟩
    | erasing _ _ _ | reporting _ _ _ _ => exact ⟨by simp, by simp⟩
  rcases hshown hmem.1 hmem.2 with hin | ⟨e, he, hg⟩
  · exact .inl hin
  · exact .inr ⟨x, round, e, hx, hround, (List.mem_filter.1 he).1, hg⟩

end Server

namespace House

variable {h i j : House μ} {m : Move} {ms ns : List Move} {a : AttendantId} {k n r : Nat}

/-! ## Runs -/

theorem Reaches.trans (hr : Reaches h ms i) (hr' : Reaches i ns j) : Reaches h (ms ++ ns) j := by
  induction hr with
  | refl => exact hr'
  | step hstep _ ih => exact .step hstep (ih hr')

/-- What is so of every server and its reports. -/
structure Accounted (h : House μ) : Prop where
  ordered : h.Ordered
  posted : h.server.Posted
  relayed : h.server.Relayed
  parted : h.server.Parted

theorem accounted_of_step (hstep : h.step m = some i) (ha : h.Accounted) : i.Accounted := by
  have hordered := ordered_of_step hstep ha.ordered
  rcases step_cases hstep with ⟨n, -, hs⟩ | ⟨o, heq, hd⟩
  · have haccess := Server.access_of_step hs
    have hm := ha.ordered.mustered
    exact ⟨hordered, Server.posted_of_access haccess hm ha.posted,
      Server.relayed_of_access haccess hm ha.posted ha.relayed, Server.parted_of_access haccess hm.lawful ha.parted⟩
  · refine ⟨hordered, ?_, ?_, ?_⟩ <;> rw [heq]
    · exact Server.posted_of_drained ha.posted
    · exact Server.relayed_of_drained hd ha.relayed
    · exact ⟨ha.parted.asked, ha.parted.begun⟩

theorem accounted_of_reaches (hr : Reaches h ms i) (ha : h.Accounted) : i.Accounted :=
  hr.preserves accounted_of_step ha

theorem accounted_of_build {b : Builder μ} {s : Server μ} (hb : b.build = .ok s) :
    ({ server := s } : House μ).Accounted :=
  ⟨ordered_of_build hb, Server.posted_of_build hb, Server.relayed_of_build hb, Server.parted_of_build hb⟩

theorem accepted_of_step (hstep : h.step m = some i) (ha : h.server.Accepted k a) : i.server.Accepted k a := by
  rcases step_cases hstep with ⟨n, -, hs⟩ | ⟨o, heq, -⟩
  · exact Server.accepted_of_access (Server.access_of_step hs) ha
  · rw [heq]
    exact ha

theorem accepted_of_reaches (hr : Reaches h ms i) (ha : h.server.Accepted k a) : i.server.Accepted k a :=
  hr.preserves accepted_of_step ha

theorem hasEnded_of_step (hstep : h.step m = some i) (ha : h.server.HasEnded a) : i.server.HasEnded a := by
  rcases step_cases hstep with ⟨n, -, hs⟩ | ⟨o, heq, hd⟩
  · exact Server.hasEnded_of_access (Server.access_of_step hs) ha
  · rw [heq]
    exact (Server.unnoticed_of_drained hd a).ended.2 ha

theorem hasEnded_of_reaches (hr : Reaches h ms i) (ha : h.server.HasEnded a) : i.server.HasEnded a :=
  hr.preserves hasEnded_of_step ha

/-- Once its registrar has been told to end, a run is silent but for the report that the registrar is poised to pass
on. -/
theorem silent_of_reaches (hr : Reaches h ms i) (ha : h.Accounted) (hk : h.server.Dismissed k r) {round : Round}
    (hround : h.server.rounds[r]? = some round) : Server.Silent k round.held? h.server i.server := by
  induction hr generalizing round with
  | refl => exact .of_eq rfl rfl
  | @step h i j m ms hstep hrest ih =>
      have hi := accounted_of_step hstep ha
      have hon : ∀ {l a}, i.server.Accepted l a → j.server.Accepted l a := accepted_of_reaches hrest
      rcases step_cases hstep with ⟨n, -, hs⟩ | ⟨o, heq, hd⟩
      · have haccess := Server.access_of_step hs
        have hfirst := Server.silent_of_access haccess ha.ordered.mustered ha.posted hk.1 hround
        obtain ⟨round', hround', hgoes⟩ := (Server.relay_of_access haccess).round_to hround
        have hrest := ih hi (Server.dismissed_of_access haccess hk) hround'
        refine hfirst.trans hrest ?_ hi.ordered.mustered hi.relayed hon
        rcases hgoes with rfl | hgoes
        · exact .inl rfl
        · obtain ⟨-, b, hb⟩ := hk
          exact hgoes.held (congrArg Prod.snd (Server.badge_of_round hround hb))
      · -- the consumer takes reports, and passes none on
        have hk' : i.server.Dismissed k r := by
          rw [heq]
          exact hk
        have hround' : i.server.rounds[r]? = some round := by
          rw [heq]
          exact hround
        refine Server.Silent.trans (.of_eq ?_ ?_) (ih hi hk' hround') (.inl rfl) hi.ordered.mustered hi.relayed hon
        · rw [heq]
          exact hd.attendantStarted.sent
        · rw [heq]
          exact hd.attendantStopped.sent

/-- What is so of the runs from the `n`-th on while nobody stops the server. -/
structure Watched (h : House μ) (n : Nat) : Prop where
  undisturbed : h.server.Undisturbed n
  kept : h.server.Kept n

/-- A move that begins no stop. -/
def Move.isCalm : Move → Bool
  | .server m => !m.isStop
  | _ => true

theorem watched_of_step (hstep : h.step m = some i) (hm : m.isCalm = true) (ha : h.Accounted)
    (hw : h.Watched n) : i.Watched n := by
  rcases step_cases hstep with ⟨l, rfl, hs⟩ | ⟨o, heq, -⟩
  · have haccess := Server.access_of_step hs
    have hstop : l.isStop = false := by simpa [Move.isCalm] using hm
    exact ⟨Server.undisturbed_of_access haccess hstop ha.ordered.mustered.lawful hw.undisturbed,
      Server.kept_of_access haccess ha.ordered.mustered ha.posted ha.relayed ha.parted hw.undisturbed hw.kept⟩
  · have hu := hw.undisturbed
    refine ⟨?_, ?_⟩ <;> rw [heq]
    · exact ⟨hu.callers, hu.asked, hu.hiring, hu.flag⟩
    · exact hw.kept

theorem watched_of_reaches (hr : Reaches h ms i) (hms : ∀ m ∈ ms, m.isCalm = true) (ha : h.Accounted)
    (hw : h.Watched n) : i.Watched n := by
  induction hr with
  | refl => exact hw
  | @step h i j m ms hstep _ ih =>
      refine ih (fun l hl => hms l (List.mem_cons_of_mem _ hl)) (accounted_of_step hstep ha) ?_
      exact watched_of_step hstep (hms _ (List.mem_cons_self ..)) ha hw

theorem watched_of_unhalted (ho : h.Ordered) (hu : h.server.Unhalted) :
    h.Watched h.server.dispatcher.runs.length :=
  ⟨Server.undisturbed_of_unhalted ho.mustered.lawful hu, Server.kept_of_lawful ho.mustered.lawful⟩

/-! ## Reports -/

/-- A move that reports the end of a run is one of its loop, and the run is silent from then on but for the report
that its registrar is poised to pass on. -/
theorem silent_of_stopped (ha : h.Accounted) (hstep : h.step m = some i)
    (hne : i.server.outlets.stopped.sent ≠ h.server.outlets.stopped.sent) :
    ∃ (k : Nat) (intact : Bool) (r : Nat) (round : Round), m = .server (.work k intact) ∧
      i.server.agenda.begun[r]? = some k ∧
      i.server.rounds[r]? = some round ∧
      ∀ ns j, Reaches i ns j → Server.Silent k round.held? i.server j.server := by
  rcases step_cases hstep with ⟨n, rfl, hs⟩ | ⟨o, heq, hd⟩
  · have haccess := Server.access_of_step hs
    rcases Server.stopped_or_parting haccess with heq | ⟨k, intact, rfl, hduty⟩
    · exact absurd (congrArg Channel.sent heq) hne
    · obtain ⟨r, hdismissed⟩ := Server.dismissed_of_parting ha.ordered.mustered.lawful hduty
      have hdismissed' := Server.dismissed_of_access haccess hdismissed
      obtain ⟨hbegun, b, hb⟩ := hdismissed'
      obtain ⟨round, hround, -⟩ := Server.round_at hb
      exact ⟨k, intact, r, round, rfl, hbegun, hround, fun ns j hr =>
        silent_of_reaches hr (accounted_of_step hstep ha) ⟨hbegun, b, hb⟩ hround⟩
  · have hsent := hd.stopped.sent
    rw [heq] at hne
    exact absurd hsent hne

/-- The reports on attendants that are passed on.

- Each start is passed on once, and so is each end.
- An end is passed on after the start, as long as somebody receives starts, and whoever's end has been passed on is
  not in the set and never enters it again.
- Once the end of a run has been reported, nothing is passed on that is about an attendant of the run, except for the
  one report that its registrar is poised to pass on then.
- Say that no stop is under way, and that none is begun from then on.  If a run that has not claimed the server by
  then accepts an attendant whose start is passed on, the attendant is in the set unless the registrar has dealt with
  its end. -/
theorem reports_of_reaches {b : Builder μ} {s : Server μ} (hb : b.build = .ok s) (hr : Reaches { server := s } ms h) :
    h.server.outlets.attendantStarted.sent.Nodup ∧
    (h.server.outlets.attendantStopped.sent.map Prod.fst).Nodup ∧
    (∀ a, h.server.HasEnded a →
      (h.server.outlets.attendantStarted.closed = false → a ∈ h.server.outlets.attendantStarted.sent) ∧
      ∀ ns j, Reaches h ns j → a ∉ j.server.tracked) ∧
    (∀ m i, h.step m = some i → i.server.outlets.stopped.sent ≠ h.server.outlets.stopped.sent →
      ∃ (k : Nat) (intact : Bool) (r : Nat) (round : Round), m = .server (.work k intact) ∧
        i.server.agenda.begun[r]? = some k ∧
        i.server.rounds[r]? = some round ∧
        ∀ ns j, Reaches i ns j → Server.Silent k round.held? i.server j.server) ∧
    (h.server.Unhalted → ∀ ns j, Reaches h ns j → (∀ m ∈ ns, m.isCalm = true) →
      ∀ k a, h.server.dispatcher.runs.length ≤ k → j.server.Accepted k a →
        a ∈ j.server.outlets.attendantStarted.sent → a ∈ j.server.tracked ∨ j.server.Processed a) := by
  have ha : h.Accounted := accounted_of_reaches hr (accounted_of_build hb)
  refine ⟨ha.relayed.started, ha.relayed.ended, fun a hend => ⟨fun hopen => ?_, fun ns j hr' => ?_⟩,
    fun m i hstep hne => ?_, fun hu ns j hr' hcalm k a hk haccepted hsent => ?_⟩
  · refine (ha.relayed.of_hasEnded ha.posted hend).1.resolve_left fun hlost => ?_
    simp [Server.IsLost, hopen] at hlost
  · have hj := accounted_of_reaches hr' ha
    exact (hj.relayed.of_hasEnded hj.posted (hasEnded_of_reaches hr' hend)).2
  · exact silent_of_stopped ha hstep hne
  · have hj := accounted_of_reaches hr' ha
    have hwatched := watched_of_reaches hr' hcalm ha (watched_of_unhalted ha.ordered hu)
    exact Server.tracked_or_processed hwatched.kept hj.relayed hj.posted hk haccepted hsent

/-- One client is accepted, a stop ends everything, and its attendant does not come back. -/
theorem reports_of_one_client :
    ∃ h i j, twofold.build = .ok fresh.server ∧ fresh.after oneClient = some h ∧
      h.step (.server .stop) = some i ∧ i.after oneClientAfter = some j ∧
      0 ∈ h.server.outlets.attendantStarted.sent ∧ (0 ∈ h.server.tracked ∨ h.server.Processed 0) ∧
      j.server.HasEnded 0 ∧ 0 ∈ j.server.outlets.attendantStarted.sent ∧
      ∀ ns l, Reaches j ns l → 0 ∉ l.server.tracked := by
  obtain ⟨h, i, j, hh, hi, hj, hcheck⟩ := exists_of_check fresh oneClient oneClientAfter
    (fun h j => decide (0 ∈ h.server.outlets.attendantStarted.sent) &&
        h.server.members[0]?.any (fun x => decide (h.server.runOf? x = some 0)) &&
        decide (0 ∈ j.server.outlets.attendantStopped.sent.map Prod.fst) && !j.server.outlets.attendantStarted.closed)
    (by decide +kernel)
  simp only [Bool.and_eq_true, decide_eq_true_eq, Option.any_eq_true, Bool.not_eq_true'] at hcheck
  obtain ⟨⟨⟨hsent, haccepted⟩, hended⟩, hopen⟩ := hcheck
  have hcalm : ∀ m ∈ oneClient, m.isCalm = true := List.all_eq_true.1 (by decide +kernel)
  have hunhalted : fresh.server.Unhalted := by
    intro i c hc
    simp [fresh] at hc
  have hkept := (reports_of_reaches (b := twofold) rfl (.refl fresh)).2.2.2.2 hunhalted _ h (reaches_of_after hh)
    hcalm 0 0 (Nat.zero_le _) haccepted hsent
  have hreach : Reaches fresh (oneClient ++ .server .stop :: oneClientAfter) j :=
    (reaches_of_after hh).trans (.step hi (reaches_of_after hj))
  obtain ⟨hstarted, hgone⟩ := (reports_of_reaches (b := twofold) rfl hreach).2.2.1 0 hended
  exact ⟨h, i, j, rfl, hh, hi, hj, hsent, hkept, hended, hstarted hopen, hgone⟩

/-- The consumer gives up the reports on starts and nothing else, and an attendant comes and goes. -/
def unannounced : List Move :=
  .close .attendantStarted :: oneClient ++ leaving 0 ++ relaying

/-- An attendant goes, and its registrar is poised to report that when a stop ends the loop, which tells the registrar
to end and reports the end of the run. -/
def belated : List Move :=
  oneClient ++ leaving 0 ++ reflection ++ [register, .server .stop, halt, halt, .server (.loop (.quit 0)), work, work,
    work]

/-- A stop has asked its run to end and has the set to empty.  The run ends, and another one accepts a client. -/
def overtaken : List Move :=
  opening ++ [.server .stop, halt, halt] ++ closing ++ opening 1 2 ++ arrival 0 1 ++ admission 0 1 ++ relaying 1

/-- An end is passed on without the start, of which the consumer does not want to know.  A report on an attendant is
passed on behind the end of its run.  A stop of the run before takes an attendant out of the set. -/
theorem reports_of_races :
    twofold.build = .ok fresh.server ∧
    (∃ j, fresh.after unannounced = some j ∧ j.server.HasEnded 0 ∧ j.server.outlets.attendantStarted.sent = []) ∧
    (∃ i j, fresh.after belated = some i ∧ i.server.outlets.stopped.sent = [()] ∧ ¬ i.server.HasEnded 0 ∧
      i.step register = some j ∧ j.server.HasEnded 0) ∧
    ∃ i j, fresh.after overtaken = some i ∧ 0 ∈ i.server.tracked ∧ i.server.Accepted 1 0 ∧
      i.step halt = some j ∧ 0 ∈ j.server.outlets.attendantStarted.sent ∧ 0 ∉ j.server.tracked ∧
      ¬ j.server.Processed 0 := by
  refine ⟨rfl, ?_, ?_, ?_⟩
  · obtain ⟨j, hj, hcheck⟩ := exists_of_run fresh unannounced
      (fun j => decide (0 ∈ j.server.outlets.attendantStopped.sent.map Prod.fst) &&
        j.server.outlets.attendantStarted.sent.isEmpty)
      (by decide +kernel)
    simp only [Bool.and_eq_true, decide_eq_true_eq, List.isEmpty_iff] at hcheck
    exact ⟨j, hj, hcheck⟩
  · obtain ⟨i, hi, hcheck⟩ := exists_of_run fresh belated
      (fun i : House Codec => decide (i.server.outlets.stopped.sent = [()]) &&
        decide (0 ∉ i.server.outlets.attendantStopped.sent.map Prod.fst) &&
        (i.step register).any fun j : House Codec => decide (0 ∈ j.server.outlets.attendantStopped.sent.map Prod.fst))
      (by decide +kernel)
    simp only [Bool.and_eq_true, decide_eq_true_eq, Option.any_eq_true] at hcheck
    obtain ⟨⟨hstopped, hnot⟩, j, hj, hended⟩ := hcheck
    exact ⟨i, j, hi, hstopped, hnot, hj, hended⟩
  · obtain ⟨i, hi, hcheck⟩ := exists_of_run fresh overtaken
      (fun i : House Codec => decide (0 ∈ i.server.tracked) &&
        i.server.members[0]?.any (fun x => decide (i.server.runOf? x = some 1)) &&
        (i.step halt).any fun j : House Codec => decide (0 ∈ j.server.outlets.attendantStarted.sent) &&
          decide (0 ∉ j.server.tracked) && j.server.rounds.all fun round => !round.inbox.passed.any Notice.isEnd)
      (by decide +kernel)
    simp only [Bool.and_eq_true, decide_eq_true_eq, Option.any_eq_true, List.all_eq_true, Bool.not_eq_true'] at hcheck
    obtain ⟨⟨htracked, haccepted⟩, j, hj, ⟨hstarted, hgone⟩, hnoend⟩ := hcheck
    exact ⟨i, j, hi, htracked, haccepted, hj, hstarted, hgone, Server.not_processed hnoend⟩

end House
end Courier
