import Courier.Proofs.Server.Relay

/-!
# Filing — how far registrars have come with each attendant

The start and the end of an attendant come to the consumer over two queues, the inbox of a round and a channel of
the server, with the registrar of the round between them.

- `Server.Filed` — how far the registrar has come with an attendant, with what the set and the channels show,
- `Server.Effect` — what shows of a move,
- `Server.Relayed`, `Server.relayed_of_access` — moves leave every attendant at one of these points.
-/

namespace Courier

variable {μ : Type} [Marshaler μ]

/-- The reports on an attendant that the registrar of a round has taken, oldest first. -/
def Round.heard (round : Round) (a : AttendantId) : List Notice :=
  round.inbox.passed.filter fun n => decide (n.attendant = a)

namespace Server

variable {s t : Server μ} {m : Move} {a b : AttendantId} {x y : Member μ} {r k : Nat} {round round' : Round}
  {g g' : Registrar} {ns : List Notice}

/-! ## Points of a report -/

/-- The end of an attendant has been passed on. -/
def HasEnded (s : Server μ) (a : AttendantId) : Prop :=
  a ∈ s.outlets.attendantStopped.sent.map Prod.fst

/-- Nobody receives reports on starts any more. -/
def IsLost (s : Server μ) : Prop :=
  s.outlets.attendantStarted.closed = true

/-- How far the registrar has come with an attendant, given the reports on it that have been taken, with what
the set and the channels show of it. -/
inductive Filed (s : Server μ) (a : AttendantId) : List Notice → Registrar → Prop where
  | unheard {g : Registrar} (hg : g.subject? ≠ some a) (ht : a ∉ s.tracked)
      (hs : a ∉ s.outlets.attendantStarted.sent) (he : ¬ s.HasEnded a) : Filed s a [] g
  | entering (ht : a ∉ s.tracked) (hs : a ∉ s.outlets.attendantStarted.sent) (he : ¬ s.HasEnded a) :
      Filed s a [.started a] (.entering a)
  | announcing (hs : a ∉ s.outlets.attendantStarted.sent) (he : ¬ s.HasEnded a) :
      Filed s a [.started a] (.announcing a)
  /-- A registrar that goes on has passed the start on, as far as anybody receives it. -/
  | begun {g : Registrar} (hg : g.subject? ≠ some a)
      (hs : g.hasLeft = false → s.IsLost ∨ a ∈ s.outlets.attendantStarted.sent) (he : ¬ s.HasEnded a) :
      Filed s a [.started a] g
  | erasing (e : Ending) (hs : s.IsLost ∨ a ∈ s.outlets.attendantStarted.sent) (he : ¬ s.HasEnded a) :
      Filed s a [.started a, .stopped a e] (.erasing a e)
  | reporting (e : Ending) (ht : a ∉ s.tracked) (hs : s.IsLost ∨ a ∈ s.outlets.attendantStarted.sent)
      (he : ¬ s.HasEnded a) : Filed s a [.started a, .stopped a e] (.reporting a e)
  | ended {g : Registrar} (e : Ending) (hg : g.subject? ≠ some a)
      (hs : s.HasEnded a → s.IsLost ∨ a ∈ s.outlets.attendantStarted.sent)
      (ht : g.hasLeft = false ∨ s.HasEnded a → a ∉ s.tracked) : Filed s a [.started a, .stopped a e] g

/-- What the set and the channels show of an attendant has not changed, except that it may have left the set or
that nobody receives reports any more. -/
structure Unnoticed (s t : Server μ) (a : AttendantId) : Prop where
  tracked : a ∈ t.tracked → a ∈ s.tracked
  started : a ∈ t.outlets.attendantStarted.sent ↔ a ∈ s.outlets.attendantStarted.sent
  ended : t.HasEnded a ↔ s.HasEnded a
  lost : s.IsLost → t.IsLost

theorem Unrelayed.unnoticed (h : Unrelayed s t) (a : AttendantId) : Unnoticed s t a where
  tracked := fun ha => h.tracked ▸ ha
  started := by rw [h.started]
  ended := by rw [HasEnded, HasEnded, h.stopped]
  lost := fun hl => by rwa [IsLost, h.started]

/-- A registrar that has nothing to do with an attendant goes on. -/
structure Passes (g g' : Registrar) (a : AttendantId) : Prop where
  before : g.subject? ≠ some a
  after : g'.subject? ≠ some a
  left : g'.hasLeft = false → g.hasLeft = false

/-- It has a report on somebody else in hand. -/
theorem Passes.of_other (hg : g.subject? = some b) (hg' : ∀ c, g'.subject? = some c → c = b) (hba : b ≠ a) :
    Passes g g' a where
  before := fun ha => hba (Option.some.inj (hg.symm.trans ha))
  after := fun ha => hba (hg' a ha).symm
  left := fun _ => by
    cases g with
    | entering _ | erasing _ _ | announcing _ | reporting _ _ => rfl
    | absent | waiting | closing | clearing | finished => simp [Registrar.subject?] at hg

namespace Filed

/-- What has been filed of an attendant stays so while others are dealt with. -/
theorem keep (h : Filed s a ns g) (hu : Unnoticed s t a) (hg : g' = g ∨ Passes g g' a) :
    Filed t a ns g' := by
  have hlost : s.IsLost ∨ a ∈ s.outlets.attendantStarted.sent →
      t.IsLost ∨ a ∈ t.outlets.attendantStarted.sent := Or.imp hu.lost hu.started.2
  have hsubject : g.subject? ≠ some a → g'.subject? ≠ some a := by
    rcases hg with rfl | hp
    · exact id
    · exact fun _ => hp.after
  have hleft : g'.hasLeft = false → g.hasLeft = false := by
    rcases hg with rfl | hp
    · exact id
    · exact hp.left
  have hsame : g.subject? = some a → g' = g := by
    rcases hg with rfl | hp
    · exact fun _ => rfl
    · exact fun ha => absurd ha hp.before
  cases h with
  | unheard hne ht hs he =>
      exact .unheard (hsubject hne) (mt hu.tracked ht) (mt hu.started.1 hs) (mt hu.ended.1 he)
  | entering ht hs he =>
      rw [hsame rfl]
      exact .entering (mt hu.tracked ht) (mt hu.started.1 hs) (mt hu.ended.1 he)
  | announcing hs he =>
      rw [hsame rfl]
      exact .announcing (mt hu.started.1 hs) (mt hu.ended.1 he)
  | begun hne hs he => exact .begun (hsubject hne) (fun hl => hlost (hs (hleft hl))) (mt hu.ended.1 he)
  | erasing e hs he =>
      rw [hsame rfl]
      exact .erasing e (hlost hs) (mt hu.ended.1 he)
  | reporting e ht hs he =>
      rw [hsame rfl]
      exact .reporting e (mt hu.tracked ht) (hlost hs) (mt hu.ended.1 he)
  | ended e hne hs ht =>
      refine .ended e (hsubject hne) (fun hend => hlost (hs (hu.ended.1 hend))) fun hor ha => ?_
      exact ht (hor.imp hleft hu.ended.1) (hu.tracked ha)

/-! A registrar goes on with the attendant itself. -/

theorem takeStart (h : Filed s a [] .waiting) (hu : Unnoticed s t a) :
    Filed t a [.started a] (.entering a) := by
  cases h with
  | unheard _ ht hs he => exact .entering (mt hu.tracked ht) (mt hu.started.1 hs) (mt hu.ended.1 he)

theorem takeEnd {e : Ending} (h : Filed s a [.started a] .waiting) (hu : Unnoticed s t a) :
    Filed t a [.started a, .stopped a e] (.erasing a e) := by
  cases h with
  | begun _ hs he => exact .erasing e ((hs rfl).imp hu.lost hu.started.2) (mt hu.ended.1 he)

theorem clearStart (h : Filed s a [] .clearing) (hu : Unnoticed s t a) :
    Filed t a [.started a] .clearing := by
  cases h with
  | unheard _ _ _ he => exact .begun (by simp [Registrar.subject?]) (by simp [Registrar.hasLeft]) (mt hu.ended.1 he)

theorem clearEnd {e : Ending} (h : Filed s a [.started a] .clearing) (hu : Unnoticed s t a) :
    Filed t a [.started a, .stopped a e] .clearing := by
  cases h with
  | begun _ _ he =>
      refine .ended e (by simp [Registrar.subject?]) (fun hend => absurd (hu.ended.1 hend) he) ?_
      rintro (hleft | hend)
      · simp [Registrar.hasLeft] at hleft
      · exact absurd (hu.ended.1 hend) he

/-- A registrar that has been told to end drops what it has to pass on. -/
theorem heed (h : Filed s a ns g) (hg : g.waits = true) (hu : Unnoticed s t a) : Filed t a ns .closing := by
  have hsubject : Registrar.closing.subject? ≠ some a := by simp [Registrar.subject?]
  have hleft : Registrar.closing.hasLeft = false → False := by simp [Registrar.hasLeft]
  cases h with
  | unheard _ ht hs he =>
      exact .unheard hsubject (mt hu.tracked ht) (mt hu.started.1 hs) (mt hu.ended.1 he)
  | entering _ _ _ => simp [Registrar.waits] at hg
  | announcing _ he => exact .begun hsubject (fun hl => (hleft hl).elim) (mt hu.ended.1 he)
  | begun _ _ he => exact .begun hsubject (fun hl => (hleft hl).elim) (mt hu.ended.1 he)
  | erasing e _ _ => simp [Registrar.waits] at hg
  | reporting e ht _ he =>
      exact .ended e hsubject (fun hend => absurd (hu.ended.1 hend) he) fun _ ha => ht (hu.tracked ha)
  | ended e _ hs ht =>
      refine .ended e hsubject (fun hend => (hs (hu.ended.1 hend)).imp hu.lost hu.started.2) fun _ ha => ?_
      exact ht (.inl (Registrar.hasLeft_of_waits hg)) (hu.tracked ha)

theorem enter (h : Filed s a ns (.entering a))
    (hs : t.outlets.attendantStarted = s.outlets.attendantStarted)
    (he : t.outlets.attendantStopped = s.outlets.attendantStopped) : Filed t a ns (.announcing a) := by
  cases h with
  | entering _ hs' he' => exact .announcing (hs ▸ hs') (by rwa [HasEnded, he])
  | unheard hg _ _ _ | begun hg _ _ | ended _ hg _ _ => exact absurd rfl hg

theorem erase {e : Ending} (h : Filed s a ns (.erasing a e)) (ht : t.tracked = (s.untrack a).tracked)
    (hs : t.outlets.attendantStarted = s.outlets.attendantStarted)
    (he : t.outlets.attendantStopped = s.outlets.attendantStopped) : Filed t a ns (.reporting a e) := by
  cases h with
  | erasing _ hs' he' =>
      refine .reporting e ?_ (by rwa [IsLost, hs]) (by rwa [HasEnded, he])
      rw [ht]
      simp [untrack]
  | unheard hg _ _ _ | begun hg _ _ | ended _ hg _ _ => exact absurd rfl hg

theorem announce (h : Filed s a ns (.announcing a))
    (ho : s.outlets.attendantStarted.offer? a = some t.outlets.attendantStarted)
    (he : t.outlets.attendantStopped = s.outlets.attendantStopped) : Filed t a ns .waiting := by
  cases h with
  | announcing _ he' =>
      refine .begun (by simp [Registrar.subject?]) (fun _ => ?_) (by rwa [HasEnded, he])
      rcases Channel.offer?_eq_some_iff.1 ho with ⟨hc, heq⟩ | ⟨-, -, heq⟩
      · exact .inl (by rw [IsLost, heq, hc])
      · exact .inr (by simp [heq])
  | unheard hg _ _ _ | begun hg _ _ | ended _ hg _ _ => exact absurd rfl hg

theorem report {e : Ending} (h : Filed s a ns (.reporting a e)) (ht : t.tracked = s.tracked)
    (hs : t.outlets.attendantStarted = s.outlets.attendantStarted) : Filed t a ns .waiting := by
  cases h with
  | reporting _ ht' hs' _ =>
      exact .ended e (by simp [Registrar.subject?]) (fun _ => by rwa [IsLost, hs]) fun _ => ht ▸ ht'
  | unheard hg _ _ _ | begun hg _ _ | ended _ hg _ _ => exact absurd rfl hg

end Filed

theorem mem_of_track (h : a ∈ (s.track b).tracked) : a ∈ s.tracked ∨ a = b := by
  unfold track at h
  split at h
  · exact .inl h
  · simpa using h

/-! ## Reports that have been taken -/

theorem notices_eq (s : Server μ) (round : Round) (a : AttendantId) :
    (s.portsOf round).notices a =
      round.heard a ++ round.inbox.queue.filter fun n => decide (n.attendant = a) := by
  rw [Round.heard, ← List.filter_append, Channel.passed_append_queue]
  rfl

theorem heard_of_take? {n : Notice} {inbox : Channel Notice} (h : round.inbox.take? = some (n, inbox))
    (g : Registrar) (b : Bool) (ha : n.attendant = a) :
    ({ round with inbox, registrar := g, poised := b } : Round).heard a = round.heard a ++ [n] := by
  have hpassed : inbox.passed = round.inbox.passed ++ [n] := Channel.passed_of_take? h
  rw [Round.heard, Round.heard, hpassed, List.filter_append, List.filter_cons_of_pos (by simpa using ha),
    List.filter_nil]

/-- A report says nothing of others. -/
theorem heard_of_take?_ne {n : Notice} {inbox : Channel Notice} (h : round.inbox.take? = some (n, inbox))
    (g : Registrar) (b : Bool) (ha : n.attendant ≠ a) :
    ({ round with inbox, registrar := g, poised := b } : Round).heard a = round.heard a := by
  have hpassed : inbox.passed = round.inbox.passed ++ [n] := Channel.passed_of_take? h
  rw [Round.heard, Round.heard, hpassed, List.filter_append, List.filter_cons_of_neg (by simpa using ha),
    List.filter_nil, List.append_nil]

/-- What has been heard of an attendant when the registrar takes another report on it. -/
theorem notices_of_take? {n : Notice} {inbox : Channel Notice} (h : round.inbox.take? = some (n, inbox))
    (hn : n.attendant = a) : ∃ rest, (s.portsOf round).notices a = round.heard a ++ n :: rest := by
  refine ⟨inbox.queue.filter fun n => decide (n.attendant = a), ?_⟩
  rw [notices_eq, Channel.take?_cons h, List.filter_cons_of_pos (by simp [hn])]

theorem heard_of_start {c : Attendant μ} {inbox : Channel Notice} (hrep : c.Reported a (s.portsOf round))
    (h : round.inbox.take? = some (.started a, inbox)) : round.heard a = [] := by
  obtain ⟨rest, hrest⟩ := notices_of_take? (s := s) (a := a) h rfl
  have hshape := Attendant.notices_of_reported hrep
  rw [hrest] at hshape
  -- in front of the start there is room for nothing
  rcases hheard : round.heard a with - | ⟨n, - | ⟨n', ns⟩⟩
  · rfl
  · simp [hheard] at hshape
  · simp [hheard] at hshape

theorem heard_of_end {c : Attendant μ} {e : Ending} {inbox : Channel Notice}
    (hrep : c.Reported a (s.portsOf round)) (h : round.inbox.take? = some (.stopped a e, inbox)) :
    round.heard a = [.started a] := by
  obtain ⟨rest, hrest⟩ := notices_of_take? (s := s) (a := a) h rfl
  have hshape := Attendant.notices_of_reported hrep
  rw [hrest] at hshape
  -- in front of the end there is the start
  rcases hheard : round.heard a with - | ⟨n, - | ⟨n', ns⟩⟩
  · simp [hheard] at hshape
  · simp_all
  · simp [hheard] at hshape

/-- An attendant that moves takes nothing out of its inbox. -/
theorem heard_of_step {x : Member μ} {n : Attendant.Move} {c : Attendant μ} {q : Ports} (hsound : round.Sound)
    (h : x.attendant.step b s.now (s.portsOf round) n = some (c, q)) :
    ({ round with inbox := q.lifecycle } : Round).heard a = round.heard a := by
  rcases Attendant.lifecycle_of_access (Attendant.access_of_step h) with heq | ⟨own, -, ho⟩
  · have hsame : q.lifecycle = round.inbox := heq
    rw [hsame]
  · have hpassed : q.lifecycle.passed = round.inbox.passed := Channel.passed_of_offer? ho hsound.taken
    rw [Round.heard, Round.heard, hpassed]

/-- Nothing has been heard of an attendant that has just been made. -/
theorem heard_newcomer (hp : s.Posted) (hr : s.rounds[r]? = some round) :
    round.heard s.members.length = [] :=
  filter_newcomer fun n hn =>
    (hp.origin r round n hr (Channel.mem_sent_of_mem_passed hn)).imp fun _ hx => hx.1

/-! ## What shows of a move -/

/-- Only whom a registrar has in hand is shown and passed on by it. -/
theorem RelayGoes.unnoticed (h : RelayGoes s m t r round round') (ha : round.registrar.subject? ≠ some a) :
    Unnoticed s t a := by
  -- whoever is in hand is another one
  have hne : ∀ {b : AttendantId} {g : Registrar}, round.registrar = g → g.subject? = some b → a ≠ b := by
    rintro b g rfl hb rfl
    exact ha hb
  cases h with
  | entered hg _ ht hs he =>
      refine ⟨fun hin => ?_, by rw [hs], by rw [HasEnded, HasEnded, he], by simp [IsLost, hs]⟩
      rw [ht] at hin
      exact (mem_of_track hin).resolve_right (hne hg rfl)
  | erased _ ht hs he =>
      refine ⟨fun hin => ?_, by rw [hs], by rw [HasEnded, HasEnded, he], by simp [IsLost, hs]⟩
      rw [ht] at hin
      exact (List.mem_filter.1 hin).1
  | announced hg _ ho ht he =>
      refine ⟨fun hin => ht ▸ hin, ?_, by rw [HasEnded, HasEnded, he], ?_⟩
      · rcases Channel.offer?_eq_some_iff.1 ho with ⟨-, heq⟩ | ⟨-, -, heq⟩
        · rw [heq]
        · simp [heq, hne hg rfl]
      · rw [IsLost, IsLost, Channel.closed_of_offer? ho]
        exact id
  | reported hg _ ho ht hs =>
      refine ⟨fun hin => ht ▸ hin, by rw [hs], ?_, by simp [IsLost, hs]⟩
      rcases Channel.offer?_eq_some_iff.1 ho with ⟨-, heq⟩ | ⟨-, -, heq⟩
      · rw [HasEnded, HasEnded, heq]
      · simp [HasEnded, heq, hne hg rfl]
  | hired _ hu | dismissed _ hu | poised _ _ hu | heeded _ _ hu | takenStart _ _ _ hu | takenEnd _ _ _ hu
  | turnedAway _ _ hu | shut _ hu | cleared _ _ hu | finished _ _ hu | offered _ _ _ _ hu =>
      exact hu.unnoticed a

/-- What a move does to the set and passes on. -/
inductive Effect (s t : Server μ) : Prop where
  | nothing (hu : Unrelayed s t)
  | emptied (ht : t.tracked = []) (hs : t.outlets.attendantStarted = s.outlets.attendantStarted)
      (he : t.outlets.attendantStopped = s.outlets.attendantStopped)
  | entered {r : Nat} {round : Round} {a : AttendantId} (hr : s.rounds[r]? = some round)
      (hg : round.registrar = .entering a) (hc : s.closing = false) (ht : t.tracked = (s.track a).tracked)
      (hs : t.outlets.attendantStarted = s.outlets.attendantStarted)
      (he : t.outlets.attendantStopped = s.outlets.attendantStopped)
  | erased {r : Nat} {round : Round} {a : AttendantId} {e : Ending} (hr : s.rounds[r]? = some round)
      (hg : round.registrar = .erasing a e) (ht : t.tracked = (s.untrack a).tracked)
      (hs : t.outlets.attendantStarted = s.outlets.attendantStarted)
      (he : t.outlets.attendantStopped = s.outlets.attendantStopped)
  | announced {r : Nat} {round : Round} {a : AttendantId} (hr : s.rounds[r]? = some round)
      (hg : round.registrar = .announcing a) (hl : round.poised = true)
      (ho : s.outlets.attendantStarted.offer? a = some t.outlets.attendantStarted)
      (ht : t.tracked = s.tracked) (he : t.outlets.attendantStopped = s.outlets.attendantStopped)
  | reported {r : Nat} {round : Round} {a : AttendantId} {e : Ending} (hr : s.rounds[r]? = some round)
      (hg : round.registrar = .reporting a e) (hl : round.poised = true)
      (ho : s.outlets.attendantStopped.offer? (a, e) = some t.outlets.attendantStopped)
      (ht : t.tracked = s.tracked) (hs : t.outlets.attendantStarted = s.outlets.attendantStarted)

theorem effect_of_relay (h : RelayTurn s m t) : Effect s t := by
  cases h with
  | same _ hu => exact .nothing hu
  | opened _ hu => exact .nothing hu
  | emptied _ _ ht hs he => exact .emptied ht hs he
  | moved hr hgoes _ =>
      cases hgoes with
      | entered hg hc ht hs he => exact .entered hr hg hc ht hs he
      | erased hg ht hs he => exact .erased hr hg ht hs he
      | announced hg hl ho ht he => exact .announced hr hg hl ho ht he
      | reported hg hl ho ht hs => exact .reported hr hg hl ho ht hs
      | hired _ hu | dismissed _ hu | poised _ _ hu | heeded _ _ hu | takenStart _ _ _ hu | takenEnd _ _ _ hu
      | turnedAway _ _ hu | shut _ hu | cleared _ _ hu | finished _ _ hu | offered _ _ _ _ hu =>
          exact .nothing hu

theorem nodup_concat {xs : List AttendantId} (h : xs.Nodup) (ha : a ∉ xs) : (xs ++ [a]).Nodup := by
  refine List.nodup_append.2 ⟨h, by simp, fun b hb c hc hbc => ?_⟩
  rw [hbc, List.mem_singleton.1 hc] at hb
  exact ha hb

namespace Effect

theorem tracked_from (h : Effect s t) (ha : a ∈ t.tracked) :
    a ∈ s.tracked ∨ ∃ (r : Nat) (round : Round), s.rounds[r]? = some round ∧
      round.registrar = .entering a ∧ s.closing = false := by
  cases h with
  | nothing hu => exact .inl (hu.tracked ▸ ha)
  | emptied ht _ _ => simp [ht] at ha
  | entered hr hg hc ht _ _ =>
      rw [ht] at ha
      rcases mem_of_track ha with ha | rfl
      · exact .inl ha
      · exact .inr ⟨_, _, hr, hg, hc⟩
  | erased _ _ ht _ _ =>
      rw [ht] at ha
      exact .inl (List.mem_filter.1 ha).1
  | announced _ _ _ _ ht _ => exact .inl (ht ▸ ha)
  | reported _ _ _ _ ht _ => exact .inl (ht ▸ ha)

theorem tracked_nodup (h : Effect s t) (hs : s.tracked.Nodup) : t.tracked.Nodup := by
  cases h with
  | nothing hu => exact hu.tracked ▸ hs
  | emptied ht _ _ => simp [ht]
  | @entered _ _ b _ _ _ ht _ _ =>
      rw [ht, track]
      split
      · exact hs
      · next hb => exact nodup_concat hs hb
  | erased _ _ ht _ _ =>
      rw [ht]
      exact hs.filter _
  | announced _ _ _ _ ht _ => exact ht ▸ hs
  | reported _ _ _ _ ht _ => exact ht ▸ hs

/-- Starts are passed on one at a time, by a registrar that has seen that it has not been told to end. -/
theorem started_from (h : Effect s t) :
    t.outlets.attendantStarted.sent = s.outlets.attendantStarted.sent ∨
      ∃ (r : Nat) (round : Round) (a : AttendantId), s.rounds[r]? = some round ∧
        round.registrar = .announcing a ∧ round.poised = true ∧
        t.outlets.attendantStarted.sent = s.outlets.attendantStarted.sent ++ [a] := by
  cases h with
  | nothing hu => exact .inl (by rw [hu.started])
  | emptied _ hs _ => exact .inl (by rw [hs])
  | entered _ _ _ _ hs _ => exact .inl (by rw [hs])
  | erased _ _ _ hs _ => exact .inl (by rw [hs])
  | announced hr hg hl ho _ _ =>
      rcases Channel.offer?_eq_some_iff.1 ho with ⟨-, heq⟩ | ⟨-, -, heq⟩
      · exact .inl (by rw [heq])
      · exact .inr ⟨_, _, _, hr, hg, hl, by rw [heq, Channel.sent_put]⟩
  | reported _ _ _ _ _ hs => exact .inl (by rw [hs])

/-- So are ends. -/
theorem stopped_from (h : Effect s t) :
    t.outlets.attendantStopped.sent = s.outlets.attendantStopped.sent ∨
      ∃ (r : Nat) (round : Round) (a : AttendantId) (e : Ending), s.rounds[r]? = some round ∧
        round.registrar = .reporting a e ∧ round.poised = true ∧
        t.outlets.attendantStopped.sent = s.outlets.attendantStopped.sent ++ [(a, e)] := by
  cases h with
  | nothing hu => exact .inl (by rw [hu.stopped])
  | emptied _ _ he => exact .inl (by rw [he])
  | entered _ _ _ _ _ he => exact .inl (by rw [he])
  | erased _ _ _ _ he => exact .inl (by rw [he])
  | announced _ _ _ _ _ he => exact .inl (by rw [he])
  | reported hr hg hl ho _ _ =>
      rcases Channel.offer?_eq_some_iff.1 ho with ⟨-, heq⟩ | ⟨-, -, heq⟩
      · exact .inl (by rw [heq])
      · exact .inr ⟨_, _, _, _, hr, hg, hl, by rw [heq, Channel.sent_put]⟩

end Effect

/-! ## What a move does to what has been filed -/

/-- A registrar goes on, and with it what has been filed of a member of its round. -/
theorem filed_of_goes (h : RelayGoes s m t r round round') (hl : s.agenda.Lawful)
    (hr : s.rounds[r]? = some round) (hstaffed : round.isStaffed = true) (hsound : round.Sound)
    {c : Attendant μ} (hrep : c.Reported a (s.portsOf round))
    (hf : s.Filed a (round.heard a) round.registrar) : t.Filed a (round'.heard a) round'.registrar := by
  -- a registrar that is busy with others leaves alone what has been filed of `a`
  have hothers : Passes round.registrar round'.registrar a → round'.heard a = round.heard a →
      t.Filed a (round'.heard a) round'.registrar := fun hpass heq => by
    rw [heq]
    exact hf.keep (h.unnoticed hpass.before) (.inr hpass)
  -- what it has in hand is about `a` or about one of those others
  have hinHand : ∀ b : AttendantId, round.registrar.subject? = some b →
      (∀ c, round'.registrar.subject? = some c → c = b) → round'.heard a = round.heard a →
      (b = a → t.Filed a (round.heard a) round'.registrar) →
      t.Filed a (round'.heard a) round'.registrar := by
    intro b hsubject hnext heq hself
    by_cases hba : b = a
    · rw [heq]
      exact hself hba
    · exact hothers (.of_other hsubject hnext hba) heq
  cases h with
  | hired hd _ => simp [unstaffed_of_hiring hl hd hr] at hstaffed
  | dismissed _ hu => exact hf.keep (hu.unnoticed a) (.inl rfl)
  | poised _ _ hu => exact hf.keep (hu.unnoticed a) (.inl rfl)
  | heeded hg _ hu => exact hf.heed hg (hu.unnoticed a)
  | @takenStart b inbox hg _ ht hu =>
      by_cases hba : b = a
      · obtain rfl := hba
        have hnone := heard_of_start hrep ht
        rw [heard_of_take? (a := b) ht _ _ rfl, hnone]
        rw [hg, hnone] at hf
        exact hf.takeStart (hu.unnoticed b)
      · refine hothers ⟨?_, ?_, ?_⟩ (heard_of_take?_ne ht _ _ hba) <;>
          simp [hg, Registrar.subject?, Registrar.hasLeft, hba]
  | @takenEnd b e inbox hg _ ht hu =>
      by_cases hba : b = a
      · obtain rfl := hba
        have hone := heard_of_end hrep ht
        rw [heard_of_take? (a := b) ht _ _ rfl, hone]
        rw [hg, hone] at hf
        exact hf.takeEnd (hu.unnoticed b)
      · refine hothers ⟨?_, ?_, ?_⟩ (heard_of_take?_ne ht _ _ hba) <;>
          simp [hg, Registrar.subject?, Registrar.hasLeft, hba]
  | @turnedAway b hg _ hu =>
      refine hinHand b (by rw [hg]; rfl) (by simp [Registrar.subject?]) rfl fun hba => ?_
      subst hba
      rw [hg] at hf
      exact hf.enter hu.started hu.stopped
  | @entered b hg _ _ hs he =>
      refine hinHand b (by rw [hg]; rfl) (by simp [Registrar.subject?]) rfl fun hba => ?_
      subst hba
      rw [hg] at hf
      exact hf.enter hs he
  | @erased b e hg ht hs he =>
      refine hinHand b (by rw [hg]; rfl) (by simp [Registrar.subject?]) rfl fun hba => ?_
      subst hba
      rw [hg] at hf
      exact hf.erase ht hs he
  | @announced b hg _ ho _ he =>
      refine hinHand b (by rw [hg]; rfl) (by simp [Registrar.subject?]) rfl fun hba => ?_
      subst hba
      rw [hg] at hf
      exact hf.announce ho he
  | @reported b e hg _ _ ht hs =>
      refine hinHand b (by rw [hg]; rfl) (by simp [Registrar.subject?]) rfl fun hba => ?_
      subst hba
      rw [hg] at hf
      exact hf.report ht hs
  | shut hg _ =>
      refine hothers ⟨?_, ?_, ?_⟩ rfl <;> simp [hg, Registrar.subject?, Registrar.hasLeft]
  | @cleared n inbox hg ht hu =>
      by_cases hna : n.attendant = a
      · obtain rfl := hna
        rw [heard_of_take? ht _ _ rfl]
        rw [hg] at hf
        -- past its loop the registrar only takes note of what it drops
        cases n with
        | started b =>
            have hnone : round.heard b = [] := heard_of_start hrep ht
            rw [Notice.attendant, hnone] at hf ⊢
            exact hf.clearStart (hu.unnoticed b)
        | stopped b e =>
            have hone : round.heard b = [.started b] := heard_of_end hrep ht
            rw [Notice.attendant, hone] at hf ⊢
            exact hf.clearEnd (hu.unnoticed b)
      · rw [heard_of_take?_ne ht _ _ hna]
        exact hf.keep (hu.unnoticed a) (.inl hg.symm)
  | finished hg _ _ =>
      refine hothers ⟨?_, ?_, ?_⟩ rfl <;> simp [hg, Registrar.subject?, Registrar.hasLeft]
  | @offered b n x d q _ _ hstep _ hu =>
      rw [heard_of_step hsound hstep]
      exact hf.keep (hu.unnoticed a) (.inl rfl)

/-- What the set and the channels for reports on attendants show. -/
structure Relayed (s : Server μ) : Prop where
  filed : ∀ (a : AttendantId) x round, s.members[a]? = some x → s.rounds[x.round]? = some round →
    s.Filed a (round.heard a) round.registrar
  /-- Nobody else shows. -/
  known : ∀ a, a ∈ s.tracked ∨ a ∈ s.outlets.attendantStarted.sent ∨ s.HasEnded a →
    ∃ x, s.members[a]? = some x
  tracked : s.tracked.Nodup
  started : s.outlets.attendantStarted.sent.Nodup
  ended : (s.outlets.attendantStopped.sent.map Prod.fst).Nodup

/-- Whatever a registrar has in hand, it has filed. -/
theorem Relayed.in_hand (hs : s.Relayed) (hp : s.Posted) (hr : s.rounds[r]? = some round)
    (ha : round.registrar.subject? = some a) :
    (∃ x, s.members[a]? = some x) ∧ s.Filed a (round.heard a) round.registrar := by
  obtain ⟨x, hx, rfl⟩ := hp.subject r round a hr ha
  exact ⟨⟨x, hx⟩, hs.filed a x round hx hr⟩

theorem Filed.not_started (h : Filed s a ns (.announcing a)) : a ∉ s.outlets.attendantStarted.sent := by
  cases h with
  | announcing hs _ => exact hs
  | unheard hg _ _ _ | begun hg _ _ | ended _ hg _ _ => exact absurd rfl hg

theorem Filed.not_ended {e : Ending} (h : Filed s a ns (.reporting a e)) : ¬ s.HasEnded a := by
  cases h with
  | reporting _ _ _ he => exact he
  | unheard hg _ _ _ | begun hg _ _ | ended _ hg _ _ => exact absurd rfl hg

/-- Moves keep what is shown of a member in line with what its registrar has done. -/
theorem filed_of_access (h : Access s m t) (hm : s.Mustered) (hp : s.Posted) (hs : s.Relayed)
    (hx : s.members[a]? = some x) (hr' : t.rounds[x.round]? = some round') :
    t.Filed a (round'.heard a) round'.registrar := by
  obtain ⟨round, hr, hstaffed, hrep⟩ := hp.joined a x hx
  have hf := hs.filed a x round hx hr
  cases relay_seen h hp hx hr hr' with
  | aside hu => exact hf.keep (hu.unnoticed a) (.inl rfl)
  | emptied _ hnil hst he =>
      refine hf.keep ⟨fun hin => ?_, by rw [hst], by rw [HasEnded, HasEnded, he], by simp [IsLost, hst]⟩ (.inl rfl)
      simp [hnil] at hin
  | elsewhere hgoes ha => exact hf.keep (hgoes.unnoticed ha) (.inl rfl)
  | here hgoes => exact filed_of_goes hgoes hm.lawful hr hstaffed (hm.rounds _ _ hr) hrep hf

theorem relayed_of_access (h : Access s m t) (hm : s.Mustered) (hp : s.Posted) (hs : s.Relayed) :
    t.Relayed := by
  have heffect := effect_of_relay (relay_of_access h)
  have hpersists : ∀ {a : AttendantId}, (∃ x, s.members[a]? = some x) → ∃ y, t.members[a]? = some y := by
    rintro a ⟨x, hx⟩
    obtain ⟨y, hy, -⟩ := member_persists h hx
    exact ⟨y, hy⟩
  refine ⟨?_, ?_, heffect.tracked_nodup hs.tracked, ?_, ?_⟩
  · intro a y round' hy hr'
    rcases member_of_access h hy with ⟨x, hx, hyr, -, -⟩ | ⟨k, peer, r, hd, rfl, rfl, rfl⟩
    · exact filed_of_access h hm hp hs hx (hyr ▸ hr')
    · -- nothing has been heard of an attendant that has just been made
      have hnobody : ∀ x, s.members[s.members.length]? ≠ some x := by simp
      have hround : s.rounds[r]? = some round' := hr'
      have hstranger : ¬ (s.members.length ∈ s.tracked ∨
          s.members.length ∈ s.outlets.attendantStarted.sent ∨ s.HasEnded s.members.length) := by
        intro hshown
        obtain ⟨x, hx⟩ := hs.known s.members.length hshown
        exact hnobody x hx
      rw [heard_newcomer hp hround]
      refine .unheard (fun ha => ?_) (fun ha => hstranger (.inl ha)) (fun ha => hstranger (.inr (.inl ha)))
        fun ha => hstranger (.inr (.inr ha))
      obtain ⟨x, hx, -⟩ := hp.subject r round' _ hround ha
      exact hnobody x hx
  · -- whoever begins to show is in the hand of a registrar
    rintro a (ha | ha | ha)
    · rcases heffect.tracked_from ha with ha | ⟨r, round, hr, hg, -⟩
      · exact hpersists (hs.known a (.inl ha))
      · exact hpersists (hs.in_hand hp hr (hg ▸ rfl)).1
    · rcases heffect.started_from with heq | ⟨r, round, b, hr, hg, -, heq⟩
      · exact hpersists (hs.known a (.inr (.inl (heq ▸ ha))))
      · rw [heq, List.mem_append, List.mem_singleton] at ha
        rcases ha with ha | rfl
        · exact hpersists (hs.known a (.inr (.inl ha)))
        · exact hpersists (hs.in_hand hp hr (hg ▸ rfl)).1
    · rcases heffect.stopped_from with heq | ⟨r, round, b, e, hr, hg, -, heq⟩
      · exact hpersists (hs.known a (.inr (.inr (by rwa [HasEnded, ← heq]))))
      · rw [HasEnded, heq, List.map_append, List.mem_append, List.map_singleton, List.mem_singleton] at ha
        rcases ha with ha | rfl
        · exact hpersists (hs.known a (.inr (.inr ha)))
        · exact hpersists (hs.in_hand hp hr (hg ▸ rfl)).1
  · -- the start of the one in hand has not been passed on before, and neither has its end
    rcases heffect.started_from with heq | ⟨r, round, b, hr, hg, -, heq⟩
    · exact heq ▸ hs.started
    · rw [heq]
      have hfiled := (hs.in_hand (a := b) hp hr (hg ▸ rfl)).2
      rw [hg] at hfiled
      exact nodup_concat hs.started hfiled.not_started
  · rcases heffect.stopped_from with heq | ⟨r, round, b, e, hr, hg, -, heq⟩
    · exact heq ▸ hs.ended
    · rw [heq, List.map_append, List.map_singleton]
      have hfiled := (hs.in_hand (a := b) hp hr (hg ▸ rfl)).2
      rw [hg] at hfiled
      exact nodup_concat hs.ended hfiled.not_ended

theorem relayed_of_build {b : Builder μ} (h : b.build = .ok s) : s.Relayed := by
  obtain ⟨codec, config, rfl⟩ := eq_of_build h
  refine ⟨by simp, ?_, List.nodup_nil, List.nodup_nil, List.nodup_nil⟩
  rintro a (ha | ha | ha) <;> simp [HasEnded, Outlets.ofConfig] at ha

/-- The consumer takes nothing back that has been passed on. -/
theorem unnoticed_of_drained {o : Outlets} (h : s.outlets.Drained o) (a : AttendantId) :
    Unnoticed s { s with outlets := o } a where
  tracked := id
  started := by rw [h.attendantStarted.sent]
  ended := by rw [HasEnded, HasEnded, h.attendantStopped.sent]
  lost := h.attendantStarted.closed

theorem relayed_of_drained {o : Outlets} (h : s.outlets.Drained o) (hs : s.Relayed) :
    ({ s with outlets := o } : Server μ).Relayed where
  filed := fun a x round hx hr => (hs.filed a x round hx hr).keep (unnoticed_of_drained h a) (.inl rfl)
  known := by
    rintro a (ha | ha | ha)
    · exact hs.known a (.inl ha)
    · exact hs.known a (.inr (.inl ((unnoticed_of_drained h a).started.1 ha)))
    · exact hs.known a (.inr (.inr ((unnoticed_of_drained h a).ended.1 ha)))
  tracked := hs.tracked
  started := by rw [h.attendantStarted.sent]; exact hs.started
  ended := by rw [h.attendantStopped.sent]; exact hs.ended

end Server

end Courier
