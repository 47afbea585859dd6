import Courier.Proofs.Server.Law
import Courier.Proofs.Server.Parts

/-!
# Rounds — inboxes and their registrars

The inbox of a round is closed by its registrar and by nobody else, and only after the registrar has been told to
end; a registrar that is over has left nothing behind.

- `Round.Sound` — how inbox and registrar go together,
- `Server.RoundsTurn`, `Server.rounds_of_access` — what a move does to the rounds,
- `Server.sound_rounds_of_access` — moves keep inboxes and registrars together.
-/

namespace Courier

variable {μ : Type} [Marshaler μ]

/-! ## Rounds -/

namespace Registrar

/-- Whether the registrar has shut the inbox. -/
def hasShut : Registrar → Bool
  | .clearing => true
  | .finished => true
  | _ => false

/-- Whether the registrar has left its loop. -/
def hasLeft : Registrar → Bool
  | .closing => true
  | .clearing => true
  | .finished => true
  | _ => false

theorem hasShut_of_waits {g : Registrar} (h : g.waits = true) : g.hasShut = false := by
  cases g <;> simp_all [waits, hasShut]

theorem ne_entering_of_waits {g : Registrar} (h : g.waits = true) (a : AttendantId) : g ≠ .entering a := by
  rintro rfl
  simp [waits] at h

theorem hasLeft_of_waits {g : Registrar} (h : g.waits = true) : g.hasLeft = false := by
  cases g <;> simp_all [waits, hasLeft]

theorem hasLeft_of_hasShut {g : Registrar} (h : g.hasShut = true) : g.hasLeft = true := by
  cases g <;> simp_all [hasShut, hasLeft]

end Registrar

/-- How the inbox and the registrar of a round go together. -/
structure Round.Sound (round : Round) : Prop where
  capacity : round.inbox.capacity = Round.inboxCapacity
  taken : round.inbox.taken ≤ round.inbox.sent.length
  closed : round.inbox.closed = round.registrar.hasShut
  empty : round.registrar = .finished → round.inbox.queue = []
  quit : round.registrar.hasLeft = true → round.quit = true
  poised : round.poised = true → round.registrar.waits = true

namespace Round

theorem sound_fresh : Round.fresh.Sound :=
  ⟨rfl, Nat.le_refl 0, rfl, by simp [fresh], by simp [fresh, Registrar.hasLeft], by simp [fresh]⟩

variable {round : Round} {inbox : Channel Notice} {n : Notice} {g : Registrar} {b : Bool}

/-- A registrar that goes on without touching the inbox. -/
theorem Sound.go (h : round.Sound) (hc : round.registrar.hasShut = false) (hg : g.hasShut = false)
    (hq : g.hasLeft = true → round.quit = true) (hb : b = true → g.waits = true) :
    ({ round with registrar := g, poised := b } : Round).Sound where
  capacity := h.capacity
  taken := h.taken
  closed := by rw [h.closed, hc, hg]
  empty := by
    rintro rfl
    simp [Registrar.hasShut] at hg
  quit := hq
  poised := hb

/-- A registrar that takes a report out of the inbox. -/
theorem Sound.take (h : round.Sound) (ht : round.inbox.take? = some (n, inbox))
    (hg : g.hasShut = round.registrar.hasShut) (hf : g ≠ .finished)
    (hq : g.hasLeft = true → round.quit = true) :
    ({ round with inbox, registrar := g, poised := false } : Round).Sound where
  capacity := by
    obtain ⟨-, rfl⟩ := Channel.take?_eq_some_iff.1 ht
    exact h.capacity
  taken := Channel.taken_of_take? ht
  closed := by rw [Channel.closed_of_take? ht, h.closed, hg]
  empty := fun hfin => absurd hfin hf
  quit := hq
  poised := by simp

/-- A report that is put into the inbox. -/
theorem Sound.offer (h : round.Sound) (ho : round.inbox.offer? n = some inbox) :
    ({ round with inbox } : Round).Sound where
  capacity := by
    rcases Channel.offer?_eq_some_iff.1 ho with ⟨-, rfl⟩ | ⟨-, -, rfl⟩
    · exact h.capacity
    · exact h.capacity
  taken := Channel.taken_of_offer? ho h.taken
  closed := by rw [Channel.closed_of_offer? ho, h.closed]
  empty := by
    intro hfin
    -- whoever comes after the end of the registrar finds the inbox closed
    have hclosed : round.inbox.closed = true := by
      rw [h.closed]
      exact congrArg Registrar.hasShut hfin
    rcases Channel.queue_of_offer? ho h.taken with ⟨hq, -⟩ | ⟨-, hopen⟩
    · rw [hq]
      exact h.empty hfin
    · simp [hclosed] at hopen
  quit := h.quit
  poised := h.poised

theorem Sound.dismiss (h : round.Sound) : ({ round with quit := true } : Round).Sound :=
  ⟨h.capacity, h.taken, h.closed, h.empty, fun _ => rfl, h.poised⟩

end Round

namespace Attendant

/-- An attendant changes its inbox by putting reports on itself in. -/
theorem lifecycle_of_access {id : AttendantId} {now : Nat} {a b : Attendant μ} {p q : Ports} {m : Move}
    (h : Access id now a p m b q) :
    q.lifecycle = p.lifecycle ∨ ∃ n, n.attendant = id ∧ p.lifecycle.offer? n = some q.lifecycle := by
  cases h with
  | announce _ _ lifecycle _ ho => exact .inr ⟨_, rfl, ho⟩
  | report _ lifecycle _ ho => exact .inr ⟨_, rfl, ho⟩
  | _ => exact .inl rfl

end Attendant

namespace Server

variable {s t : Server μ} {m : Move} {r k : Nat} {round : Round}

/-! ## Moves and rounds -/

/-- What a move does to round `r`, with what comes about elsewhere. -/
inductive RoundGoes (s t : Server μ) (r : Nat) (round : Round) : Round → Prop where
  | hired {k : Nat} {a : Address} (hd : s.duties[k]? = some (.hiring r a)) :
      RoundGoes s t r round { round with registrar := .waiting }
  | dismissed : RoundGoes s t r round { round with quit := true }
  | poised (poised : Bool) (hg : round.registrar.waits = true) (hq : poised = true → round.quit = false) :
      RoundGoes s t r round { round with poised }
  | turned {g : Registrar} (hshut : round.registrar.hasShut = false)
      (hentering : ∀ a, round.registrar ≠ .entering a) (hopen : g.hasShut = false)
      (hquit : g.hasLeft = true → round.quit = true) (hg : ∀ a e, g ≠ .erasing a e) :
      RoundGoes s t r round { round with registrar := g, poised := false }
  | takenStart {a : AttendantId} {inbox : Channel Notice} (hg : round.registrar = .waiting)
      (ht : round.inbox.take? = some (.started a, inbox)) :
      RoundGoes s t r round { round with inbox, registrar := .entering a, poised := false }
  | takenEnd {a : AttendantId} {e : Ending} {inbox : Channel Notice} (hg : round.registrar = .waiting)
      (ht : round.inbox.take? = some (.stopped a e, inbox)) :
      RoundGoes s t r round { round with inbox, registrar := .erasing a e, poised := false }
  | entered {a : AttendantId} (hg : round.registrar = .entering a)
      (ht : t.tracked = (s.track a).tracked ∨ t.members = (s.stopAttendant a).members) :
      RoundGoes s t r round { round with registrar := .announcing a, poised := false }
  | shut (hg : round.registrar = .closing) :
      RoundGoes s t r round { round with inbox := round.inbox.close, registrar := .clearing, poised := false }
  | cleared {n : Notice} {inbox : Channel Notice} (hg : round.registrar = .clearing)
      (ht : round.inbox.take? = some (n, inbox))
      (hn : ∀ a, n = .started a → t.members = (s.stopAttendant a).members) :
      RoundGoes s t r round { round with inbox, registrar := .clearing, poised := false }
  | finished (hg : round.registrar = .clearing) (ht : round.inbox.take? = none) :
      RoundGoes s t r round { round with registrar := .finished, poised := false }
  | offered {a : AttendantId} {n : Attendant.Move} {member : Member μ} {b : Attendant μ} {q : Ports}
      (hm : s.members[a]? = some member) (hr : member.round = r)
      (h : member.attendant.step a s.now (s.portsOf round) n = some (b, q))
      (ht : t.members = s.members.set a { member with attendant := b }) :
      RoundGoes s t r round { round with inbox := q.lifecycle }

/-- What a move does to the rounds of a server. -/
inductive RoundsTurn (s t : Server μ) : Prop where
  | same (h : t.rounds = s.rounds)
  | opened (h : t.rounds = s.rounds ++ [Round.fresh])
  | moved {r : Nat} {round round' : Round} (hr : s.rounds[r]? = some round)
      (hgoes : RoundGoes s t r round round') (h : t.rounds = s.rounds.set r round')

/-- A registrar that is hired or dismissed belongs to a round, or nothing changes. -/
theorem rounds_of_setRound {f : Round → Round} (ht : t.rounds = (s.setRound r f).rounds)
    (hf : ∀ round, s.rounds[r]? = some round → RoundGoes s t r round (f round)) : RoundsTurn s t := by
  cases hr : s.rounds[r]? with
  | none => exact .same (ht.trans (congrArg Server.rounds (setRound_of_none hr)))
  | some round => exact .moved hr (hf round hr) (ht.trans (rounds_setRound hr))

theorem rounds_of_access (h : Access s m t) : RoundsTurn s t := by
  cases h with
  | openRound k _ a _ => exact .opened rfl
  | hire k _ r a hd => exact rounds_of_setRound rfl fun _ _ => .hired hd
  | dismiss k _ r _ => exact rounds_of_setRound rfl fun _ _ => .dismissed
  | poise _ r round poised hr _ hg hq => exact .moved hr (.poised poised hg hq) rfl
  | heed r round hr hg hq =>
      exact .moved hr (.turned (Registrar.hasShut_of_waits hg) (Registrar.ne_entering_of_waits hg) rfl
        (fun _ => hq) (by simp)) rfl
  | takeStart r round a inbox hr hg _ ht => exact .moved hr (.takenStart hg ht) rfl
  | takeEnd r round a e inbox hr hg _ ht => exact .moved hr (.takenEnd hg ht) rfl
  | turnAway r round a hr hg _ =>
      refine .moved hr (.entered hg (.inr rfl)) ?_
      unfold setRegister
      rw [rounds_stopAttendant]
  | enter r round a hr hg _ =>
      refine .moved hr (.entered hg (.inl rfl)) ?_
      unfold setRegister
      rw [rounds_track]
  | erase r round a e hr hg | announce r round a _ hr hg _ _ | report r round a e _ hr hg _ _ =>
      refine .moved hr (.turned ?_ ?_ rfl (by simp [Registrar.hasLeft]) (by simp)) rfl
      · simp [hg, Registrar.hasShut]
      · simp [hg]
  | shut r round hr hg => exact .moved hr (.shut hg) rfl
  | clearStart r round a inbox hr hg ht =>
      refine .moved hr (.cleared hg ht fun b hb => ?_) ?_
      · obtain rfl := Notice.started.inj hb
        rfl
      · unfold setRegister
        rw [rounds_stopAttendant]
  | clearEnd r round a e inbox hr hg ht => exact .moved hr (.cleared hg ht (by simp)) rfl
  | retireRegistrar r round hr hg ht => exact .moved hr (.finished hg ht) rfl
  | attendant a n member round b q hm hr hstep => exact .moved hr (.offered hm rfl hstep rfl) rfl
  | stopNext _ _ _ _ => exact .same rounds_stopAttendant
  | _ => exact .same rfl

theorem RoundsTurn.revises (h : RoundsTurn s t) :
    Revises (· = Round.fresh) (RoundGoes s t) s.rounds t.rounds := by
  cases h with
  | same ht => exact .same ht
  | opened ht => exact .added rfl ht
  | moved hr hgoes ht => exact .changed hr hgoes ht

/-! ## Rounds of a server -/

/-- A property of all entries, once one of them has been replaced. -/
theorem forall_set {α : Type} {P : α → Prop} {xs : List α} {i : Nat} {x : α}
    (h : ∀ (j : Nat) y, xs[j]? = some y → P y) (hx : P x) :
    ∀ (j : Nat) y, (xs.set i x)[j]? = some y → P y := by
  intro j y hy
  rcases of_getElem?_set hy with ⟨-, hy⟩ | ⟨-, rfl⟩
  · exact h j y hy
  · exact hx

/-- A round whose registrar is about to be hired has none yet. -/
theorem unstaffed_of_hiring {a : Address} (hl : s.agenda.Lawful) (hd : s.duties[k]? = some (.hiring r a))
    (hr : s.rounds[r]? = some round) : round.isStaffed = false := by
  obtain ⟨phase, -, -, -, hstand⟩ := hl.stand_of_duty (k := k) hd (by simp)
  obtain ⟨-, -, -, hb, -⟩ := hstand.of_hiring (.inr rfl)
  exact congrArg Prod.fst (badge_of_round hr hb)

theorem absent_of_hiring {a : Address} (hl : s.agenda.Lawful) (hd : s.duties[k]? = some (.hiring r a))
    (hr : s.rounds[r]? = some round) : round.registrar = .absent := by
  have hstaffed := unstaffed_of_hiring hl hd hr
  cases hg : round.registrar <;> simp_all [Round.isStaffed]

/-- A round that goes on keeps inbox and registrar together. -/
theorem RoundGoes.sound {round' : Round} (h : RoundGoes s t r round round') (hl : s.agenda.Lawful)
    (hr : s.rounds[r]? = some round) (hs : round.Sound) : round'.Sound := by
  cases h with
  | hired hd =>
      have habsent := absent_of_hiring hl hd hr
      exact hs.go (by simp [habsent, Registrar.hasShut]) rfl (by simp [Registrar.hasLeft]) fun _ => rfl
  | dismissed => exact hs.dismiss
  | poised _ hg _ => exact ⟨hs.capacity, hs.taken, hs.closed, hs.empty, hs.quit, fun _ => hg⟩
  | turned hshut _ hopen hquit _ => exact hs.go hshut hopen hquit (by simp)
  | takenStart hg ht =>
      exact hs.take ht (by simp [hg, Registrar.hasShut]) (by simp) (by simp [Registrar.hasLeft])
  | takenEnd hg ht =>
      exact hs.take ht (by simp [hg, Registrar.hasShut]) (by simp) (by simp [Registrar.hasLeft])
  | entered hg _ => exact hs.go (by simp [hg, Registrar.hasShut]) rfl (by simp [Registrar.hasLeft]) (by simp)
  | shut hg =>
      -- the registrar shuts the inbox on its way out
      refine ⟨hs.capacity, hs.taken, rfl, by simp, fun _ => ?_, by simp⟩
      exact hs.quit (by simp [hg, Registrar.hasLeft])
  | cleared hg ht _ =>
      refine hs.take ht (by simp [hg, Registrar.hasShut]) (by simp) fun _ => ?_
      exact hs.quit (by simp [hg, Registrar.hasLeft])
  | finished hg ht =>
      refine ⟨hs.capacity, hs.taken, ?_, fun _ => ?_, fun _ => ?_, by simp⟩
      · have hclosed := hs.closed
        rw [hg] at hclosed
        exact hclosed
      · exact (Channel.take?_eq_none_iff _).1 ht
      · exact hs.quit (by simp [hg, Registrar.hasLeft])
  | offered _ _ hstep _ =>
      rcases Attendant.lifecycle_of_access (Attendant.access_of_step hstep) with heq | ⟨notice, -, ho⟩
      · rw [heq]
        exact hs
      · exact hs.offer ho

/-- Moves keep inboxes and registrars together. -/
theorem sound_rounds_of_access (h : Access s m t) (hl : s.agenda.Lawful)
    (hs : ∀ (r : Nat) round, s.rounds[r]? = some round → round.Sound) :
    ∀ (r : Nat) round, t.rounds[r]? = some round → round.Sound := by
  intro r round' hr'
  rcases (rounds_of_access h).revises.get_from hr' with rfl | ⟨round, hr, rfl | hgoes⟩
  · exact Round.sound_fresh
  · exact hs r _ hr
  · exact hgoes.sound hl hr (hs r round hr)

end Server
end Courier
