import Courier.Proofs.Server.Stop

/-!
# Runs — what stays so of a run once it has come about

The accept loops of a server begin and end one after the other.  That a loop has begun or ended, that its round has
been told to end and that the run is over is never taken back.

- `Agenda.ended_of_turn`, `Agenda.badge_of_turn`, `Agenda.finished_of_turn` — one turn,
- `Server.Parted`, `Server.parted_of_access` — loops end after a request,
- `Server.dismissed_of_access` — a registrar that has been told to end is not told otherwise.
-/

namespace Courier

variable {μ : Type} [Marshaler μ]
namespace Agenda

variable {p q : Agenda} {j k r : Nat}

/-! ## Turns -/

/-- Loops end one at a time, after they have begun. -/
theorem ended_of_turn (h : Turn p q) (hl : p.Lawful) :
    q.ended = p.ended ∨ ∃ k, k ∈ p.begun ∧ q.ended = p.ended ++ [k] := by
  cases h with
  | begin k a _ =>
      refine .inl ?_
      rw [ended_call]
      exact List.append_nil _
  | call k outcome _ =>
      refine .inl ?_
      rw [ended_call]
      cases outcome <;> exact List.append_nil _
  | quit k hw hp =>
      refine .inr ⟨k, ?_, ended_call _⟩
      obtain ⟨duty, -, -, hstand⟩ := hl.stand_of_phase hp (Run.Phase.ne_of_isBetween hw rfl)
      obtain ⟨-, r, hseat, -⟩ := hstand.of_between hw
      exact List.mem_iff_getElem?.2 ⟨r, hseat.begun⟩
  | _ => exact .inl rfl

/-- A registrar that has begun has done so for good, and so has one that has been told to end. -/
theorem badge_of_turn (h : Turn p q) {b : Bool × Bool} (hb : p.badges[r]? = some b) :
    ∃ b', q.badges[r]? = some b' ∧ (b.1 = true → b'.1 = true) ∧ (b.2 = true → b'.2 = true) := by
  have hsame : q.badges[r]? = some b → ∃ b', q.badges[r]? = some b' ∧ (b.1 = true → b'.1 = true) ∧
      (b.2 = true → b'.2 = true) := fun hq => ⟨b, hq, id, id⟩
  have hmodify : ∀ {i : Nat} {f : Bool × Bool → Bool × Bool}, (b.1 = true → (f b).1 = true) →
      (b.2 = true → (f b).2 = true) → q.badges = p.badges.modify i f →
      ∃ b', q.badges[r]? = some b' ∧ (b.1 = true → b'.1 = true) ∧ (b.2 = true → b'.2 = true) := by
    intro i f h₁ h₂ hq
    by_cases hi : i = r
    · exact ⟨f b, by rw [hq, hi, List.getElem?_modify_eq, hb]; rfl, h₁, h₂⟩
    · exact hsame (by rw [hq, List.getElem?_modify_ne _ _ hi, hb])
  cases h with
  | openRound k a _ => exact hsame (getElem?_of_front (List.prefix_append ..) hb)
  | hire k i a _ => exact hmodify (fun _ => rfl) id rfl
  | dismiss k i _ => exact hmodify id (fun _ => rfl) rfl
  | _ => exact hsame hb

/-- A run that is over stays so. -/
theorem finished_of_turn (h : Turn p q) (hk : p.phases[k]? = some .finished) :
    q.phases[k]? = some .finished := by
  have hmove : ∀ {j : Nat} {phase phase' : Run.Phase}, p.phases[j]? = some phase → phase ≠ .finished →
      q.phases = p.phases.set j phase' → q.phases[k]? = some .finished := by
    intro j phase phase' hj hne hq
    have hjk : j ≠ k := by
      rintro rfl
      exact hne (Option.some.inj (hj.symm.trans hk))
    rw [hq, List.getElem?_set_ne hjk, hk]
  cases h with
  | claim _ => exact getElem?_of_front (List.prefix_append ..) hk
  | bound j a hp => exact hmove hp (by simp) rfl
  | forgo j hp => exact hmove hp (by simp) rfl
  | begin j a hp => exact hmove hp (by simp) rfl
  | wait j hw hp => exact hmove hp (Run.Phase.ne_of_isBetween hw.isBetween.1 rfl) rfl
  | call j outcome hp => exact hmove hp (by simp) rfl
  | quit j hw hp => exact hmove hp (Run.Phase.ne_of_isBetween hw rfl) rfl
  | leave j hp => exact hmove hp (by simp) rfl
  | finish j now c _ hp => exact hmove hp (by simp) rfl
  | _ => exact hk

/-! ## Looking at one run -/

/-- A run tells its registrar to end after its loop has ended. -/
theorem Lawful.ended_of_dismissed (hl : p.Lawful) (hk : p.begun[r]? = some k) {b : Bool}
    (hb : p.badges[r]? = some (b, true)) : k ∈ p.ended := by
  have hmem : k ∈ p.begun := List.mem_iff_getElem?.2 ⟨r, hk⟩
  obtain ⟨phase, hat⟩ : ∃ phase, p.phases[k]? = some phase :=
    ⟨_, List.getElem?_eq_getElem (hl.begun_lt k hmem)⟩
  -- no other round belongs to the run
  have hseat : ∀ {i : Nat} {b' : Bool × Bool}, p.Seat k i → p.badges[i]? = some b' → b' = (b, true) := by
    intro i b' hseat hb'
    obtain rfl := hl.begun_inj hk hseat.begun
    exact Option.some.inj (hb'.symm.trans hb)
  by_cases hfin : phase = .finished
  · exact ((hl.passed k (hfin ▸ hat)).published hmem).1
  · obtain ⟨duty, -, -, hstand⟩ := hl.stand_of_phase hat hfin
    cases hstand with
    | waiting _ hnot _ _ _ => exact absurd hmem hnot
    | opening a hbegun hlen _ _ =>
        -- the round of the run is about to be set up
        obtain rfl := hl.begun_inj hk hbegun
        simp at hb
    | hiring _ _ hs _ hb' _ => simpa using hseat hs hb'
    | opens _ hs _ hb' _ => simpa using hseat hs hb'
    | retiring hs _ hb' _ _ => simpa using hseat hs hb'
    | dismissing hs _ hb' _ _ => simpa using hseat hs hb'
    | parting _ _ _ hended _ => simp [hended]
    | leaving _ _ _ _ hended _ _ => exact hended

end Agenda

namespace Server

variable {s t : Server μ} {m : Move} {k r : Nat}

/-! ## Ends -/

/-- A loop that ends in this move belongs to a run that has been asked to. -/
theorem ended_of_access (h : Access s m t) (hk : k ∈ t.agenda.ended) :
    k ∈ s.agenda.ended ∨ s.dispatcher.isClosed k = true := by
  have hcall : ∀ {j : Nat} {c : Callback}, t.agenda.calls = s.agenda.calls ++ [(j, c)] → c ≠ .stopped →
      k ∈ s.agenda.ended := by
    intro j c ht hc
    have hnone : [(j, c)].filterMap Dispatcher.ends? = [] := by
      cases c <;> simp_all [Dispatcher.ends?]
    rwa [Agenda.ended, ht, List.filterMap_append, hnone, List.append_nil] at hk
  cases h with
  | begin j r a _ _ => exact .inl (hcall (c := .started a) rfl (by simp))
  | call j r outcome _ _ => exact .inl (hcall rfl (by cases outcome <;> simp [Dispatcher.callbackOf]))
  | quit j r hr _ hc =>
      have hended : (s.agenda.call j .stopped).ended = s.agenda.ended ++ [j] := Agenda.ended_call _
      have hk' : k ∈ (s.agenda.call j .stopped).ended := hk
      rw [hended, List.mem_append, List.mem_singleton] at hk'
      rcases hk' with hk' | rfl
      · exact .inl hk'
      · exact .inr (by simpa only [Dispatcher.isClosed, hr] using hc)
  | stopNext _ _ _ _ | turnAway _ _ _ _ _ _ | clearStart _ _ _ _ _ _ _ | enter _ _ _ _ _ _ | hire _ _ _ _ _
  | dismiss _ _ _ _ => exact .inl (by simpa [agenda, Agenda.ended, setCall, setRegister, turnTo] using hk)
  | _ => exact .inl hk

/-- Ends are reported by accept loops. -/
theorem stopped_or_parting (h : Access s m t) :
    t.outlets.stopped = s.outlets.stopped ∨
      ∃ k intact, m = .work k intact ∧ s.duties[k]? = some .parting := by
  cases h with
  | part k intact _ hd _ => exact .inr ⟨k, intact, rfl, hd⟩
  | stopNext _ _ _ _ | turnAway _ _ _ _ _ _ | clearStart _ _ _ _ _ _ _ | enter _ _ _ _ _ _ | hire _ _ _ _ _
  | dismiss _ _ _ _ => exact .inl (by simp [setCall, setRegister, turnTo])
  | _ => exact .inl rfl

/-- Loops end after they have begun, and after a request. -/
structure Parted (s : Server μ) : Prop where
  asked : ∀ k ∈ s.agenda.ended, s.dispatcher.isClosed k = true
  begun : ∀ k ∈ s.agenda.ended, k ∈ s.agenda.begun

/-- Registrar `r` belongs to run `k` and has been told to end. -/
def Dismissed (s : Server μ) (k r : Nat) : Prop :=
  s.agenda.begun[r]? = some k ∧ ∃ b, s.agenda.badges[r]? = some (b, true)

/-- A run that is about to report its end has dismissed its registrar. -/
theorem dismissed_of_parting (hl : s.agenda.Lawful) (hd : s.duties[k]? = some .parting) :
    ∃ r, s.Dismissed k r := by
  obtain ⟨phase, -, -, -, hstand⟩ := hl.stand_of_duty (k := k) hd (by simp)
  obtain ⟨-, r, es, hs, -, hb, -, -⟩ := hstand.of_parting
  exact ⟨r, hs.begun, _, hb⟩

theorem dismissed_of_access (h : Access s m t) (hs : s.Dismissed k r) : t.Dismissed k r := by
  obtain ⟨hk, b, hb⟩ := hs
  refine ⟨Agenda.getElem?_of_front (begun_of_access h) hk, ?_⟩
  rcases turn_of_access h with heq | hturn
  · exact ⟨b, by rw [heq, hb]⟩
  · obtain ⟨⟨b', quit⟩, hb', -, hquit⟩ := Agenda.badge_of_turn hturn hb
    obtain rfl : quit = true := hquit rfl
    exact ⟨b', hb'⟩

theorem parted_of_access (h : Access s m t) (hl : s.agenda.Lawful) (hp : s.Parted) : t.Parted where
  asked := by
    intro k hk
    rcases ended_of_access h hk with hk' | hclosed
    · exact isClosed_of_access h (hp.asked k hk')
    · exact isClosed_of_access h hclosed
  begun := by
    intro k hk
    refine (begun_of_access h).subset ?_
    rcases turn_of_access h with heq | hturn
    · exact hp.begun k (heq ▸ hk)
    · rcases Agenda.ended_of_turn hturn hl with heq | ⟨j, hj, heq⟩
      · exact hp.begun k (heq ▸ hk)
      · rw [heq, List.mem_append, List.mem_singleton] at hk
        rcases hk with hk | rfl
        · exact hp.begun k hk
        · exact hj

theorem parted_of_build {b : Builder μ} (h : b.build = .ok s) : s.Parted := by
  obtain ⟨codec, config, rfl⟩ := eq_of_build h
  constructor <;> simp [agenda, Agenda.ended]

end Server
end Courier
