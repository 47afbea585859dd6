import Courier.Proofs.Revision
import Courier.Proofs.Server.Agenda

/-!
# Law — only the last run of a server may not be over

The means that the accept loops share pass from one run to the next.  `Stand` lists the points at which a run
that is not over can be, with what the server has set up for it by then; `Over` says what a run leaves behind.

- `Agenda.Lawful` — every run is over or stands at one of the points, the latter at most one,
- `Agenda.lawful_of_turn`, `Server.lawful_of_access` — moves keep it.
-/

namespace Courier

variable {μ : Type} [Marshaler μ]

/-- Work of an accept loop that shows only between hiring and retiring. -/
def Duty.isService : Duty → Bool
  | .announcing _ | .admitting _ | .joining _ | .founding _ _ | .starting _ | .reporting _ => true
  | _ => false

namespace Agenda

/-! ## Where a run can be -/

/-- All ends up to the `n`-th have been reported, as far as anybody receives them. -/
def Published (p : Agenda) (n : Nat) : Prop :=
  ∀ e, p.ends = some e → e = n

/-- The end of run `k` has been reported, as far as anybody receives it. -/
def HasPublished (p : Agenda) (k : Nat) : Prop :=
  ∀ e, p.ends = some e → ∃ i, i < e ∧ p.ended[i]? = some k

/-- Round `r` is the last one, and run `k` has set it up. -/
structure Seat (p : Agenda) (k r : Nat) : Prop where
  begun : p.begun[r]? = some k
  last : p.begun.length = r + 1
  badges : p.badges.length = r + 1

/-- Points of a run between hiring and retiring, with round `r`. -/
inductive Opens (r : Nat) : Run.Phase → Duty → Prop where
  | announcing (a : Address) : Opens r (.calling (.started a)) (.announcing a)
  | announced (a : Address) : Opens r (.calling (.started a)) .done
  | polling : Opens r .polling .idle
  | accepting : Opens r .accepting .idle
  | accepted (outcome : Except IoError PeerId) : Opens r (.accepted outcome) .idle
  | pausing (deadline : Nat) : Opens r (.pausing deadline) .idle
  | admitting (peer : PeerId) : Opens r (.calling (.accepted peer)) (.admitting peer)
  | joining (peer : PeerId) : Opens r (.calling (.accepted peer)) (.joining peer)
  | founding (peer : PeerId) : Opens r (.calling (.accepted peer)) (.founding peer r)
  | starting (peer : PeerId) (a : AttendantId) : Opens r (.calling (.accepted peer)) (.starting a)
  | served (peer : PeerId) : Opens r (.calling (.accepted peer)) .done
  | reporting (e : IoError) : Opens r (.calling (.acceptFailed e)) (.reporting e)
  | reported (e : IoError) : Opens r (.calling (.acceptFailed e)) .done

theorem Opens.of_between {r : Nat} {phase : Run.Phase} (h : phase.isBetween = true) : Opens r phase .idle := by
  cases phase with
  | polling => exact .polling
  | accepting => exact .accepting
  | accepted outcome => exact .accepted outcome
  | pausing deadline => exact .pausing deadline
  | _ => simp [Run.Phase.isBetween] at h

/-- Points of a run that is not over, with what the server has set up for it. -/
inductive Stand (p : Agenda) (k : Nat) : Run.Phase → Duty → Prop where
  | waiting {phase : Run.Phase} (hp : phase = .binding ∨ ∃ a, phase = .spawned a) (hk : k ∉ p.begun)
      (hr : p.round = none) (hb : p.badges.length = p.begun.length)
      (he : p.Published p.ended.length) : Stand p k phase .idle
  | opening (a : Address) (hk : p.begun[p.badges.length]? = some k)
      (hl : p.begun.length = p.badges.length + 1) (hr : p.round = none)
      (he : p.Published p.ended.length) : Stand p k (.calling (.started a)) (.opening a)
  | hiring (a : Address) {r : Nat} {duty : Duty} (hd : duty = .reopening r a ∨ duty = .hiring r a)
      (hs : p.Seat k r) (hr : p.round = some r) (hb : p.badges[r]? = some (false, false))
      (he : p.Published p.ended.length) : Stand p k (.calling (.started a)) duty
  | opens {phase : Run.Phase} {duty : Duty} {r : Nat} (ho : Opens r phase duty) (hs : p.Seat k r)
      (hr : p.round = some r) (hb : p.badges[r]? = some (true, false))
      (he : p.Published p.ended.length) : Stand p k phase duty
  | retiring {r : Nat} {es : List Nat} (hs : p.Seat k r) (hr : p.round = some r)
      (hb : p.badges[r]? = some (true, false)) (hk : p.ended = es ++ [k]) (he : p.Published es.length) :
      Stand p k (.calling .stopped) .retiring
  | dismissing {r : Nat} {es : List Nat} (hs : p.Seat k r) (hr : p.round = none)
      (hb : p.badges[r]? = some (true, false)) (hk : p.ended = es ++ [k]) (he : p.Published es.length) :
      Stand p k (.calling .stopped) (.dismissing r)
  | parting {r : Nat} {es : List Nat} (hs : p.Seat k r) (hr : p.round = none)
      (hb : p.badges[r]? = some (true, true)) (hk : p.ended = es ++ [k]) (he : p.Published es.length) :
      Stand p k (.calling .stopped) .parting
  | leaving {phase : Run.Phase} {duty : Duty} {r : Nat}
      (hl : phase = .calling .stopped ∧ duty = .done ∨ phase = .leaving ∧ duty = .idle)
      (hs : p.Seat k r) (hr : p.round = none) (hb : p.badges[r]? = some (true, true))
      (hk : k ∈ p.ended) (hp : p.HasPublished k) (he : p.Published p.ended.length) :
      Stand p k phase duty

/-- What a run leaves behind. -/
structure Over (p : Agenda) (k : Nat) : Prop where
  idle : p.duties[k]? = some .idle
  dismissed : ∀ r : Nat, p.begun[r]? = some k → p.badges[r]? = some (true, true)
  published : k ∈ p.begun → k ∈ p.ended ∧ p.HasPublished k

/-- What the server is like when every run is over. -/
structure Rest (p : Agenda) : Prop where
  state : p.state = .idle
  round : p.round = none
  badges : p.badges.length = p.begun.length
  published : p.Published p.ended.length

/-- Every run is over or, the last of them only, stands at one of the points of `Stand`. -/
structure Lawful (p : Agenda) : Prop where
  length : p.duties.length = p.phases.length
  nodup : p.begun.Nodup
  begun_lt : ∀ k ∈ p.begun, k < p.phases.length
  passed : ∀ k : Nat, p.phases[k]? = some .finished → p.Over k
  live : ∀ (k : Nat) phase duty, p.phases[k]? = some phase → phase ≠ .finished → p.duties[k]? = some duty →
    p.state ≠ .idle ∧ p.Stand k phase duty
  last : ∀ (k : Nat) phase, p.phases[k]? = some phase → phase ≠ .finished → k + 1 = p.phases.length
  rest : (∀ (k : Nat) phase, p.phases[k]? = some phase → phase = .finished) → p.Rest

variable {p q : Agenda} {j k r : Nat} {phase phase' : Run.Phase} {duty duty' : Duty}

/-! ## Looking at one run -/

namespace Lawful

theorem duty_of_phase (h : p.Lawful) (hk : p.phases[k]? = some phase) :
    ∃ duty, p.duties[k]? = some duty := by
  obtain ⟨hlt, -⟩ := List.getElem?_eq_some_iff.1 hk
  exact ⟨_, List.getElem?_eq_getElem (h.length ▸ hlt)⟩

/-- A run whose loop has something to do is not over. -/
theorem stand_of_duty (h : p.Lawful) (hd : p.duties[k]? = some duty) (hne : duty ≠ .idle) :
    ∃ phase, p.phases[k]? = some phase ∧ phase ≠ .finished ∧ p.state ≠ .idle ∧ p.Stand k phase duty := by
  obtain ⟨hlt, -⟩ := List.getElem?_eq_some_iff.1 hd
  rw [h.length] at hlt
  obtain ⟨phase, hk⟩ : ∃ phase, p.phases[k]? = some phase := ⟨_, List.getElem?_eq_getElem hlt⟩
  have hlive : phase ≠ .finished := by
    rintro rfl
    exact hne (Option.some.inj (hd.symm.trans (h.passed k hk).idle))
  obtain ⟨hs, hstand⟩ := h.live k phase duty hk hlive hd
  exact ⟨phase, hk, hlive, hs, hstand⟩

/-- A run whose loop waits or is about to leave has nothing to do inside a callback. -/
theorem stand_of_phase (h : p.Lawful) (hk : p.phases[k]? = some phase) (hne : phase ≠ .finished) :
    ∃ duty, p.duties[k]? = some duty ∧ p.state ≠ .idle ∧ p.Stand k phase duty := by
  obtain ⟨duty, hd⟩ := h.duty_of_phase hk
  obtain ⟨hs, hstand⟩ := h.live k _ _ hk hne hd
  exact ⟨duty, hd, hs, hstand⟩

/-- A run has one round. -/
theorem begun_inj {i j : Nat} (h : p.Lawful) (hi : p.begun[i]? = some k) (hj : p.begun[j]? = some k) : i = j := by
  obtain ⟨hlt, -⟩ := List.getElem?_eq_some_iff.1 hi
  exact (List.getElem?_inj hlt h.nodup).1 (hi.trans hj.symm)

end Lawful

/-! ## Changing one run -/

/-- Whatever happens to run `k`, what the others have left behind stays. -/
structure Follows (p q : Agenda) (k : Nat) : Prop where
  begun : q.begun = p.begun ∨ k ∉ p.begun ∧ q.begun = p.begun ++ [k]
  ended : p.ended <+: q.ended
  ends : ∀ e, q.ends = some e → ∃ e', p.ends = some e' ∧ e' ≤ e
  badges : ∀ r j : Nat, j ≠ k → p.begun[r]? = some j → ∀ b, p.badges[r]? = some b → q.badges[r]? = some b

theorem Follows.of_eq (hc : q.calls = p.calls) (he : q.ends = p.ends)
    (hb : ∀ r j : Nat, j ≠ k → p.begun[r]? = some j → ∀ b, p.badges[r]? = some b → q.badges[r]? = some b) :
    Follows p q k where
  begun := .inl (congrArg (List.filterMap Dispatcher.begins?) hc)
  ended := by
    have hended : q.ended = p.ended := congrArg (List.filterMap Dispatcher.ends?) hc
    exact hended ▸ List.prefix_rfl
  ends := fun e h => ⟨e, he ▸ h, Nat.le_refl e⟩
  badges := hb

theorem getElem?_of_front {α : Type} {xs ys : List α} {i : Nat} {x : α} (h : xs <+: ys)
    (hx : xs[i]? = some x) : ys[i]? = some x := by
  obtain ⟨rest, rfl⟩ := h
  obtain ⟨hlt, -⟩ := List.getElem?_eq_some_iff.1 hx
  rw [List.getElem?_append_left hlt, hx]

theorem Follows.past (hf : Follows p q k) (h : p.Over j) (hj : j ≠ k)
    (hd : q.duties[j]? = p.duties[j]?) : q.Over j := by
  have hback : ∀ r : Nat, q.begun[r]? = some j → p.begun[r]? = some j := by
    intro r hr
    rcases hf.begun with hb | ⟨-, hb⟩
    · rwa [hb] at hr
    · rcases of_getElem?_concat (hb ▸ hr) with hr | ⟨-, heq⟩
      · exact hr
      · exact absurd heq hj
  refine ⟨hd.trans h.idle, fun r hr => hf.badges r j hj (hback r hr) _ (h.dismissed r (hback r hr)), ?_⟩
  intro hm
  obtain ⟨r, hr⟩ := List.mem_iff_getElem?.1 hm
  obtain ⟨hended, hpub⟩ := h.published (List.mem_iff_getElem?.2 ⟨r, hback r hr⟩)
  refine ⟨hf.ended.subset hended, fun e he => ?_⟩
  obtain ⟨e', he', hle⟩ := hf.ends e he
  obtain ⟨i, hi, hat⟩ := hpub e' he'
  exact ⟨i, by omega, getElem?_of_front hf.ended hat⟩

theorem Lawful.update (h : p.Lawful) (phase' : Run.Phase) (duty' : Duty) (hk : p.phases[k]? = some phase)
    (hlive : phase ≠ .finished)
    (hphases : q.phases = p.phases.set k phase') (hduties : q.duties = p.duties.set k duty')
    (hf : Follows p q k)
    (hnew : phase' ≠ .finished ∧ q.state ≠ .idle ∧ q.Stand k phase' duty' ∨
      phase' = .finished ∧ q.Over k ∧ q.Rest) : q.Lawful := by
  obtain ⟨hlt, -⟩ := List.getElem?_eq_some_iff.1 hk
  have hphase : q.phases[k]? = some phase' := by rw [hphases, List.getElem?_set_self hlt]
  have hduty : q.duties[k]? = some duty' := by rw [hduties, List.getElem?_set_self (h.length ▸ hlt)]
  have hphases' : ∀ j : Nat, j ≠ k → q.phases[j]? = p.phases[j]? := fun j hj => by
    rw [hphases, List.getElem?_set_ne (Ne.symm hj)]
  have hduties' : ∀ j : Nat, j ≠ k → q.duties[j]? = p.duties[j]? := fun j hj => by
    rw [hduties, List.getElem?_set_ne (Ne.symm hj)]
  -- every other run is over, before and after
  have hothers : ∀ (j : Nat) ph, j ≠ k → q.phases[j]? = some ph → ph = .finished := by
    intro j ph hj hp
    rw [hphases' j hj] at hp
    by_cases hph : ph = .finished
    · exact hph
    · have hlastj := h.last j ph hp hph
      have hlastk := h.last k phase hk hlive
      omega
  refine ⟨?_, ?_, ?_, ?_, ?_, ?_, ?_⟩
  · rw [hphases, hduties, List.length_set, List.length_set, h.length]
  · rcases hf.begun with hb | ⟨hn, hb⟩
    · rw [hb]
      exact h.nodup
    · rw [hb, List.nodup_append]
      refine ⟨h.nodup, by simp, fun a ha b hb => ?_⟩
      rintro rfl
      exact hn (List.mem_singleton.1 hb ▸ ha)
  · intro j hj
    rw [hphases, List.length_set]
    rcases hf.begun with hb | ⟨-, hb⟩
    · exact h.begun_lt j (hb ▸ hj)
    · rw [hb, List.mem_append, List.mem_singleton] at hj
      rcases hj with hj | rfl
      · exact h.begun_lt j hj
      · exact hlt
  · intro j hj
    by_cases hjk : j = k
    · obtain rfl := hjk
      rcases hnew with ⟨hne, -⟩ | ⟨-, hover, -⟩
      · exact absurd (Option.some.inj (hphase.symm.trans hj)) hne
      · exact hover
    · rw [hphases' j hjk] at hj
      exact hf.past (h.passed j hj) hjk (hduties' j hjk)
  · intro j ph d hj hne hd
    by_cases hjk : j = k
    · obtain rfl := hjk
      obtain rfl := Option.some.inj (hphase.symm.trans hj)
      obtain rfl := Option.some.inj (hduty.symm.trans hd)
      rcases hnew with ⟨-, hs, hstand⟩ | ⟨hfin, -⟩
      · exact ⟨hs, hstand⟩
      · exact absurd hfin hne
    · exact absurd (hothers j ph hjk hj) hne
  · intro j ph hj hne
    have hjk : j = k := Classical.byContradiction fun hjk => hne (hothers j ph hjk hj)
    rw [hjk, hphases, List.length_set]
    exact h.last k phase hk hlive
  · intro hall
    rcases hnew with ⟨hne, -⟩ | ⟨-, -, hrest⟩
    · exact absurd (hall k phase' hphase) hne
    · exact hrest

theorem set_of_at {α : Type} {xs : List α} {x : α} (h : xs[k]? = some x) : xs = xs.set k x := by
  obtain ⟨hlt, rfl⟩ := List.getElem?_eq_some_iff.1 h
  rw [List.set_getElem_self]

/-- A step inside a callback. -/
theorem Lawful.turnTo (h : p.Lawful) (hk : p.phases[k]? = some phase) (hlive : phase ≠ .finished)
    (hphases : q.phases = p.phases) (hduties : q.duties = p.duties.set k duty') (hf : Follows p q k)
    (hs : q.state ≠ .idle) (hstand : q.Stand k phase duty') : q.Lawful :=
  h.update phase duty' hk hlive (hphases.trans (set_of_at hk)) hduties hf (.inl ⟨hlive, hs, hstand⟩)

/-! ## Reading a point off its phase or its duty -/

namespace Stand

theorem of_waiting (h : p.Stand k phase duty) (hp : phase = .binding ∨ ∃ a, phase = .spawned a) :
    duty = .idle ∧ k ∉ p.begun ∧ p.round = none ∧ p.badges.length = p.begun.length ∧
      p.Published p.ended.length := by
  cases h with
  | waiting _ hk hr hb he => exact ⟨rfl, hk, hr, hb, he⟩
  | opens ho _ _ _ _ => cases ho <;> simp at hp
  | leaving hl _ _ _ _ _ _ => rcases hl with ⟨rfl, -⟩ | ⟨rfl, -⟩ <;> simp at hp
  | _ => simp at hp

theorem of_between (h : p.Stand k phase duty) (hp : phase.isBetween = true) :
    duty = .idle ∧ ∃ r, p.Seat k r ∧ p.round = some r ∧ p.badges[r]? = some (true, false) ∧
      p.Published p.ended.length := by
  cases h with
  | opens ho hs hr hb he =>
      refine ⟨?_, _, hs, hr, hb, he⟩
      cases ho <;> simp [Run.Phase.isBetween] at hp <;> rfl
  | waiting hw _ _ _ _ => rcases hw with rfl | ⟨a, rfl⟩ <;> simp [Run.Phase.isBetween] at hp
  | leaving hl _ _ _ _ _ _ => rcases hl with ⟨rfl, -⟩ | ⟨rfl, -⟩ <;> simp [Run.Phase.isBetween] at hp
  | _ => simp [Run.Phase.isBetween] at hp

/-- A round with a registrar that has yet to be hired. -/
theorem of_hiring {a : Address} (h : p.Stand k phase duty) (hd : duty = .reopening r a ∨ duty = .hiring r a) :
    phase = .calling (.started a) ∧ p.Seat k r ∧ p.round = some r ∧ p.badges[r]? = some (false, false) ∧
      p.Published p.ended.length := by
  cases h with
  | hiring a' hd' hs hr hb he =>
      obtain ⟨rfl, rfl⟩ : r = _ ∧ a = a' := by rcases hd with rfl | rfl <;> simpa using hd'
      exact ⟨rfl, hs, hr, hb, he⟩
  | opens ho _ _ _ _ => rcases hd with rfl | rfl <;> cases ho
  | leaving hl _ _ _ _ _ _ => rcases hd with rfl | rfl <;> simp at hl
  | _ => simp at hd

/-- Work between hiring and retiring. -/
theorem of_service (h : p.Stand k phase duty) (hd : duty.isService = true) :
    ∃ r, Opens r phase duty ∧ p.Seat k r ∧ p.round = some r ∧ p.badges[r]? = some (true, false) ∧
      p.Published p.ended.length := by
  cases h with
  | opens ho hs hr hb he => exact ⟨_, ho, hs, hr, hb, he⟩
  | hiring a hd' _ _ _ _ => rcases hd' with rfl | rfl <;> simp [Duty.isService] at hd
  | leaving hl _ _ _ _ _ _ => rcases hl with ⟨-, rfl⟩ | ⟨-, rfl⟩ <;> simp [Duty.isService] at hd
  | _ => simp [Duty.isService] at hd

/-- An end that has yet to be reported, behind a registrar that has been dismissed. -/
theorem of_parting (h : p.Stand k phase .parting) :
    phase = .calling .stopped ∧ ∃ r es, p.Seat k r ∧ p.round = none ∧ p.badges[r]? = some (true, true) ∧
      p.ended = es ++ [k] ∧ p.Published es.length := by
  cases h with
  | parting hs hr hb hk he => exact ⟨rfl, _, _, hs, hr, hb, hk, he⟩
  | hiring _ hd _ _ _ _ => simp at hd
  | opens ho _ _ _ _ => cases ho
  | leaving hl _ _ _ _ _ _ => simp at hl

end Stand

/-! ## Turns -/

theorem begun_call (c : Callback) :
    (p.call k c).begun = p.begun ++ [(k, c)].filterMap Dispatcher.begins? :=
  List.filterMap_append

theorem ended_call (c : Callback) :
    (p.call k c).ended = p.ended ++ [(k, c)].filterMap Dispatcher.ends? :=
  List.filterMap_append

theorem Seat.of_eq (h : p.Seat k r) (hc : q.calls = p.calls) (hb : q.badges.length = p.badges.length) :
    q.Seat k r where
  begun := by
    have hbegun : q.begun = p.begun := congrArg (List.filterMap Dispatcher.begins?) hc
    rw [hbegun, h.begun]
  last := by
    have hbegun : q.begun = p.begun := congrArg (List.filterMap Dispatcher.begins?) hc
    rw [hbegun, h.last]
  badges := hb.trans h.badges

/-- A round that belongs to run `k` is no other run's. -/
theorem Seat.ne (h : p.Seat k r) {i j : Nat} (hj : j ≠ k) (hi : p.begun[i]? = some j) : i ≠ r := by
  rintro rfl
  exact hj (Option.some.inj (hi.symm.trans h.begun))

theorem lawful_claim (h : p.Lawful) (hd : p.state = .idle) :
    ({ p with
        state := .binding
        phases := p.phases ++ [.binding]
        duties := p.duties ++ [.idle] } : Agenda).Lawful := by
  -- an idle listener means that every run is over
  have hall : ∀ (j : Nat) ph, p.phases[j]? = some ph → ph = .finished := by
    intro j ph hj
    refine Classical.byContradiction fun hne => ?_
    obtain ⟨_, _, hs, _⟩ := h.stand_of_phase hj hne
    exact hs hd
  have hrest := h.rest hall
  have hlast : ∀ (j : Nat) ph, (p.phases ++ [.binding])[j]? = some ph → ph ≠ .finished →
      j = p.phases.length ∧ ph = .binding := by
    intro j ph hj hne
    rcases of_getElem?_concat hj with hj | hlast
    · exact absurd (hall j ph hj) hne
    · exact hlast
  have hfin : ∀ j : Nat, (p.phases ++ [.binding])[j]? = some .finished →
      p.phases[j]? = some .finished := by
    intro j hj
    rcases of_getElem?_concat hj with hj | ⟨-, hphase⟩
    · exact hj
    · simp at hphase
  refine ⟨?_, h.nodup, ?_, ?_, ?_, ?_, ?_⟩
  · simp [h.length]
  · intro j hj
    have hlt : j < p.phases.length := h.begun_lt j hj
    have hlen : (p.phases ++ [Run.Phase.binding]).length = p.phases.length + 1 := List.length_append
    exact hlen ▸ Nat.lt_succ_of_lt hlt
  · intro j hj
    have hover := h.passed j (hfin j hj)
    obtain ⟨hlt, -⟩ := List.getElem?_eq_some_iff.1 (hfin j hj)
    refine ⟨?_, hover.dismissed, hover.published⟩
    have hat : (p.duties ++ [Duty.idle])[j]? = p.duties[j]? :=
      List.getElem?_append_left (h.length ▸ hlt)
    exact hat.trans hover.idle
  · intro j ph d hj hne hdj
    obtain ⟨rfl, rfl⟩ := hlast j ph hj hne
    have hd' : d = .idle := by
      have hdj' : (p.duties ++ [Duty.idle])[p.duties.length]? = some d := by
        rw [h.length]
        exact hdj
      simpa using hdj'.symm
    rw [hd']
    refine ⟨by simp, .waiting (.inl rfl) ?_ hrest.round hrest.badges hrest.published⟩
    exact fun hm => Nat.lt_irrefl _ (h.begun_lt _ hm)
  · intro j ph hj hne
    have hlen : (p.phases ++ [Run.Phase.binding]).length = p.phases.length + 1 := List.length_append
    rw [(hlast j ph hj hne).1, ← hlen]
  · intro hbad
    have hcontra := hbad p.phases.length .binding (by simp)
    simp at hcontra

theorem lawful_begin (h : p.Lawful) {a : Address} (hp : p.phases[k]? = some (.spawned a)) :
    (p.call k (.started a)).Lawful := by
  obtain ⟨duty, hd, hs, hstand⟩ := h.stand_of_phase hp (by simp)
  obtain ⟨-, hk, hr, hb, he⟩ := hstand.of_waiting (.inr ⟨a, rfl⟩)
  have hbegun : (p.call k (.started a)).begun = p.begun ++ [k] := begun_call _
  have hended : (p.call k (.started a)).ended = p.ended := by
    rw [ended_call]
    exact List.append_nil _
  refine h.update (.calling (.started a)) (.opening a) hp (by simp) rfl rfl ?_
    (.inl ⟨by simp, hs, ?_⟩)
  · refine ⟨.inr ⟨hk, hbegun⟩, ?_, fun e h => ⟨e, h, Nat.le_refl e⟩, fun _ _ _ _ _ hb => hb⟩
    exact hended ▸ List.prefix_rfl
  · have hbadges : (p.call k (.started a)).badges = p.badges := rfl
    refine .opening a ?_ ?_ hr ?_
    · rw [hbegun, hbadges, hb]
      simp
    · rw [hbegun, hbadges, hb]
      simp
    · rw [hended]
      exact he

theorem lawful_reported (h : p.Lawful) (outcome : Except IoError PeerId)
    (hp : p.phases[k]? = some (.accepted outcome)) : (p.call k (Dispatcher.callbackOf outcome)).Lawful := by
  obtain ⟨duty, hd, hs, hstand⟩ := h.stand_of_phase hp (by simp)
  obtain ⟨-, r, hseat, hr, hb, he⟩ := hstand.of_between rfl
  have hbegun : (p.call k (Dispatcher.callbackOf outcome)).begun = p.begun := by
    rw [begun_call]
    cases outcome <;> exact List.append_nil _
  have hended : (p.call k (Dispatcher.callbackOf outcome)).ended = p.ended := by
    rw [ended_call]
    cases outcome <;> exact List.append_nil _
  refine h.update (.calling (Dispatcher.callbackOf outcome)) (.ofCallback (Dispatcher.callbackOf outcome))
    hp (by simp) rfl rfl ?_ (.inl ⟨by simp, hs, ?_⟩)
  · refine ⟨.inl hbegun, ?_, fun e h => ⟨e, h, Nat.le_refl e⟩, fun _ _ _ _ _ hb => hb⟩
    exact hended ▸ List.prefix_rfl
  · have hseat' : (p.call k (Dispatcher.callbackOf outcome)).Seat k r :=
      ⟨by rw [hbegun, hseat.begun], by rw [hbegun, hseat.last], hseat.badges⟩
    have hpub : (p.call k (Dispatcher.callbackOf outcome)).Published
        (p.call k (Dispatcher.callbackOf outcome)).ended.length := by
      rw [hended]
      exact he
    cases outcome with
    | ok peer => exact .opens (.admitting peer) hseat' hr hb hpub
    | error e => exact .opens (.reporting e) hseat' hr hb hpub

theorem lawful_quit (h : p.Lawful) (hp : p.phases[k]? = some phase) (hw : phase.isBetween = true) :
    (p.call k .stopped).Lawful := by
  have hlive : phase ≠ .finished := Run.Phase.ne_of_isBetween hw rfl
  obtain ⟨duty, hd, hs, hstand⟩ := h.stand_of_phase hp hlive
  obtain ⟨-, r, hseat, hr, hb, he⟩ := hstand.of_between hw
  have hbegun : (p.call k .stopped).begun = p.begun := by
    rw [begun_call]
    exact List.append_nil _
  have hended : (p.call k .stopped).ended = p.ended ++ [k] := ended_call _
  refine h.update (.calling .stopped) .retiring hp hlive rfl rfl ?_
    (.inl ⟨by simp, hs, ?_⟩)
  · refine ⟨.inl hbegun, ?_, fun e h => ⟨e, h, Nat.le_refl e⟩, fun _ _ _ _ _ hb => hb⟩
    rw [hended]
    exact List.prefix_append ..
  · exact .retiring ⟨by rw [hbegun, hseat.begun], by rw [hbegun, hseat.last], hseat.badges⟩ hr hb hended he

theorem lawful_leave (h : p.Lawful) (hp : p.phases[k]? = some .leaving) :
    ({ p.move k .finished .idle with state := .idle } : Agenda).Lawful := by
  obtain ⟨duty, hd, hs, hstand⟩ := h.stand_of_phase hp (by simp)
  cases hstand with
  | waiting hw _ _ _ _ => simp at hw
  | opens ho _ _ _ _ => cases ho
  | leaving hl hseat hr hb hk hpub he =>
      refine h.update .finished .idle hp (by simp) rfl rfl
        (.of_eq rfl rfl fun _ _ _ _ _ hb => hb) (.inr ⟨rfl, ?_, ?_⟩)
      · obtain ⟨hlt, -⟩ := List.getElem?_eq_some_iff.1 hd
        refine ⟨List.getElem?_set_self hlt, fun i hi => ?_, fun _ => ⟨hk, hpub⟩⟩
        -- the only round of the run is the one that has been dismissed
        have hbegun : p.begun[i]? = some k := hi
        obtain rfl := h.begun_inj hbegun hseat.begun
        exact hb
      · exact ⟨rfl, hr, hseat.badges.trans hseat.last.symm, he⟩

theorem lawful_forgo (h : p.Lawful) (hp : p.phases[k]? = some .binding) :
    ({ p with state := .idle, phases := p.phases.set k .finished } : Agenda).Lawful := by
  obtain ⟨duty, hd, hs, hstand⟩ := h.stand_of_phase hp (by simp)
  obtain ⟨rfl, hk, hr, hb, he⟩ := hstand.of_waiting (.inl rfl)
  refine h.update .finished .idle hp (by simp) rfl (set_of_at hd)
    (.of_eq rfl rfl fun _ _ _ _ _ hb => hb) (.inr ⟨rfl, ?_, ⟨rfl, hr, hb, he⟩⟩)
  exact ⟨hd, fun i hi => absurd (List.mem_iff_getElem?.2 ⟨i, hi⟩) hk, fun hm => absurd hm hk⟩

theorem lawful_bound (h : p.Lawful) (a : Address) (hp : p.phases[k]? = some .binding) :
    ({ p with state := .listening a, phases := p.phases.set k (.spawned a) } : Agenda).Lawful := by
  obtain ⟨duty, hd, hs, hstand⟩ := h.stand_of_phase hp (by simp)
  obtain ⟨rfl, hk, hr, hb, he⟩ := hstand.of_waiting (.inl rfl)
  exact h.update (.spawned a) .idle hp (by simp) rfl (set_of_at hd)
    (.of_eq rfl rfl fun _ _ _ _ _ hb => hb)
    (.inl ⟨by simp, by simp, .waiting (.inr ⟨a, rfl⟩) hk hr hb he⟩)

theorem lawful_wait (h : p.Lawful) (hw : Dispatcher.Waits phase phase') (hp : p.phases[k]? = some phase) :
    (p.move k phase' .idle).Lawful := by
  obtain ⟨hfrom, hto⟩ := hw.isBetween
  have hlive : ∀ {ph : Run.Phase}, ph.isBetween = true → ph ≠ .finished :=
    fun hph => Run.Phase.ne_of_isBetween hph rfl
  obtain ⟨duty, hd, hs, hstand⟩ := h.stand_of_phase hp (hlive hfrom)
  obtain ⟨-, r, hseat, hr, hb, he⟩ := hstand.of_between hfrom
  exact h.update phase' .idle hp (hlive hfrom) rfl rfl
    (.of_eq rfl rfl fun _ _ _ _ _ hb => hb)
    (.inl ⟨hlive hto, hs, .opens (.of_between hto) (hseat.of_eq rfl rfl) hr hb he⟩)

theorem lawful_openRound (h : p.Lawful) {a : Address} (hd : p.duties[k]? = some (.opening a)) :
    ({ p with badges := p.badges ++ [(false, false)], round := some p.badges.length }.turnTo k
      (.reopening p.badges.length a)).Lawful := by
  obtain ⟨phase, hp, hlive, hs, hstand⟩ := h.stand_of_duty hd (by simp)
  cases hstand with
  | hiring _ hd' _ _ _ _ => simp at hd'
  | opens ho _ _ _ _ => cases ho
  | leaving hl _ _ _ _ _ _ => simp at hl
  | opening _ hk hl hr he =>
      refine h.turnTo hp hlive rfl rfl ?_ hs ?_
      · refine .of_eq rfl rfl fun i j _ _ b hb => ?_
        exact getElem?_of_front (List.prefix_append ..) hb
      · refine .hiring a (.inl rfl) ⟨hk, hl, ?_⟩ rfl ?_ he
        · exact List.length_append
        · have hat : (p.badges ++ [(false, false)])[p.badges.length]? = some (false, false) := by simp
          exact hat

theorem lawful_hire (h : p.Lawful) {a : Address} (hd : p.duties[k]? = some (.hiring r a)) :
    ({ p with badges := p.badges.modify r fun b => (true, b.2) }.turnTo k (.announcing a)).Lawful := by
  obtain ⟨phase, hp, hlive, hs, hstand⟩ := h.stand_of_duty hd (by simp)
  obtain ⟨rfl, hseat, hr, hb, he⟩ := hstand.of_hiring (.inr rfl)
  refine h.turnTo hp hlive rfl rfl ?_ hs ?_
  · refine .of_eq rfl rfl fun i j hj hi b hb => ?_
    have hne := hseat.ne hj hi
    have hat : (p.badges.modify r fun b => (true, b.2))[i]? = p.badges[i]? := by
      simp [Ne.symm hne]
    exact hat.trans hb
  · refine .opens (.announcing a) (hseat.of_eq rfl (List.length_modify ..)) hr ?_ he
    have hat : (p.badges.modify r fun b => (true, b.2))[r]? = some (true, false) := by simp [hb]
    exact hat

/-- Work between hiring and retiring leaves the run there. -/
theorem Opens.works (h : Opens r phase duty) (hw : Works duty duty') : Opens r phase duty' := by
  cases hw with
  | reopen r a => cases h
  | announce a =>
      cases h with
      | announcing _ => exact .announced a
  | refuse peer =>
      cases h with
      | admitting _ => exact .served peer
  | welcome peer =>
      cases h with
      | admitting _ => exact .joining peer
  | found peer r a =>
      cases h with
      | founding _ => exact .starting peer a
  | lose peer r =>
      cases h with
      | founding _ => exact .served peer
  | started a =>
      cases h with
      | starting peer _ => exact .served peer
  | report e =>
      cases h with
      | reporting _ => exact .reported e

/-- Work that shows in the duty only leaves everything else that is set up for the run as it is. -/
theorem Stand.works (h : p.Stand k phase duty) (hw : Works duty duty') :
    (p.turnTo k duty').Stand k phase duty' := by
  cases h with
  | opens ho hseat hr hb he => exact .opens (ho.works hw) (hseat.of_eq rfl rfl) hr hb he
  | hiring a hd hseat hr hb he =>
      rcases hd with rfl | rfl
      · cases hw with
        | reopen r a => exact .hiring a (.inr rfl) (hseat.of_eq rfl rfl) hr hb he
      · cases hw
  | leaving hl _ _ _ _ _ _ => rcases hl with ⟨-, rfl⟩ | ⟨-, rfl⟩ <;> cases hw
  | _ => cases hw

theorem lawful_work (h : p.Lawful) (hw : Works duty duty') (hd : p.duties[k]? = some duty) :
    (p.turnTo k duty').Lawful := by
  obtain ⟨phase, hp, hlive, hs, hstand⟩ := h.stand_of_duty hd (by cases hw <;> simp)
  exact h.turnTo hp hlive rfl rfl (.of_eq rfl rfl fun _ _ _ _ _ hb => hb) hs (hstand.works hw)

/-- Between hiring and retiring there is a round to join. -/
theorem round_of_joining (h : p.Lawful) {peer : PeerId} (hd : p.duties[k]? = some (.joining peer)) :
    ∃ r phase, p.phases[k]? = some phase ∧ phase = .calling (.accepted peer) ∧ p.Seat k r ∧
      p.round = some r ∧ p.badges[r]? = some (true, false) ∧ p.Published p.ended.length ∧
        p.state ≠ .idle := by
  obtain ⟨phase, hp, hlive, hs, hstand⟩ := h.stand_of_duty hd (by simp)
  obtain ⟨r, ho, hseat, hr, hb, he⟩ := hstand.of_service rfl
  cases ho with
  | joining _ => exact ⟨r, _, hp, rfl, hseat, hr, hb, he, hs⟩

theorem lawful_join (h : p.Lawful) {peer : PeerId} (hd : p.duties[k]? = some (.joining peer))
    (hr : p.round = some r) : (p.turnTo k (.founding peer r)).Lawful := by
  obtain ⟨r', phase, hp, rfl, hseat, hr', hb, he, hs⟩ := round_of_joining h hd
  obtain rfl := Option.some.inj (hr.symm.trans hr')
  exact h.turnTo hp (by simp) rfl rfl (.of_eq rfl rfl fun _ _ _ _ _ hb => hb) hs
    (.opens (.founding peer) (hseat.of_eq rfl rfl) hr hb he)

theorem retiring_at (h : p.Lawful) (hd : p.duties[k]? = some .retiring) :
    p.phases[k]? = some (.calling .stopped) ∧ p.state ≠ .idle ∧ ∃ r es, p.Seat k r ∧
      p.round = some r ∧ p.badges[r]? = some (true, false) ∧ p.ended = es ++ [k] ∧
        p.Published es.length := by
  obtain ⟨phase, hp, hlive, hs, hstand⟩ := h.stand_of_duty hd (by simp)
  cases hstand with
  | hiring _ hd' _ _ _ _ => simp at hd'
  | opens ho _ _ _ _ => cases ho
  | leaving hl _ _ _ _ _ _ => simp at hl
  | retiring hseat hr hb hk he => exact ⟨hp, hs, _, _, hseat, hr, hb, hk, he⟩

theorem lawful_retire (h : p.Lawful) (hd : p.duties[k]? = some .retiring) (hr : p.round = some r) :
    ({ p with round := none }.turnTo k (.dismissing r)).Lawful := by
  obtain ⟨hp, hs, r', es, hseat, hr', hb, hk, he⟩ := retiring_at h hd
  obtain rfl := Option.some.inj (hr.symm.trans hr')
  exact h.turnTo hp (by simp) rfl rfl (.of_eq rfl rfl fun _ _ _ _ _ hb => hb) hs
    (.dismissing (hseat.of_eq rfl rfl) rfl hb hk he)

theorem lawful_dismiss (h : p.Lawful) (hd : p.duties[k]? = some (.dismissing r)) :
    ({ p with badges := p.badges.modify r fun b => (b.1, true) }.turnTo k .parting).Lawful := by
  obtain ⟨phase, hp, hlive, hs, hstand⟩ := h.stand_of_duty hd (by simp)
  cases hstand with
  | hiring _ hd' _ _ _ _ => simp at hd'
  | opens ho _ _ _ _ => cases ho
  | leaving hl _ _ _ _ _ _ => simp at hl
  | dismissing hseat hr hb hk he =>
      refine h.turnTo hp hlive rfl rfl ?_ hs ?_
      · refine .of_eq rfl rfl fun i j hj hi b hb => ?_
        have hne := hseat.ne hj hi
        have hat : (p.badges.modify r fun b => (b.1, true))[i]? = p.badges[i]? := by
          simp [Ne.symm hne]
        exact hat.trans hb
      · refine .parting (hseat.of_eq rfl (List.length_modify ..)) hr ?_ hk he
        have hat : (p.badges.modify r fun b => (b.1, true))[r]? = some (true, true) := by simp [hb]
        exact hat

theorem lawful_part (h : p.Lawful) (hd : p.duties[k]? = some .parting) :
    ({ p with ends := p.ends.map (· + 1) }.turnTo k .done).Lawful := by
  obtain ⟨phase, hp, hlive, hs, hstand⟩ := h.stand_of_duty hd (by simp)
  obtain ⟨rfl, r, es, hseat, hr, hb, hk, he⟩ := hstand.of_parting
  refine h.turnTo hp hlive rfl rfl ⟨.inl rfl, List.prefix_rfl, ?_, fun _ _ _ _ _ hb => hb⟩ hs ?_
  · intro e h'
    obtain ⟨e', he', rfl⟩ := Option.map_eq_some_iff.1 h'
    exact ⟨e', he', Nat.le_succ e'⟩
  · refine .leaving (.inl ⟨rfl, rfl⟩) (hseat.of_eq rfl rfl) hr hb ?_ ?_ ?_
    · have hmem : k ∈ p.ended := by simp [hk]
      exact hmem
    -- the end that has just been reported is the last one
    · intro e h'
      obtain ⟨e', he', rfl⟩ := Option.map_eq_some_iff.1 h'
      obtain rfl := he e' he'
      have hat : p.ended[es.length]? = some k := by simp [hk]
      exact ⟨es.length, Nat.lt_succ_self _, hat⟩
    · intro e h'
      obtain ⟨e', he', rfl⟩ := Option.map_eq_some_iff.1 h'
      obtain rfl := he e' he'
      have hlen : p.ended.length = es.length + 1 := by simp [hk]
      exact hlen.symm

theorem lawful_finish (h : p.Lawful) (now : Nat) {c : Callback} (hd : p.duties[k]? = some .done)
    (hp : p.phases[k]? = some (.calling c)) :
    (p.move k (Dispatcher.phaseAfter now c) .idle).Lawful := by
  obtain ⟨phase, hp', hlive, hs, hstand⟩ := h.stand_of_duty hd (by simp)
  obtain rfl := Option.some.inj (hp.symm.trans hp')
  have hne : Dispatcher.phaseAfter now c ≠ .finished := by cases c <;> simp [Dispatcher.phaseAfter]
  refine h.update _ _ hp hlive rfl rfl (.of_eq rfl rfl fun _ _ _ _ _ hb => hb) (.inl ⟨hne, hs, ?_⟩)
  cases hstand with
  | hiring _ hd' _ _ _ _ => simp at hd'
  | opens ho hseat hr hb he =>
      cases ho with
      | announced a => exact .opens .polling (hseat.of_eq rfl rfl) hr hb he
      | served peer => exact .opens .polling (hseat.of_eq rfl rfl) hr hb he
      | reported e => exact .opens (.pausing _) (hseat.of_eq rfl rfl) hr hb he
  | leaving hl hseat hr hb hk hpub he =>
      rcases hl with ⟨hc, -⟩ | ⟨hc, -⟩
      · obtain rfl := Run.Phase.calling.inj hc
        exact .leaving (.inr ⟨rfl, rfl⟩) (hseat.of_eq rfl rfl) hr hb hk hpub he
      · simp at hc

/-- Nothing is promised to a consumer that is gone. -/
theorem lawful_forget (h : p.Lawful) : ({ p with ends := none } : Agenda).Lawful := by
  have hall : ∀ n, ({ p with ends := none } : Agenda).Published n := fun n e he => by simp at he
  have hhas : ∀ k, ({ p with ends := none } : Agenda).HasPublished k := fun k e he => by simp at he
  refine ⟨h.length, h.nodup, h.begun_lt, ?_, ?_, h.last, ?_⟩
  · intro j hj
    have hover := h.passed j hj
    exact ⟨hover.idle, hover.dismissed, fun hm => ⟨(hover.published hm).1, hhas j⟩⟩
  · intro j ph d hj hne hdj
    obtain ⟨hs, hstand⟩ := h.live j ph d hj hne hdj
    refine ⟨hs, ?_⟩
    cases hstand with
    | waiting hp hk hr hb _ => exact .waiting hp hk hr hb (hall _)
    | opening a hk hl hr _ => exact .opening a hk hl hr (hall _)
    | hiring a hd hseat hr hb _ => exact .hiring a hd (hseat.of_eq rfl rfl) hr hb (hall _)
    | opens ho hseat hr hb _ => exact .opens ho (hseat.of_eq rfl rfl) hr hb (hall _)
    | retiring hseat hr hb hk _ => exact .retiring (hseat.of_eq rfl rfl) hr hb hk (hall _)
    | dismissing hseat hr hb hk _ => exact .dismissing (hseat.of_eq rfl rfl) hr hb hk (hall _)
    | parting hseat hr hb hk _ => exact .parting (hseat.of_eq rfl rfl) hr hb hk (hall _)
    | leaving hl hseat hr hb hk _ _ =>
        exact .leaving hl (hseat.of_eq rfl rfl) hr hb hk (hhas _) (hall _)
  · intro hfin
    have hrest := h.rest hfin
    exact ⟨hrest.state, hrest.round, hrest.badges, hall _⟩

/-- Every turn keeps the law. -/
theorem lawful_of_turn (h : Turn p q) (hp : p.Lawful) : q.Lawful := by
  cases h with
  | claim hd => exact lawful_claim hp hd
  | bound k a hk => exact lawful_bound hp a hk
  | forgo k hk => exact lawful_forgo hp hk
  | begin k a hk => exact lawful_begin hp hk
  | wait k hw hk => exact lawful_wait hp hw hk
  | call k outcome hk => exact lawful_reported hp outcome hk
  | quit k hw hk => exact lawful_quit hp hk hw
  | leave k hk => exact lawful_leave hp hk
  | openRound k a hd => exact lawful_openRound hp hd
  | hire k r a hd => exact lawful_hire hp hd
  | work k hw hd => exact lawful_work hp hw hd
  | miss k peer hd hr =>
      -- whoever is about to join a round finds one
      obtain ⟨r, _, _, _, _, hr', _⟩ := round_of_joining hp hd
      simp [hr] at hr'
  | join k peer r hd hr => exact lawful_join hp hd hr
  | retireNone k hd hr =>
      -- so does the end of a run
      obtain ⟨_, _, _, _, _, hr', _⟩ := retiring_at hp hd
      simp [hr] at hr'
  | retire k r hd hr => exact lawful_retire hp hd hr
  | dismiss k r hd => exact lawful_dismiss hp hd
  | part k hd => exact lawful_part hp hd
  | finish k now c hd hk => exact lawful_finish hp now hd hk
  | forget => exact lawful_forget hp

end Agenda

namespace Server

variable {s t : Server μ} {m : Move} {b : Builder μ}

/-- Every move of a server keeps the law. -/
theorem lawful_of_access (h : Access s m t) (hs : s.agenda.Lawful) : t.agenda.Lawful := by
  rcases turn_of_access h with heq | hturn
  · rw [heq]
    exact hs
  · exact Agenda.lawful_of_turn hturn hs

theorem lawful_of_build (h : b.build = .ok s) : s.agenda.Lawful := by
  obtain ⟨codec, config, rfl⟩ := eq_of_build h
  refine ⟨rfl, List.nodup_nil, ?_, ?_, ?_, ?_, ?_⟩
  · simp [agenda, Agenda.begun]
  · simp [agenda]
  · simp [agenda]
  · simp [agenda]
  · intro _
    refine ⟨rfl, rfl, rfl, fun e he => ?_⟩
    have hzero : some 0 = some e := he
    exact (Option.some.inj hzero).symm

end Server
end Courier
