import Courier.Proofs.Attendant.Prepared
import Courier.Proofs.Revision

/-!
# Funnel — what the handler of an attendant's funnel is told

A funnel looks first at the channel that has the reports on the life of its attendant.  Therefore it tells its
handler of the start before anything else, and it clears the other channels before it tells of the end.

1. `Attendant.Funnel.Tells` — what the handler has been told, by where the funnel is,
2. `Attendant.Funnel.Conducts` — the handler has been told of what has been taken; `Conducts.access` and `Conducts.scan`
   keep this,
3. `Attendant.Funnel.toil_of_scans` — a funnel that is left alone comes to rest,
4. `Solo.conducted_of_reaches` — all this along a run whose events go to a funnel,
5. `Solo.calls_of_reaches` puts it together.
-/

namespace Courier

variable {μ : Type} [Marshaler μ]

/-! ## What events tell of -/

namespace Event

/-- The attendant whose start is told of. -/
def start? : Event → Option AttendantId
  | .attendantStarted a _ => some a
  | _ => none

def delivery? : Event → Option Delivery
  | .message d => some d
  | _ => none

def deferral? : Event → Option Deferral
  | .throttled d => some d
  | _ => none

def ending? : Event → Option (AttendantId × Ending)
  | .attendantStopped a e => some (a, e)
  | _ => none

/-- The attendant that is told of. -/
def attendant? : Event → Option AttendantId
  | .attendantStarted a _ => some a
  | .message d => some d.attendant
  | .throttled d => some d.attendant
  | .attendantStopped a _ => some a
  | _ => none

/-- The attendant whose message is handed over. -/
def sender? : Event → Option AttendantId
  | .message d => some d.attendant
  | .throttled d => some d.attendant
  | _ => none

end Event

namespace Attendant

variable {id : AttendantId} {now : Nat} {a b : Attendant μ} {p q : Ports} {m : Move}

/-! ## What the handler has been told -/

namespace Funnel

variable {f g : Funnel} {ns : List Notice} {v : Event} {isOver : Bool}

theorem told_nothing {α : Type} {kind : Event → Option α} (hv : kind v = none) :
    (f.call v).calls.filterMap kind = f.calls.filterMap kind := by
  simp [call, List.filterMap_append, List.filterMap_cons_none hv]

theorem told_one {α : Type} {kind : Event → Option α} {x : α} (hv : kind v = some x) :
    (f.call v).calls.filterMap kind = f.calls.filterMap kind ++ [x] := by
  simp [call, List.filterMap_append, List.filterMap_cons_some hv]

/-- Whether the channel of messages has been cleared. -/
def Phase.hasCleared : Phase → Bool
  | .clearingThrottled _ _ | .finished => true
  | _ => false

/-- Whether a funnel is over, but for a call of the handler. -/
def Phase.isFinished : Phase → Bool
  | .finished => true
  | _ => false

/-- What the handler has been told beside the reports that have been taken and how far the funnel has come. -/
inductive Tells (id : AttendantId) : List Notice → Phase → List Event → Prop where
  | silent : Tells id [] .scanning []
  /-- The attendant went away without a start. -/
  | abandoned : Tells id [] .finished []
  | talking (status : Status) (rest : List Event) (hrest : ∀ v ∈ rest, v.sender?.isSome = true) :
      Tells id [.started id] .scanning (.attendantStarted id status :: rest)
  | clearing {phase : Phase} (status : Status) (rest : List Event) (e : Ending)
      (hrest : ∀ v ∈ rest, v.sender?.isSome = true) (hp : phase = .clearing id e ∨ phase = .clearingThrottled id e) :
      Tells id [.started id, .stopped id e] phase (.attendantStarted id status :: rest)
  | ended (status : Status) (rest : List Event) (e : Ending) (hrest : ∀ v ∈ rest, v.sender?.isSome = true) :
      Tells id [.started id, .stopped id e] .finished (.attendantStarted id status :: rest ++ [.attendantStopped id e])

namespace Tells

variable {phase : Phase} {calls : List Event}

/-- A message is handed over between the start and the end. -/
theorem tell (h : Tells id ns phase calls) (hns : ns ≠ []) (hp : phase ≠ .finished) (hv : v.sender?.isSome = true) :
    Tells id ns phase (calls ++ [v]) := by
  have hconcat : ∀ {rest : List Event}, (∀ w ∈ rest, w.sender?.isSome = true) →
      ∀ w ∈ rest ++ [v], w.sender?.isSome = true := by
    intro rest hrest w hw
    rcases List.mem_append.1 hw with hw | hw
    · exact hrest w hw
    · exact List.mem_singleton.1 hw ▸ hv
  cases h with
  | silent => exact absurd rfl hns
  | abandoned | ended _ _ _ _ => exact absurd rfl hp
  | talking status rest hrest => exact .talking status (rest ++ [v]) (hconcat hrest)
  | clearing status rest e hrest hp => exact .clearing status (rest ++ [v]) e (hconcat hrest) hp

/-- Which end a funnel that clears the channels has to tell of. -/
theorem ending_eq {n : AttendantId} {e : Ending} (h : Tells id ns phase calls)
    (hp : phase = .clearing n e ∨ phase = .clearingThrottled n e) :
    n = id ∧ ns = [.started id, .stopped id e] ∧
      ∃ status rest, calls = .attendantStarted id status :: rest ∧ ∀ v ∈ rest, v.sender?.isSome = true := by
  cases h with
  | clearing status rest e' hrest hp' =>
      obtain ⟨rfl, rfl⟩ : n = id ∧ e = e' := by rcases hp with rfl | rfl <;> simpa using hp'
      exact ⟨rfl, rfl, status, rest, rfl, hrest⟩
  | silent | talking _ _ _ | abandoned | ended _ _ _ _ => simp at hp

/-- The start is told of first, and once. -/
theorem start_first (h : Tells id ns phase calls) :
    calls = [] ∨ ∃ status rest, calls = .attendantStarted id status :: rest ∧ ∀ v ∈ rest, v.start? = none := by
  have hnone : ∀ {v : Event}, v.sender?.isSome = true → v.start? = none := by
    intro v hv
    cases v <;> simp_all [Event.sender?, Event.start?]
  cases h with
  | silent | abandoned => exact .inl rfl
  | talking status rest hrest | clearing status rest _ hrest _ =>
      exact .inr ⟨status, rest, rfl, fun v hv => hnone (hrest v hv)⟩
  | ended status rest e hrest =>
      refine .inr ⟨status, rest ++ [.attendantStopped id e], rfl, fun v hv => ?_⟩
      rcases List.mem_append.1 hv with hv | hv
      · exact hnone (hrest v hv)
      · rw [List.mem_singleton.1 hv]
        rfl

/-- The end is told of last. -/
theorem end_last {xs ys : List Event} {n : AttendantId} {e : Ending} (h : Tells id ns phase calls)
    (hcalls : calls = xs ++ .attendantStopped n e :: ys) : phase = .finished ∧ n = id ∧ ys = [] := by
  -- it is told of neither with the start nor between messages
  have hnot : ∀ {status : Status} {rest : List Event}, (∀ v ∈ rest, v.sender?.isSome = true) →
      .attendantStopped n e ∉ Event.attendantStarted id status :: rest := by
    intro status rest hrest hmem
    have hsender := hrest _ ((List.mem_cons.1 hmem).resolve_left (by simp))
    simp [Event.sender?] at hsender
  have hmem : .attendantStopped n e ∈ calls := by simp [hcalls]
  cases h with
  | silent | abandoned => simp at hmem
  | talking _ _ hrest | clearing _ _ _ hrest _ => exact absurd hmem (hnot hrest)
  | ended status rest e' hrest =>
      rcases of_concat_eq_append hcalls with ⟨rfl, -, hend⟩ | ⟨zs, -, hbefore⟩
      · exact ⟨rfl, (Event.attendantStopped.inj hend).1, rfl⟩
      · have hmem' : .attendantStopped n e ∈ Event.attendantStarted id status :: rest := by simp [hbefore]
        exact absurd hmem' (hnot hrest)

/-- Both have been told of, if they have been taken and the funnel does not clear the channels. -/
theorem reports (h : Tells id ns phase calls) (hp : phase = .scanning ∨ phase = .finished) :
    (.started id ∈ ns → ∃ status, .attendantStarted id status ∈ calls) ∧
      ∀ e, .stopped id e ∈ ns → .attendantStopped id e ∈ calls := by
  cases h with
  | silent | abandoned | talking _ _ _ | ended _ _ _ _ => simp
  | clearing _ _ _ _ hclearing => rcases hp with rfl | rfl <;> simp at hclearing

end Tells

/-- The handler has been told of what has been taken off the channels. -/
structure Conducts (id : AttendantId) (f : Funnel) (a : Attendant μ) (p : Ports) : Prop where
  deliveries : f.calls.filterMap Event.delivery? = p.messages.passed
  deferrals : f.calls.filterMap Event.deferral? = p.throttled.passed
  tells : Tells id p.lifecycle.passed f.phase f.calls
  /-- By the time the funnel clears the channels nothing is put into them any more. -/
  released : f.phase ≠ .scanning → a.holdsPorts = false
  cleared : f.phase.hasCleared = true → p.messages.passed = p.messages.sent
  finished : f.phase.isFinished = true →
    p.throttled.passed = p.throttled.sent ∧ p.lifecycle.passed = p.lifecycle.sent

namespace Conducts

/-- An attendant goes on. -/
theorem access (hc : Conducts id f a p) (h : Access id now a p m b q) (ha : Prepared id a p) : Conducts id f b q := by
  -- once the funnel has left its scan the attendant can do nothing to the channels any more
  by_cases hp : f.phase = .scanning
  · have hunread := unread_of_access h ha.exclusive
    refine ⟨hc.deliveries.trans hunread.messages.symm, hc.deferrals.trans hunread.throttled.symm,
      hunread.lifecycle ▸ hc.tells, fun hne => absurd hp hne, ?_, ?_⟩
    · simp [hp, Phase.hasCleared]
    · simp [hp, Phase.isFinished]
  · obtain ⟨hreleased, rfl⟩ := still_of_released h ha.staged (hc.released hp)
    exact ⟨hc.deliveries, hc.deferrals, hc.tells, fun _ => hreleased, hc.cleared, hc.finished⟩

/-- A call of the handler returns. -/
theorem handled (hc : Conducts id f a p) (h : f.handled = some g) : Conducts id g a p := by
  obtain ⟨-, hg⟩ := Option.ite_none_right_eq_some.1 h
  obtain rfl := Option.some.inj hg
  exact ⟨hc.deliveries, hc.deferrals, hc.tells, hc.released, hc.cleared, hc.finished⟩

/-- The start has been told of by the time a message is handed over. -/
theorem passed_ne_nil (hc : Conducts id f a p) (ha : Prepared id a p)
    (hp : f.phase = .scanning ∧ p.lifecycle.take? = none ∨
      ∃ n e, f.phase = .clearing n e ∨ f.phase = .clearingThrottled n e)
    (hsent : p.messages.sent ≠ [] ∨ p.throttled.sent ≠ []) : p.lifecycle.passed ≠ [] := by
  rcases hp with ⟨-, hl⟩ | ⟨n, e, hp⟩
  · rw [Channel.passed_of_take?_none hl]
    exact ha.sent_ne_nil hsent
  · rw [(hc.tells.ending_eq hp).2.1]
    simp

/-- The start is told of. -/
theorem started (hc : Conducts id f a p) (ha : Prepared id a p) {n : AttendantId} {status : Status}
    {lifecycle : Channel Notice} (hp : f.phase = .scanning) (ht : p.lifecycle.take? = some (.started n, lifecycle)) :
    Conducts id (f.call (.attendantStarted n status)) a { p with lifecycle } := by
  rcases ha.report_cases ht with ⟨hpassed, hn⟩ | ⟨e, -, hn, -⟩
  · obtain rfl := Notice.started.inj hn
    have htells := hc.tells
    rw [hpassed, hp] at htells
    have hcalls : f.calls = [] := by
      generalize f.calls = calls at htells
      cases htells with
      | silent => rfl
    refine ⟨(told_nothing rfl).trans hc.deliveries, (told_nothing rfl).trans hc.deferrals, ?_, hc.released, hc.cleared,
      by simp [call, hp, Phase.isFinished]⟩
    show Tells n lifecycle.passed f.phase (f.calls ++ [.attendantStarted n status])
    rw [Channel.passed_of_take? ht, hpassed, hp, hcalls]
    exact .talking status [] (by simp)
  · simp at hn

/-- The end is taken. -/
theorem stopped (hc : Conducts id f a p) (ha : Prepared id a p) {n : AttendantId} {e : Ending}
    {lifecycle : Channel Notice} (hp : f.phase = .scanning) (ht : p.lifecycle.take? = some (.stopped n e, lifecycle)) :
    Conducts id { f with phase := .clearing n e } a { p with lifecycle } := by
  rcases ha.report_cases ht with ⟨-, hn⟩ | ⟨e', hpassed, hn, hsent⟩
  · simp at hn
  · -- the start has been taken before, and so it has been told of
    obtain ⟨rfl, rfl⟩ := Notice.stopped.inj hn
    have htells := hc.tells
    rw [hpassed, hp] at htells
    refine ⟨hc.deliveries, hc.deferrals, ?_, fun _ => ha.released_of_ended hsent, by simp [Phase.hasCleared],
      by simp [Phase.isFinished]⟩
    show Tells n lifecycle.passed (.clearing n e) f.calls
    rw [Channel.passed_of_take? ht, hpassed]
    generalize f.calls = calls at htells
    cases htells with
    | talking status rest hrest => exact .clearing status rest e hrest (.inl rfl)

/-- A message is handed over. -/
theorem message (hc : Conducts id f a p) (ha : Prepared id a p) {d : Delivery} {messages : Channel Delivery}
    (hp : f.phase = .scanning ∧ p.lifecycle.take? = none ∨ ∃ n e, f.phase = .clearing n e)
    (ht : p.messages.take? = some (d, messages)) : Conducts id (f.call (.message d)) a { p with messages } := by
  have hsent : p.messages.sent ≠ [] := List.ne_nil_of_mem (Channel.mem_sent_of_take? ht)
  have hpassed : p.lifecycle.passed ≠ [] :=
    hc.passed_ne_nil ha (hp.imp_right fun ⟨n, e, hp⟩ => ⟨n, e, .inl hp⟩) (.inl hsent)
  have hopen : f.phase.hasCleared = false ∧ f.phase.isFinished = false := by
    rcases hp with ⟨hp, -⟩ | ⟨n, e, hp⟩ <;> simp [hp, Phase.hasCleared, Phase.isFinished]
  have hkind : Event.delivery? (.message d) = some d := rfl
  have hgiven : (f.call (.message d)).calls.filterMap Event.delivery? = messages.passed := by
    rw [told_one hkind, hc.deliveries, Channel.passed_of_take? ht]
  refine ⟨hgiven, (told_nothing rfl).trans hc.deferrals, hc.tells.tell hpassed ?_ rfl, hc.released,
    by simp [call, hopen], by simp [call, hopen]⟩
  intro hfinished
  simp [hfinished, Phase.isFinished] at hopen

/-- A message that came too early is handed over. -/
theorem deferral (hc : Conducts id f a p) (ha : Prepared id a p) {d : Deferral} {throttled : Channel Deferral}
    (hp : f.phase = .scanning ∧ p.lifecycle.take? = none ∨ ∃ n e, f.phase = .clearingThrottled n e)
    (ht : p.throttled.take? = some (d, throttled)) : Conducts id (f.call (.throttled d)) a { p with throttled } := by
  have hsent : p.throttled.sent ≠ [] := List.ne_nil_of_mem (Channel.mem_sent_of_take? ht)
  have hpassed : p.lifecycle.passed ≠ [] :=
    hc.passed_ne_nil ha (hp.imp_right fun ⟨n, e, hp⟩ => ⟨n, e, .inr hp⟩) (.inr hsent)
  have hopen : f.phase.isFinished = false := by
    rcases hp with ⟨hp, -⟩ | ⟨n, e, hp⟩ <;> simp [hp, Phase.isFinished]
  have hkind : Event.deferral? (.throttled d) = some d := rfl
  have hgiven : (f.call (.throttled d)).calls.filterMap Event.deferral? = throttled.passed := by
    rw [told_one hkind, hc.deferrals, Channel.passed_of_take? ht]
  refine ⟨(told_nothing rfl).trans hc.deliveries, hgiven, hc.tells.tell hpassed ?_ rfl, hc.released, hc.cleared,
    by simp [call, hopen]⟩
  intro hfinished
  simp [hfinished, Phase.isFinished] at hopen

/-- The end is told of. -/
theorem ended (hc : Conducts id f a p) {n : AttendantId} {e : Ending} (hp : f.phase = .clearingThrottled n e)
    (ha : Prepared id a p) (ht : p.throttled.take? = none) :
    Conducts id ({ f with phase := .finished }.call (.attendantStopped n e)) a p := by
  obtain ⟨rfl, hpassed, status, rest, hcalls, hrest⟩ := hc.tells.ending_eq (.inr hp)
  -- nothing is reported after the end
  have hall : p.lifecycle.passed = p.lifecycle.sent := by
    have hfront := Channel.passed_front p.lifecycle
    refine hfront.eq_of_length_le ?_
    rcases ha.notices with h | h | ⟨e', h⟩ <;> simp [h, hpassed]
  refine ⟨(told_nothing rfl).trans hc.deliveries, (told_nothing rfl).trans hc.deferrals, ?_,
    fun _ => hc.released (by simp [hp]), fun _ => hc.cleared (by simp [hp, Phase.hasCleared]),
    fun _ => ⟨Channel.passed_of_take?_none ht, hall⟩⟩
  show Tells n p.lifecycle.passed .finished (f.calls ++ [.attendantStopped n e])
  rw [hpassed, hcalls]
  exact .ended status rest e hrest

/-- Nothing is reported any more, and nothing has been. -/
theorem exhausted (hc : Conducts id f a p) (ha : Prepared id a p) (hp : f.phase = .scanning)
    (hl : p.lifecycle.take? = none) (hm : p.messages.take? = none) (ht : p.throttled.take? = none)
    (hr : a.holdsPorts = false) : Conducts id { f with phase := .finished } a p := by
  have hall := Channel.passed_of_take?_none hl
  -- a start that had been told of would have been followed by an end
  refine ⟨hc.deliveries, hc.deferrals, ?_, fun _ => hr, fun _ => Channel.passed_of_take?_none hm,
    fun _ => ⟨Channel.passed_of_take?_none ht, hall⟩⟩
  have htells := hc.tells
  have hsent := ha.ended_of_released hr
  rw [← hall] at hsent
  show Tells id p.lifecycle.passed .finished f.calls
  rw [hp] at htells
  generalize p.lifecycle.passed = ns, f.calls = calls at htells hsent ⊢
  cases htells with
  | silent => exact .abandoned
  | talking _ _ _ => exact absurd rfl hsent
  | clearing _ _ _ _ hp => simp at hp

/-- Each look through the channels tells the handler of what it takes. -/
theorem scan (hc : Conducts id f a p) (ha : Prepared id a p) (h : Scans f a.status (!a.holdsPorts) p g q) :
    Conducts id g a q := by
  cases h with
  | started hp ht => exact hc.started ha hp ht
  | stopped hp ht => exact hc.stopped ha hp ht
  | message hp ht => exact hc.message ha hp ht
  | deferral hp ht => exact hc.deferral ha (hp.imp_left fun hp => ⟨hp.1, hp.2.1⟩) ht
  | @cleared n e hp ht =>
      obtain ⟨rfl, hpassed, status, rest, hcalls, hrest⟩ := hc.tells.ending_eq (.inl hp)
      refine ⟨hc.deliveries, hc.deferrals, ?_, fun _ => hc.released (by simp [hp]),
        fun _ => Channel.passed_of_take?_none ht, by simp [Phase.isFinished]⟩
      rw [hpassed, hcalls]
      exact .clearing status rest e hrest (.inr rfl)
  | ended hp ht => exact hc.ended hp ha ht
  | exhausted hp hl hm ht ho => exact hc.exhausted ha hp hl hm ht (by simpa using ho)

/-- When there is nothing to do for the funnel, it has taken everything off the channels. -/
theorem complete (hc : Conducts id f a p) {status : Status} (hbusy : f.busy = false)
    (h : f.scan status isOver p = none) :
    (f.phase = .scanning ∨ f.phase = .finished) ∧ p.lifecycle.passed = p.lifecycle.sent ∧
      p.messages.passed = p.messages.sent ∧ p.throttled.passed = p.throttled.sent := by
  cases hp : f.phase with
  | scanning =>
      simp only [Funnel.scan, hbusy, hp, Bool.false_eq_true, if_false] at h
      split at h
      · simp at h
      · simp at h
      · next hl =>
        split at h
        · simp at h
        · next hm =>
          split at h
          · simp at h
          · next ht =>
            exact ⟨.inl rfl, Channel.passed_of_take?_none hl, Channel.passed_of_take?_none hm,
              Channel.passed_of_take?_none ht⟩
  | clearing n e =>
      simp only [Funnel.scan, hbusy, hp, Bool.false_eq_true, if_false] at h
      split at h <;> simp at h
  | clearingThrottled n e =>
      simp only [Funnel.scan, hbusy, hp, Bool.false_eq_true, if_false] at h
      split at h <;> simp at h
  | finished =>
      obtain ⟨ht, hl⟩ := hc.finished (by simp [hp, Phase.isFinished])
      exact ⟨.inr rfl, hl, hc.cleared (by simp [hp, Phase.hasCleared]), ht⟩

end Conducts

/-! ## Funnels that are left alone -/

/-- How often a funnel can look through the channels and its handler return before it has to wait, at most. -/
def Phase.toil : Phase → Nat
  | .scanning => 4
  | .clearing _ _ => 3
  | .clearingThrottled _ _ => 2
  | .finished => 0

@[inherit_doc Phase.toil]
def toil (f : Funnel) (p : Ports) : Nat :=
  2 * (p.lifecycle.queue.length + p.messages.queue.length + p.throttled.queue.length) + f.phase.toil + f.busy.toNat

/-- Each look through the channels that comes to something brings the funnel nearer to its rest. -/
theorem toil_of_scans {status : Status} (hbusy : f.busy = false) (h : Scans f status isOver p g q) :
    g.toil q < f.toil p := by
  cases h with
  | started _ ht | message _ ht | deferral _ ht =>
      simp only [toil, call, hbusy, Channel.take?_cons ht, List.length_cons, Bool.toNat_true, Bool.toNat_false]
      omega
  | stopped hp ht =>
      simp only [toil, hp, Phase.toil, Channel.take?_cons ht, List.length_cons]
      omega
  | cleared hp _ | ended hp _ => simp [toil, call, hp, Phase.toil, hbusy]
  | exhausted hp _ _ _ _ => simp [toil, hp, Phase.toil, hbusy]

theorem toil_of_handled (h : f.handled = some g) : g.toil p < f.toil p := by
  obtain ⟨hbusy, hg⟩ := Option.ite_none_right_eq_some.1 h
  obtain rfl := Option.some.inj hg
  simp [toil, hbusy]

end Funnel
end Attendant

/-! ## Runs -/

namespace Solo

variable {s t u : Solo μ} {m : Move} {ms ns : List Move} {f : Attendant.Funnel}

/-- A new attendant with unused channels. -/
def fresh (codec : μ) (throttle writer lifecycle messages throttled now : Nat) : Solo μ where
  attendant := .create codec throttle writer
  ports := ⟨{ capacity := lifecycle }, { capacity := messages }, { capacity := throttled }⟩
  now

/-- A move by which nobody but a funnel takes events. -/
def Move.isPouring : Move → Bool
  | .attendant _ | .tick _ | .pour | .scan | .handled => true
  | _ => false

/-- A move of the funnel or of its handler. -/
def Move.isConducting : Move → Bool
  | .scan | .handled => true
  | _ => false

/-- The funnel that has the receiving ends, or one that has not begun. -/
def conductor (s : Solo μ) : Attendant.Funnel :=
  s.funnel.getD {}

/-- What a move comes to while nobody but a funnel takes events. -/
inductive Pours (s t : Solo μ) : Prop where
  | attendant (n : Attendant.Move) (h : s.attendant.step id s.now s.ports n = some (t.attendant, t.ports))
      (hf : t.conductor = s.conductor)
  | waited (ha : t.attendant = s.attendant) (hp : t.ports = s.ports) (hf : t.conductor = s.conductor)
  | scanned (ha : t.attendant = s.attendant) (hb : s.conductor.busy = false)
      (h : s.conductor.Scans s.attendant.status (!s.attendant.holdsPorts) s.ports t.conductor t.ports)
  | handled (ha : t.attendant = s.attendant) (hp : t.ports = s.ports) (h : s.conductor.handled = some t.conductor)

theorem scanned_of_scan (h : s.step .scan = some t) :
    t.attendant = s.attendant ∧ s.conductor.busy = false ∧
      s.conductor.Scans s.attendant.status (!s.attendant.holdsPorts) s.ports t.conductor t.ports := by
  cases hf : s.funnel with
  | none => simp [step, hf] at h
  | some f =>
      simp only [step, hf, Option.map_eq_some_iff] at h
      obtain ⟨⟨g, q⟩, hscan, rfl⟩ := h
      have hconductor : s.conductor = f := by simp [conductor, hf]
      obtain ⟨hbusy, hscans⟩ := Attendant.Funnel.scans_of_scan hscan
      exact ⟨rfl, hconductor ▸ hbusy, hconductor ▸ hscans⟩

theorem handled_of_handled (h : s.step .handled = some t) :
    t.attendant = s.attendant ∧ t.ports = s.ports ∧ s.conductor.handled = some t.conductor := by
  cases hf : s.funnel with
  | none => simp [step, hf] at h
  | some f =>
      simp only [step, hf, Option.map_eq_some_iff] at h
      obtain ⟨g, hg, rfl⟩ := h
      have hconductor : s.conductor = f := by simp [conductor, hf]
      exact ⟨rfl, rfl, hconductor ▸ hg⟩

theorem pours_of_step (h : s.step m = some t) (hm : m.isPouring = true) : Pours s t := by
  cases m with
  | attendant n =>
      simp only [step, Option.map_eq_some_iff] at h
      obtain ⟨⟨b, q⟩, hstep, rfl⟩ := h
      exact .attendant n hstep rfl
  | tick nanos =>
      obtain rfl := Option.some.inj h
      exact .waited rfl rfl rfl
  | pour =>
      simp only [step, Option.ite_none_left_eq_some, Option.some.injEq] at h
      obtain ⟨hnone, rfl⟩ := h
      have hnone' : s.funnel = none := by simpa using hnone
      exact .waited rfl rfl (by simp [conductor, hnone'])
  | scan =>
      obtain ⟨ha, hbusy, hscans⟩ := scanned_of_scan h
      exact .scanned ha hbusy hscans
  | handled =>
      obtain ⟨ha, hp, hf⟩ := handled_of_handled h
      exact .handled ha hp hf
  | _ => simp [Move.isPouring] at hm

/-- The attendant and its channels are as they are to be, and the handler has been told of what has been taken. -/
structure Conducted (s : Solo μ) : Prop where
  prepared : s.attendant.Prepared id s.ports
  conducts : s.conductor.Conducts id s.attendant s.ports

theorem conducted_fresh (codec : μ) (throttle writer lifecycle messages throttled now : Nat) :
    (fresh codec throttle writer lifecycle messages throttled now).Conducted where
  prepared := .create codec throttle writer lifecycle messages throttled
  conducts := ⟨rfl, rfl, .silent, fun h => absurd rfl h, by simp [fresh, conductor, Attendant.Funnel.Phase.hasCleared],
    by simp [fresh, conductor, Attendant.Funnel.Phase.isFinished]⟩

theorem conducted_of_step (h : s.step m = some t) (hm : m.isPouring = true) (hs : s.Conducted) : t.Conducted := by
  obtain ⟨hprepared, hconducts⟩ := hs
  cases pours_of_step h hm with
  | attendant n hn hf =>
      have haccess := Attendant.access_of_step hn
      exact ⟨hprepared.access haccess, hf ▸ hconducts.access haccess hprepared⟩
  | waited ha hp hf => exact ⟨ha ▸ hp ▸ hprepared, ha ▸ hp ▸ hf ▸ hconducts⟩
  | scanned ha _ hscans =>
      exact ⟨ha ▸ hprepared.scan hscans, ha ▸ hconducts.scan hprepared hscans⟩
  | handled ha hp hf => exact ⟨ha ▸ hp ▸ hprepared, ha ▸ hp ▸ hconducts.handled hf⟩

theorem conducted_of_reaches (h : Reaches s ms t) (hms : ∀ m ∈ ms, m.isPouring = true) (hs : s.Conducted) :
    t.Conducted := by
  induction h with
  | refl => exact hs
  | step hstep _ ih =>
      have hnext := conducted_of_step hstep (hms _ (List.mem_cons_self ..)) hs
      exact ih (fun m hm => hms m (List.mem_cons_of_mem _ hm)) hnext

/-- Left alone, a funnel comes to rest. -/
theorem length_le_toil (h : Reaches s ns t) (hns : ∀ m ∈ ns, m.isConducting = true) :
    ns.length + t.conductor.toil t.ports ≤ s.conductor.toil s.ports := by
  induction h with
  | refl => simp
  | @step s t u m ms hstep _ ih =>
      have hm : m.isConducting = true := hns m (List.mem_cons_self ..)
      have hrest := ih fun m hm => hns m (List.mem_cons_of_mem _ hm)
      have hone : t.conductor.toil t.ports < s.conductor.toil s.ports := by
        cases m with
        | scan =>
            obtain ⟨-, hbusy, hscans⟩ := scanned_of_scan hstep
            exact Attendant.Funnel.toil_of_scans hbusy hscans
        | handled =>
            obtain ⟨-, hp, hf⟩ := handled_of_handled hstep
            exact hp ▸ Attendant.Funnel.toil_of_handled hf
        | _ => simp [Move.isConducting] at hm
      rw [List.length_cons]
      omega

/-! ## What the handler is told -/

/-- The calls of the handler so far, beside what has been published. -/
structure Heard (p : Ports) (calls : List Event) : Prop where
  /-- It is told of the start before everything else, and once. -/
  started : calls = [] ∨ ∃ status rest, calls = .attendantStarted id status :: rest ∧ ∀ v ∈ rest, v.start? = none
  /-- It is given the messages of each channel one by one as they have been published. -/
  deliveries : calls.filterMap Event.delivery? <+: p.messages.sent
  deferrals : calls.filterMap Event.deferral? <+: p.throttled.sent
  /-- It is told of the end after all messages, and of nothing after that. -/
  ended : ∀ xs n e ys, calls = xs ++ .attendantStopped n e :: ys →
    n = id ∧ ys = [] ∧ xs.filterMap Event.delivery? = p.messages.sent ∧ xs.filterMap Event.deferral? = p.throttled.sent

/-- The handler has been told of everything there is. -/
structure Complete (p : Ports) (calls : List Event) : Prop where
  deliveries : calls.filterMap Event.delivery? = p.messages.sent
  deferrals : calls.filterMap Event.deferral? = p.throttled.sent
  started : .started id ∈ p.lifecycle.sent → ∃ status, .attendantStarted id status ∈ calls
  ended : ∀ e, .stopped id e ∈ p.lifecycle.sent → .attendantStopped id e ∈ calls

theorem Conducted.heard (h : s.Conducted) : Heard s.ports s.conductor.calls where
  started := h.conducts.tells.start_first
  deliveries := h.conducts.deliveries ▸ Channel.passed_front _
  deferrals := h.conducts.deferrals ▸ Channel.passed_front _
  ended := by
    intro xs n e ys hcalls
    obtain ⟨hfinished, rfl, rfl⟩ := h.conducts.tells.end_last hcalls
    have hd := h.conducts.deliveries
    have ht := h.conducts.deferrals
    rw [hcalls, List.filterMap_append, List.filterMap_cons_none rfl, List.filterMap_nil, List.append_nil] at hd ht
    have hcleared := h.conducts.cleared (by rw [hfinished]; rfl)
    have hover := h.conducts.finished (by rw [hfinished]; rfl)
    exact ⟨rfl, rfl, hd.trans hcleared, ht.trans hover.1⟩

theorem Conducted.complete (h : s.Conducted) (hf : s.funnel = some f) (hscan : s.step .scan = none)
    (hhandled : s.step .handled = none) : Complete s.ports f.calls := by
  have hconducts := h.conducts
  have hconductor : s.conductor = f := by simp [conductor, hf]
  rw [hconductor] at hconducts
  have hbusy : f.busy = false := by simpa [step, hf, Attendant.Funnel.handled] using hhandled
  have hscan' : f.scan s.attendant.status s.isEnded s.ports = none := by simpa [step, hf] using hscan
  obtain ⟨hphase, hl, hm, ht⟩ := hconducts.complete hbusy hscan'
  obtain ⟨hstarted, hended⟩ := hconducts.tells.reports hphase
  rw [hl] at hstarted hended
  exact ⟨hconducts.deliveries.trans hm, hconducts.deferrals.trans ht, hstarted, hended⟩

/-- The handler of an attendant that has been stopped before any start is told nothing. -/
theorem Conducted.silent (h : s.Conducted) (hw : s.attendant.Withdrawn) : s.conductor.calls = [] := by
  have hsent : s.ports.lifecycle.sent = [] := by
    rw [← h.prepared.exclusive.notices_eq]
    exact Attendant.quiet_of_withdrawn hw h.prepared.reported
  have hpassed : s.ports.lifecycle.passed = [] := List.prefix_nil.1 (hsent ▸ Channel.passed_front _)
  have htells := h.conducts.tells
  rw [hpassed] at htells
  generalize s.conductor.phase = phase, s.conductor.calls = calls at htells
  cases htells with
  | silent | abandoned => rfl

/-- What the handler of an attendant's funnel is told, whatever callers, stream and handler do, whatever the handler
waits for and whatever room there is in the channels.

- It is told of the start once and first, of each message once and in order, and of the end once and last, after all
  messages.
- Left alone the funnel comes to rest, and then the handler has been told of everything there is.
- If a stop has found the attendant new, the handler is told nothing. -/
theorem calls_of_reaches (codec : μ) (throttle writer lifecycle messages throttled now : Nat)
    (h : Reaches (fresh codec throttle writer lifecycle messages throttled now) ms s)
    (hms : ∀ m ∈ ms, m.isPouring = true) (hf : s.funnel = some f) :
    Heard s.ports f.calls ∧
    (∀ ns t, Reaches s ns t → (∀ m ∈ ns, m.isConducting = true) → ns.length ≤ f.toil s.ports) ∧
    (s.step .scan = none → s.step .handled = none → Complete s.ports f.calls) ∧
    (∀ ms₁ ms₂ t u, Reaches (fresh codec throttle writer lifecycle messages throttled now) ms₁ t →
      t.attendant.status = .new → t.step (.attendant .stop) = some u → Reaches u ms₂ s → f.calls = []) := by
  have hconducted : s.Conducted := conducted_of_reaches h hms (conducted_fresh ..)
  have hconductor : s.conductor = f := by simp [conductor, hf]
  refine ⟨hconductor ▸ hconducted.heard, fun ns t hns hall => ?_, hconducted.complete hf,
    fun ms₁ ms₂ t u ht hnew hstop hu => ?_⟩
  · have htoil := length_le_toil hns hall
    rw [hconductor] at htoil
    omega
  · obtain rfl := Option.some.inj hstop
    have hstaged : t.attendant.Staged :=
      Attendant.staged_of_course (course_of_reaches ht) (Attendant.staged_create codec throttle writer)
    have hwithdrawn : s.attendant.Withdrawn :=
      Attendant.withdrawn_of_course (course_of_reaches hu) (Attendant.withdrawn_of_beginStop hstaged hnew)
    exact hconductor ▸ hconducted.silent hwithdrawn

/-- The attendant and its consumer after given moves. -/
def after (s : Solo μ) : List Move → Option (Solo μ)
  | [] => some s
  | m :: ms => (s.step m).bind fun t => t.after ms

theorem reaches_of_after (h : s.after ms = some t) : Reaches s ms t := by
  induction ms generalizing s with
  | nil =>
      obtain rfl := Option.some.inj h
      exact .refl s
  | cons m ms ih =>
      obtain ⟨u, hstep, hrest⟩ := Option.bind_eq_some_iff.1 h
      exact .step hstep (ih hrest)

/-- The read loop goes on. -/
def proceed : Move :=
  .attendant .proceed

/-- Two messages arrive at once, the second of them too early.  The handler stops the attendant while it is told of the
start, and the end is reported before the funnel looks at the messages. -/
def stoppedByHandler : List Move :=
  [.pour, .attendant .start] ++ List.replicate 3 (.attendant (.advance 0)) ++
    [.attendant (.read (.data [91, 34, 65, 34, 93, 10, 91, 34, 66, 34, 93, 10]))] ++ List.replicate 6 proceed ++
    [.scan, .attendant .stop, .attendant (.advance 1), .attendant .quit] ++ List.replicate 4 proceed ++
    [.handled, .scan, .scan, .handled, .scan, .scan, .handled, .scan, .handled]

theorem calls_of_stopped_by_handler :
    ∃ s f, (fresh (Codec.lines 80) 5 8 1 1 1 0).after stoppedByHandler = some s ∧ s.funnel = some f ∧ f.isDone = true ∧
      (f.calls.filterMap Event.delivery?).map (·.message.command) = ["A"] ∧
      (f.calls.filterMap Event.deferral?).map (·.message.command) = ["B"] ∧
      (f.calls.getLast?.bind Event.ending?).isSome ∧ Heard s.ports f.calls ∧ Complete s.ports f.calls := by
  obtain ⟨s, hafter, hcheck⟩ := (Option.any_eq_true (fun s : Solo Codec => s.funnel.any fun f =>
      f.isDone && (f.calls.filterMap Event.delivery?).map (·.message.command) == ["A"] &&
        (f.calls.filterMap Event.deferral?).map (·.message.command) == ["B"] &&
        (f.calls.getLast?.bind Event.ending?).isSome && (s.step .scan).isNone && (s.step .handled).isNone)
      ((fresh (Codec.lines 80) 5 8 1 1 1 0).after stoppedByHandler)).1 (by decide +kernel)
  obtain ⟨f, hf, hcheck⟩ := (Option.any_eq_true _ _).1 hcheck
  simp only [Bool.and_eq_true, beq_iff_eq, Option.isNone_iff_eq_none] at hcheck
  obtain ⟨⟨⟨⟨⟨hdone, hdelivered⟩, hdeferred⟩, hended⟩, hscan⟩, hhandled⟩ := hcheck
  have hpouring : ∀ m ∈ stoppedByHandler, m.isPouring = true := List.all_eq_true.1 (by decide +kernel)
  obtain ⟨hheard, -, hcomplete, -⟩ :=
    calls_of_reaches (Codec.lines 80) 5 8 1 1 1 0 (reaches_of_after hafter) hpouring hf
  exact ⟨s, f, hafter, hf, hdone, hdelivered, hdeferred, hended, hheard, hcomplete hscan hhandled⟩

end Solo
end Courier
