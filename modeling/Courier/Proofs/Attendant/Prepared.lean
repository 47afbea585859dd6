import Courier.Proofs.Attendant.Publication
import Courier.Proofs.Attendant.Quiet

/-!
# Prepared — what a funnel finds on the channels of its attendant

The report on the start of an attendant is on its channel before the read loop begins, and the report on its end is put
there when the read loop has published all it will.  Whoever looks at that channel first has nothing to wait for on the
others when it finds the end there.

- `Attendant.still_of_released` — an attendant of which nothing can report any more leaves the channels as they are,
- `Attendant.exclusive_of_access`, `Attendant.unread_of_access` — what an attendant does to channels of its own,
- `Attendant.Prepared` — what is so of an attendant and its channels at any moment,
- `Attendant.Prepared.released_of_ended` — behind a report on the end nothing can report any more.
-/

namespace Courier

variable {μ : Type} [Marshaler μ]

/-! ## Attendants that cannot report any more -/

namespace Stage

variable {s : Status} {ls hs : List (Call μ)} {pending : Option (Marshaler.Receiver μ)} {fired : Bool} {rd : Reader μ}

/-- An attendant that is new has its receiver. -/
theorem pending_of_new (h : Stage .new ls hs pending fired rd) : pending.isSome = true := by
  cases h with
  | fresh r => rfl

/-- A start that has reported has the read loop to begin, or the read loop has begun. -/
theorem handing_or_begun (h : Stage s ls hs pending fired rd) (hr : ls.any Call.hasReported = true) :
    (∃ r, ls = [.handing r]) ∨ rd ≠ .absent := by
  cases h with
  | fresh _ | withdrawing _ | dropping _ | withdrawn => simp at hr
  | launching hc | haltedLaunch hc _ =>
      cases hc with
      | handing r => exact .inl ⟨r, rfl⟩
      | _ => simp [Call.hasReported] at hr
  | reading hl | haltedLoop hl _ => exact .inr fun habsent => by simp [habsent, Reader.isLooping] at hl
  | closed hf _ | haltedClosed hf _ _ => exact .inr fun habsent => by simp [habsent, Reader.hasFired] at hf
  | leaving _ | closing _ | haltedLeft _ _ | haltedFiring _ => exact .inr (by simp)

/-- Once the read loop is over, nothing waits for it any more. -/
theorem pending_of_finished (h : Stage s ls hs pending fired .finished) :
    ls = [.started (.ok ())] ∧ pending = none := by
  cases h with
  | reading hr | haltedLoop hr _ => simp [Reader.isLooping] at hr
  | closed _ _ | haltedClosed _ _ _ => exact ⟨rfl, rfl⟩

end Stage

namespace Attendant

variable {id : AttendantId} {now : Nat} {a b : Attendant μ} {p q : Ports} {m : Move} {c d : Call μ} {i : Nat}

theorem holdsPorts_eq_false :
    a.holdsPorts = false ↔
      a.pending = none ∧ (∀ c ∈ a.calls, c.holdsReceiver = false) ∧ a.reader.holdsPorts = false := by
  simp [holdsPorts, and_assoc]

/-- When the read loop is over, nobody can report any more. -/
theorem released_of_finished (hs : a.Staged) (hr : a.reader = .finished) : a.holdsPorts = false := by
  have hstage : Stage a.status a.launches a.halts a.pending a.fired .finished := hr ▸ hs
  obtain ⟨hl, hp⟩ := hstage.pending_of_finished
  simp [holdsPorts, hp, unheld_of_launched hl, hr, Reader.holdsPorts]

/-- If nobody can report any more and the start has been reported, the read loop is over. -/
theorem finished_of_released (hs : a.Staged) (hr : a.holdsPorts = false) (hstarted : a.hasStarted = true) :
    a.reader = .finished := by
  obtain ⟨-, hcalls, hreader⟩ := holdsPorts_eq_false.1 hr
  rcases Stage.handing_or_begun hs hstarted with ⟨r, hl⟩ | hbegun
  · have hmem : Call.handing r ∈ a.launches := by simp [hl]
    have hheld := hcalls _ (List.mem_filter.1 hmem).1
    simp [Call.holdsReceiver] at hheld
  · cases ha : a.reader <;> simp_all [Reader.holdsPorts]

theorem released_record (hr : a.holdsPorts = false) (hc : c.holdsReceiver = false) :
    (a.record c).holdsPorts = false := by
  obtain ⟨hp, hcalls, hreader⟩ := holdsPorts_eq_false.1 hr
  refine holdsPorts_eq_false.2 ⟨hp, fun d hd => ?_, hreader⟩
  rcases List.mem_append.1 hd with hd | hd
  · exact hcalls d hd
  · exact List.mem_singleton.1 hd ▸ hc

/-- An operation goes on that does not take the receiver. -/
theorem released_set (hr : a.holdsPorts = false) (hc : c.holdsReceiver = false) (hcalls : b.calls = a.calls.set i c)
    (hp : b.pending = none) (hreader : b.reader = a.reader) : b.holdsPorts = false := by
  obtain ⟨-, hall, hreader'⟩ := holdsPorts_eq_false.1 hr
  refine holdsPorts_eq_false.2 ⟨hp, fun d hd => ?_, by rw [hreader]; exact hreader'⟩
  rw [hcalls] at hd
  rcases List.mem_or_eq_of_mem_set hd with hd | rfl
  · exact hall d hd
  · exact hc

/-- An attendant of which nothing can report any more stays so, and leaves its channels as they are. -/
theorem still_of_released (h : Access id now a p m b q) (hs : a.Staged) (hr : a.holdsPorts = false) :
    b.holdsPorts = false ∧ q = p := by
  obtain ⟨hp, hcalls, hreader⟩ := holdsPorts_eq_false.1 hr
  have hnot : ∀ {i : Nat} {c : Call μ}, a.calls[i]? = some c → c.holdsReceiver = true → False := by
    intro i c hc hh
    simp [hcalls c (List.mem_of_getElem? hc)] at hh
  cases h with
  | claim hn =>
      have hstage : Stage .new a.launches a.halts a.pending a.fired a.reader := hn ▸ hs
      simp [hp] at hstage
      exact absurd hstage.pending_of_new (by simp)
  | refuseStart _ | refuseStop _ | refuseSend _ _ _ _ | encode _ _ _ _ _ => exact ⟨released_record hr rfl, rfl⟩
  | halt _ =>
      have hr' : ({ a with status := .stopped } : Attendant μ).holdsPorts = false := hr
      exact ⟨released_record hr' rfl, rfl⟩
  | takeReceiver _ _ _ hpending => simp [hp] at hpending
  | announce _ _ _ hc _ | hand _ _ hc => exact (hnot hc rfl).elim
  | missReceiver _ _ _ | missQueue _ _ _ _ | queue _ _ _ _ _ _ => exact ⟨released_set hr rfl rfl hp rfl, rfl⟩
  | fire _ wasNew _ => exact ⟨released_set hr (by cases wasNew <;> rfl) rfl hp rfl, rfl⟩
  | dropReceiver _ _ => exact ⟨released_set hr rfl rfl rfl rfl, rfl⟩
  | setThrottle _ | setThrottleSigned _ | write _ _ _ => exact ⟨hr, rfl⟩
  | quit hm _ => cases ha : a.reader <;> simp_all [Reader.mindsToken, Reader.holdsPorts]
  | readError _ _ _ _ _ hr' _ _ | readOn _ _ _ _ hr' _ _ | pollError _ _ _ hr' _ | pollMessage _ _ _ hr' _
  | classify _ hr' | judge _ _ hr' | deliver _ _ _ hr' _ _ | defer _ _ _ _ _ hr' _ _ | settleWon _ hr' _
  | settleLost _ hr' _ | fireReader _ hr' | release _ hr' | report _ _ hr' _ =>
      simp [hr', Reader.holdsPorts] at hreader

end Attendant

namespace Ports

variable {id : AttendantId} {p q : Ports} {n : Notice} {d : Delivery} {e : Deferral}

/-- The channels are those of one attendant. -/
structure Exclusive (id : AttendantId) (p : Ports) : Prop where
  lifecycle : p.lifecycle.Exclusive fun n => n.attendant = id
  messages : p.messages.Exclusive fun d => d.attendant = id
  throttled : p.throttled.Exclusive fun d => d.attendant = id

/-- Between the two states nothing has been taken off the channels. -/
structure Unread (p q : Ports) : Prop where
  lifecycle : q.lifecycle.passed = p.lifecycle.passed
  messages : q.messages.passed = p.messages.passed
  throttled : q.throttled.passed = p.throttled.passed

theorem Exclusive.notices_eq (h : p.Exclusive id) : p.notices id = p.lifecycle.sent :=
  h.lifecycle.filter_sent

theorem Exclusive.deliveries_eq (h : p.Exclusive id) : p.deliveries id = p.messages.sent :=
  h.messages.filter_sent

theorem Exclusive.deferrals_eq (h : p.Exclusive id) : p.deferrals id = p.throttled.sent :=
  h.throttled.filter_sent

end Ports

namespace Attendant

variable {id : AttendantId} {now : Nat} {a b : Attendant μ} {p q : Ports} {m : Move}

/-- An attendant puts values of its own into its channels. -/
theorem exclusive_of_access (h : Access id now a p m b q) (hp : p.Exclusive id) : q.Exclusive id := by
  cases h with
  | announce _ _ _ _ ho | report _ _ _ ho => exact ⟨hp.lifecycle.offer ho rfl, hp.messages, hp.throttled⟩
  | deliver _ _ _ _ _ ho => exact ⟨hp.lifecycle, hp.messages.offer ho rfl, hp.throttled⟩
  | defer _ _ _ _ _ _ _ ho => exact ⟨hp.lifecycle, hp.messages, hp.throttled.offer ho rfl⟩
  | _ => exact hp

/-- It takes nothing out. -/
theorem unread_of_access (h : Access id now a p m b q) (hp : p.Exclusive id) : p.Unread q := by
  cases h with
  | announce _ _ _ _ ho | report _ _ _ ho => exact ⟨Channel.passed_of_offer? ho hp.lifecycle.bounded, rfl, rfl⟩
  | deliver _ _ _ _ _ ho => exact ⟨rfl, Channel.passed_of_offer? ho hp.messages.bounded, rfl⟩
  | defer _ _ _ _ _ _ _ ho => exact ⟨rfl, rfl, Channel.passed_of_offer? ho hp.throttled.bounded⟩
  | _ => exact ⟨rfl, rfl, rfl⟩

/-! ## What a funnel finds -/

/-- What is so of an attendant and its channels whenever its funnel looks at them. -/
structure Prepared (id : AttendantId) (a : Attendant μ) (p : Ports) : Prop where
  exclusive : p.Exclusive id
  staged : a.Staged
  reported : a.Reported id p
  reticent : Reticent id a p

namespace Prepared

theorem create (codec : μ) (throttle writer lifecycle messages throttled : Nat) :
    Prepared id (create codec throttle writer)
      ⟨{ capacity := lifecycle }, { capacity := messages }, { capacity := throttled }⟩ where
  exclusive := ⟨.create _ _, .create _ _, .create _ _⟩
  staged := staged_create codec throttle writer
  reported := reported_create id codec throttle writer rfl
  reticent := fun _ => ⟨rfl, rfl⟩

theorem access (h : Prepared id a p) (hacc : Access id now a p m b q) : Prepared id b q where
  exclusive := exclusive_of_access hacc h.exclusive
  staged := staged_of_access hacc h.staged
  reported := told_of_access hacc h.staged h.reported
  reticent := reticent_of_access hacc h.reticent

theorem scan (h : Prepared id a p) {f g : Funnel} {isOver : Bool} (hscan : Funnel.Scans f a.status isOver p g q) :
    Prepared id a q where
  exclusive := by
    cases hscan with
    | started _ ht | stopped _ ht => exact ⟨h.exclusive.lifecycle.take ht, h.exclusive.messages, h.exclusive.throttled⟩
    | message _ ht => exact ⟨h.exclusive.lifecycle, h.exclusive.messages.take ht, h.exclusive.throttled⟩
    | deferral _ ht => exact ⟨h.exclusive.lifecycle, h.exclusive.messages, h.exclusive.throttled.take ht⟩
    | cleared _ _ | ended _ _ | exhausted _ _ _ _ _ => exact h.exclusive
  staged := h.staged
  reported := reported_of_foreign (hscan.foreign id) h.reported
  reticent := reticent_of_foreign (hscan.foreign id) h.reticent

theorem notices (h : Prepared id a p) :
    p.lifecycle.sent = [] ∨ p.lifecycle.sent = [.started id] ∨
      ∃ e, p.lifecycle.sent = [.started id, .stopped id e] := by
  rw [← h.exclusive.notices_eq]
  exact notices_of_reported h.reported

theorem told (h : Prepared id a p) :
    Told id false p.lifecycle.sent a.hasStarted a.isHalted a.reader.isFinished := by
  have htold := h.reported
  rw [Reported, h.exclusive.notices_eq, h.exclusive.lifecycle.heard] at htold
  exact htold

/-- There is a report on the start before anything else is on the channels. -/
theorem sent_ne_nil (h : Prepared id a p) (hp : p.messages.sent ≠ [] ∨ p.throttled.sent ≠ []) :
    p.lifecycle.sent ≠ [] := by
  have hstarted : a.hasStarted = true := by
    rw [← h.exclusive.deliveries_eq, ← h.exclusive.deferrals_eq] at hp
    exact h.reticent.hasStarted h.staged hp
  have htold := h.told
  rw [hstarted] at htold
  exact List.ne_nil_of_mem htold.mem_started

/-- Behind a report on the end nothing can report any more. -/
theorem released_of_ended (h : Prepared id a p) {e : Ending} (hsent : p.lifecycle.sent = [.started id, .stopped id e]) :
    a.holdsPorts = false := by
  have hmem : .stopped id e ∈ p.lifecycle.sent := by simp [hsent]
  have hfinished := h.told.finished_of_mem hmem
  refine released_of_finished h.staged ?_
  cases hr : a.reader <;> simp_all [Reader.isFinished]

/-- If nothing can report any more and the start has been reported, so has been the end. -/
theorem ended_of_released (h : Prepared id a p) (hr : a.holdsPorts = false) : p.lifecycle.sent ≠ [.started id] := by
  intro hsent
  have htold := h.told
  rw [hsent] at htold
  have hstarted : a.hasStarted = true := htold.started_of_mem (List.mem_singleton.2 rfl)
  have hunfinished := htold.unfinished
  simp [finished_of_released h.staged hr hstarted, Reader.isFinished] at hunfinished

/-- The first report is the one on the start, and the second one that on the end. -/
theorem report_cases (h : Prepared id a p) {n : Notice} {lifecycle : Channel Notice}
    (ht : p.lifecycle.take? = some (n, lifecycle)) :
    (p.lifecycle.passed = [] ∧ n = .started id) ∨
    ∃ e, p.lifecycle.passed = [.started id] ∧ n = .stopped id e ∧
      p.lifecycle.sent = [.started id, .stopped id e] := by
  have hsent : p.lifecycle.passed ++ n :: lifecycle.queue = p.lifecycle.sent := by
    rw [← Channel.take?_cons ht, Channel.passed_append_queue]
  rcases h.notices with hnil | hone | ⟨e, htwo⟩
  · simp [hnil] at hsent
  · rw [hone] at hsent
    cases hpassed : p.lifecycle.passed <;> simp_all
  · rw [htwo] at hsent
    generalize p.lifecycle.passed = passed at hsent ⊢
    match passed with
    | [] => exact .inl ⟨rfl, (List.cons.inj hsent).1⟩
    | [x] =>
        simp only [List.cons_append, List.nil_append, List.cons.injEq] at hsent
        exact .inr ⟨e, by rw [hsent.1], hsent.2.1, htwo⟩
    | x :: y :: rest => simp at hsent

end Prepared

end Attendant
end Courier
