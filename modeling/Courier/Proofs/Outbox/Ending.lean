import Courier.Proofs.Outbox

/-!
# Ending — how the writing task ends, and what the sink has seen by then

1. `Outbox.Move.failure?` — a failure of the sink, and `Outbox.failed_iff_of_turn`: the task ends with an error in such
   a move and in no other,
2. `Outbox.Tidy` — the calls on the sink at any moment: each write offers something, a complete batch has been flushed,
   and nothing comes behind the shutdown,
3. `Outbox.Concluded` — what the sink has seen of a task that has shut it down with nothing left to write.
-/

namespace Courier
namespace Outbox

variable {fired held : Bool} {b c : Outbox} {m : Move} {e : IoError}

/-! ## Phases -/

/-- Whether a batch is being written or flushed. -/
def Phase.isBatch : Phase → Bool
  | .writing _ | .flushing => true
  | _ => false

theorem Phase.ne_of_isBatch {p p' : Phase} (h : p.isBatch = true) (h' : p'.isBatch = false) : p ≠ p' := by
  rintro rfl
  simp [h] at h'

/-- A batch is flushed once it is written, and written on until then. -/
theorem isBatch_phase (batch : Batch) :
    (if batch.isWritten then Phase.flushing else .writing batch).isBatch = true := by
  split <;> rfl

theorem isEnded_of_ended {failure : Option IoError} (h : b.phase = .ended failure) : b.isEnded = true := by
  unfold isEnded
  rw [h]

theorem ended_of_isEnded (h : b.isEnded = true) : ∃ failure, b.phase = .ended failure := by
  unfold isEnded at h
  cases hp : b.phase with
  | ended failure => exact ⟨failure, rfl⟩
  | _ => simp [hp] at h

/-! ## Failures of the sink -/

/-- How the sink fails in a move.  A sink that takes nothing of a write fails as well. -/
def Move.failure? : Move → Option IoError
  | .write (.took 0) => some .tookNothing
  | .write (.failed e) => some e
  | .flush failure => failure
  | _ => none

theorem failure?_of_accept {batch : Batch} {outcome : Outcome} (h : batch.accept outcome = .error e) :
    (Move.write outcome).failure? = some e := by
  rcases Batch.failed_of_accept h with rfl | ⟨rfl, rfl⟩ <;> rfl

/-- A task that has ended does nothing any more. -/
theorem step_of_isEnded (h : b.isEnded = true) (m : Move) : b.step fired held m = none := by
  obtain ⟨failure, hp⟩ := ended_of_isEnded h
  cases m <;> simp [step, hp]

/-- The task ends with an error in a move in which the sink fails, and in no other. -/
theorem failed_iff_of_turn (h : Turn fired held b m c) :
    c.phase = .ended (some e) ↔ m.failure? = some e := by
  cases h with
  | take _ _ _ _ _ => simp [Move.failure?]
  | gather _ _ _ _ _ => simp [Move.failure?]
  | complete _ _ | write _ _ _ =>
      exact iff_of_false (Phase.ne_of_isBatch (isBatch_phase _) rfl) (by simp [Move.failure?])
  | writeFailed batch outcome f _ he => simp [failure?_of_accept he, finish]
  | flush _ => simp [Move.failure?]
  | flushFailed f _ => simp [Move.failure?, finish]
  | leave _ _ => simp [Move.failure?]
  | abandon _ => simp [Move.failure?, finish]
  | shutdown _ => simp [Move.failure?, finish]

/-- A task that ends gives up the receiving end of its queue. -/
theorem closed_of_turn (h : Turn fired held b m c) (hc : c.isEnded = true) : c.queue.closed = true := by
  obtain ⟨failure, hp⟩ := ended_of_isEnded hc
  cases h with
  | complete _ _ | write _ _ _ => exact absurd hp (Phase.ne_of_isBatch (isBatch_phase _) rfl)
  | writeFailed _ _ _ _ _ => rfl
  | flushFailed _ _ => rfl
  | abandon _ => rfl
  | shutdown _ => rfl
  | _ => simp at hp

/-! ## Calls on the sink -/

/-- Whether the task is between two batches. -/
def isBetween (b : Outbox) : Bool :=
  match b.phase with
  | .waiting | .closing => true
  | _ => false

theorem isBetween_of_isBatch (h : b.phase.isBatch = true) : b.isBetween = false := by
  unfold isBetween
  cases hp : b.phase <;> simp_all [Phase.isBatch]

/-- What the calls on the sink say at any moment. -/
structure Tidy (b : Outbox) : Prop where
  offers : ∀ offered outcome, SinkCall.write offered outcome ∈ b.calls → offered.flatten ≠ []
  unshut : b.isEnded = false → SinkCall.shutdown ∉ b.calls
  flushed : b.isBetween = true → b.collected ≠ [] → b.calls.getLast? = some .flush

namespace Tidy

theorem start (capacity : Nat) : (Outbox.start capacity).Tidy where
  offers := by simp [Outbox.start]
  unshut _ := by simp [Outbox.start]
  flushed _ h := by simp [Outbox.start, collected] at h

/-- The calls are the same, and the task is in the middle of a batch. -/
theorem within (h : b.Tidy) (hb : b.isEnded = false) (hcalls : c.calls = b.calls)
    (hc : c.isBetween = false) : c.Tidy where
  offers := by
    rw [hcalls]
    exact h.offers
  unshut _ := by
    rw [hcalls]
    exact h.unshut hb
  flushed hbetween := by simp [hc] at hbetween

/-- A call that is no shutdown in the middle of a batch. -/
theorem call {call : SinkCall} (h : b.Tidy) (hb : b.isEnded = false) (hcalls : c.calls = b.calls ++ [call])
    (hoffers : ∀ offered outcome, call = .write offered outcome → offered.flatten ≠ [])
    (hshut : call ≠ .shutdown) (hc : c.isBetween = true → call = .flush) : c.Tidy where
  offers offered outcome hmem := by
    rw [hcalls, List.mem_append, List.mem_singleton] at hmem
    rcases hmem with hmem | rfl
    · exact h.offers offered outcome hmem
    · exact hoffers offered outcome rfl
  unshut _ := by
    rw [hcalls, List.mem_append, List.mem_singleton, not_or]
    exact ⟨h.unshut hb, hshut.symm⟩
  flushed hbetween _ := by
    rw [hcalls, List.getLast?_append, hc hbetween]
    rfl

/-- A task that ends makes no call, or one last call. -/
theorem finish (h : b.Tidy) (hcalls : c.calls = b.calls ∨
      ∃ call, c.calls = b.calls ++ [call] ∧
        ∀ offered outcome, call = SinkCall.write offered outcome → offered.flatten ≠ [])
    (hc : c.isEnded = true) : c.Tidy where
  offers offered outcome hmem := by
    rcases hcalls with hcalls | ⟨call, hcalls, hoffers⟩
    · rw [hcalls] at hmem
      exact h.offers offered outcome hmem
    · rw [hcalls, List.mem_append, List.mem_singleton] at hmem
      rcases hmem with hmem | rfl
      · exact h.offers offered outcome hmem
      · exact hoffers offered outcome rfl
  unshut hended := by simp [hc] at hended
  flushed hbetween := by
    unfold isEnded at hc
    unfold isBetween at hbetween
    cases hp : c.phase <;> simp [hp] at hc hbetween

end Tidy

/-- A frame that is queued has not left the queue. -/
theorem Tidy.offer {f : Bytes} {queue : Channel Bytes} (h : b.Tidy) (hs : b.Sound)
    (hc : b.queue.closed = false) (ho : b.queue.offer? f = some queue) :
    ({ b with queue } : Outbox).Tidy := by
  refine ⟨h.offers, h.unshut, fun hbetween hne => h.flushed hbetween ?_⟩
  rwa [hs.collected_offer hc ho] at hne

/-- A batch that is being written offers something. -/
theorem tidy_of_turn (h : Turn fired held b m c) (hs : b.Sound) (hb : b.isEnded = false) (ht : b.Tidy) :
    c.Tidy := by
  have hwrite : ∀ {batch : Batch} {outcome : Outcome}, b.phase = .writing batch →
      ∀ offered outcome', SinkCall.write batch.offered outcome = .write offered outcome' →
        offered.flatten ≠ [] := by
    intro batch outcome hp offered outcome' heq
    obtain ⟨rfl, -⟩ := SinkCall.write.inj heq
    exact Batch.offered_ne_nil (hs.busy batch hp)
  cases h with
  | take _ _ _ _ _ => exact ht.within hb rfl rfl
  | gather _ _ _ _ _ => exact ht.within hb rfl rfl
  | complete _ _ => exact ht.within hb rfl (isBetween_of_isBatch (isBatch_phase _))
  | write batch n hp =>
      refine ht.call hb rfl (hwrite hp) (by simp) fun hbetween => ?_
      rw [isBetween_of_isBatch (isBatch_phase _)] at hbetween
      simp at hbetween
  | writeFailed batch outcome _ hp _ => exact ht.finish (.inr ⟨_, rfl, hwrite hp⟩) rfl
  | flush _ => exact ht.call hb rfl (by simp) (by simp) fun _ => rfl
  | flushFailed _ _ => exact ht.finish (.inr ⟨.flush, rfl, by simp⟩) rfl
  | leave hp _ =>
      -- the last batch was flushed before the task came back to its wait
      refine ⟨ht.offers, fun _ => ht.unshut hb, fun _ => ht.flushed ?_⟩
      unfold isBetween
      rw [hp]
  | abandon _ => exact ht.finish (.inl rfl) rfl
  | shutdown _ => exact ht.finish (.inr ⟨.shutdown, rfl, by simp⟩) rfl

/-! ## The sink at the end -/

/-- The sink has taken everything, the last batch has been flushed, and the sink has been shut down once and last. -/
def Concluded (b : Outbox) : Prop :=
  b.delivered = b.queue.sent.flatten ∧
    ∃ calls, b.calls = calls ++ [.shutdown] ∧ SinkCall.shutdown ∉ calls ∧
      (b.queue.sent ≠ [] → calls.getLast? = some .flush)

/-- A task that has left its loop with nothing queued has nothing left to write. -/
theorem concluded_of_closing (hs : b.Sound) (ht : b.Tidy) (hp : b.phase = .closing)
    (hempty : b.queue.isEmpty = true) : ((b.record .shutdown).finish none).Concluded := by
  have hunended : b.isEnded = false := isEnded_of_phase hp (by simp)
  obtain ⟨hall, hdelivered⟩ := hs.delivered_of_isEmpty hunended (by simp [hp, Phase.pending]) hempty
  refine ⟨?_, b.calls, rfl, ht.unshut hunended, fun hsent => ht.flushed ?_ ?_⟩
  · show (b.record .shutdown).delivered = b.queue.sent.flatten
    rw [delivered_record, hdelivered]
    exact List.append_nil _
  · unfold isBetween
    rw [hp]
  · rw [hall]
    exact hsent

/-- Without the token, the task leaves its loop once nobody holds a handle and nothing is queued. -/
theorem closing_of_turn (h : Turn false held b m c) (hc : c.phase = .closing) :
    held = false ∧ c.queue.isEmpty = true := by
  cases h with
  | leave _ hf => simpa using hf
  | complete _ _ | write _ _ _ => exact absurd hc (Phase.ne_of_isBatch (isBatch_phase _) rfl)
  | _ => simp [finish] at hc

/-- Without the token, a task that ends without an error has shut the sink down. -/
theorem concluded_of_turn (h : Turn false held b m c) (hs : b.Sound) (ht : b.Tidy)
    (hempty : b.phase = .closing → b.queue.isEmpty = true) (hc : c.phase = .ended none) :
    b.phase = .closing ∧ c.Concluded := by
  cases h with
  | shutdown hp => exact ⟨hp, concluded_of_closing hs ht hp (hempty hp)⟩
  | abandon hf => simp at hf
  | complete _ _ | write _ _ _ => exact absurd hc (Phase.ne_of_isBatch (isBatch_phase _) rfl)
  | _ => simp [finish] at hc

end Outbox
end Courier
