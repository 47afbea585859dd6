import Courier.Outbox.Writer
import Courier.Proofs.Channel

/-!
# Outbox — every byte of a queued frame goes out once and in order

1. `Batch.flatten_offered` — a write offers what is left of a batch, without gaps,
2. `Outbox.Turn` lists what the writing task can do, `Outbox.turn_of_step` shows that it does nothing else,
3. `Outbox.Sound` accounts for the bytes of all frames that have left the queue,
4. `Outbox.delivered_of_quiet` — a task that has nothing to do has delivered everything that was queued.
-/

namespace Courier

/-! ## Batches -/

namespace Batch

theorem flatten_slices (frames : List Bytes) (skip : Nat) :
    (slices frames skip).flatten = frames.flatten.drop skip := by
  induction frames generalizing skip with
  | nil => simp [slices]
  | cons f frames ih =>
      rw [slices]
      by_cases hskip : f.length ≤ skip
      · rw [if_pos hskip, ih, List.flatten_cons, List.drop_append, List.drop_eq_nil_of_le hskip,
          List.nil_append]
      · rw [if_neg hskip, List.flatten_cons, ih, List.flatten_cons, List.drop_zero,
          List.drop_append_of_le_length (Nat.le_of_not_le hskip)]

theorem flatten_offered (b : Batch) : b.offered.flatten = b.frames.flatten.drop b.written :=
  flatten_slices b.frames b.written

theorem size_eq (b : Batch) : b.size = b.frames.flatten.length := by
  rw [size, List.length_flatten]

theorem offered_of_isWritten {b : Batch} (h : b.isWritten = true) : b.offered.flatten = [] := by
  rw [flatten_offered]
  refine List.drop_eq_nil_of_le ?_
  rw [← size_eq]
  simpa [isWritten] using h

/-- What a sink takes of a batch and what is offered next are what was offered. -/
theorem taken_append_offered (b : Batch) (n : Nat) :
    b.offered.flatten.take n ++ ({ b with written := b.written + n } : Batch).offered.flatten =
      b.offered.flatten := by
  rw [flatten_offered, flatten_offered, ← List.drop_drop, List.take_append_drop]

/-- As long as a batch is not written, something is offered of it. -/
theorem offered_ne_nil {b : Batch} (h : b.isWritten = false) : b.offered.flatten ≠ [] := by
  intro hnil
  rw [flatten_offered, List.drop_eq_nil_iff, ← size_eq] at hnil
  simp only [isWritten, decide_eq_false_iff_not] at h
  exact h hnil

/-- A write that does not end the batch has taken something. -/
theorem took_of_accept {b c : Batch} {outcome : Outcome} (h : b.accept outcome = .ok c) :
    ∃ n, outcome = .took (n + 1) ∧ c = { b with written := b.written + (n + 1) } := by
  cases outcome with
  | failed e => simp [accept] at h
  | took n =>
      cases n with
      | zero => simp [accept] at h
      | succ n => exact ⟨n, rfl, (Except.ok.inj h).symm⟩

/-- A write that ends it has failed or has taken nothing. -/
theorem failed_of_accept {b : Batch} {outcome : Outcome} {e : IoError} (h : b.accept outcome = .error e) :
    outcome = .failed e ∨ outcome = .took 0 ∧ e = .tookNothing := by
  cases outcome with
  | failed f => exact .inl (congrArg Outcome.failed (Except.error.inj h))
  | took n =>
      cases n with
      | zero => exact .inr ⟨rfl, (Except.error.inj h).symm⟩
      | succ n => simp [accept] at h

theorem taken_of_accept_error {b : Batch} {outcome : Outcome} {e : IoError}
    (h : b.accept outcome = .error e) : (SinkCall.write b.offered outcome).taken = [] := by
  rcases failed_of_accept h with rfl | ⟨rfl, -⟩
  · rfl
  · simp [SinkCall.taken]

end Batch

namespace Outbox

/-! ## Turns -/

/-- What the writing task does in one move. -/
inductive Turn (fired held : Bool) (b : Outbox) : Move → Outbox → Prop where
  | take (f : Bytes) (queue : Channel Bytes) (hp : b.phase = .waiting) (hf : fired = false)
      (hq : b.queue.take? = some (f, queue)) :
      Turn fired held b .take { b with queue, phase := .gathering [f] }
  | gather (frames : List Bytes) (f : Bytes) (queue : Channel Bytes) (hp : b.phase = .gathering frames)
      (hq : b.queue.take? = some (f, queue)) :
      Turn fired held b .gather { b with queue, phase := .gathering (frames ++ [f]) }
  | complete (frames : List Bytes) (hp : b.phase = .gathering frames) :
      Turn fired held b .seal
        { b with phase := if ({ frames } : Batch).isWritten then .flushing else .writing { frames } }
  | write (batch : Batch) (n : Nat) (hp : b.phase = .writing batch) :
      Turn fired held b (.write (.took (n + 1)))
        { b.record (.write batch.offered (.took (n + 1))) with
          phase := if ({ batch with written := batch.written + (n + 1) } : Batch).isWritten then .flushing
            else .writing { batch with written := batch.written + (n + 1) } }
  | writeFailed (batch : Batch) (outcome : Outcome) (e : IoError) (hp : b.phase = .writing batch)
      (he : batch.accept outcome = .error e) :
      Turn fired held b (.write outcome) ((b.record (.write batch.offered outcome)).finish (some e))
  | flush (hp : b.phase = .flushing) :
      Turn fired held b (.flush none) { b.record .flush with phase := .waiting }
  | flushFailed (e : IoError) (hp : b.phase = .flushing) :
      Turn fired held b (.flush (some e)) ((b.record .flush).finish (some e))
  | leave (hp : b.phase = .waiting) (hf : (fired || (!held && b.queue.isEmpty)) = true) :
      Turn fired held b .leave { b with phase := .closing }
  | abandon (hf : fired = true) : Turn fired held b .abandon (b.finish none)
  | shutdown (hp : b.phase = .closing) :
      Turn fired held b .shutdown ((b.record .shutdown).finish none)

variable {fired held : Bool} {b c : Outbox} {m : Move}

/-- Every move of the writing task is one of the listed turns. -/
theorem turn_of_step (h : b.step fired held m = some c) : Turn fired held b m c := by
  -- a move other than giving up is made in one phase only
  cases m with
  | take =>
      cases hp : b.phase <;> simp only [step, hp] at h <;> try contradiction
      simp only [Option.ite_none_left_eq_some, Option.map_eq_some_iff] at h
      obtain ⟨hf, ⟨f, queue⟩, hq, rfl⟩ := h
      exact .take f queue hp (by simpa using hf) hq
  | gather =>
      cases hp : b.phase <;> simp only [step, hp] at h <;> try contradiction
      simp only [Option.ite_none_right_eq_some, Option.map_eq_some_iff] at h
      obtain ⟨-, ⟨f, queue⟩, hq, rfl⟩ := h
      exact .gather _ f queue hp hq
  | «seal» =>
      cases hp : b.phase <;> simp only [step, hp] at h <;> try contradiction
      simp only [Option.ite_none_left_eq_some, Option.some.injEq] at h
      obtain ⟨-, rfl⟩ := h
      exact .complete _ hp
  | write outcome =>
      cases hp : b.phase <;> simp only [step, hp] at h <;> try contradiction
      rename_i batch
      simp only [Option.ite_none_right_eq_some] at h
      obtain ⟨-, h⟩ := h
      cases ha : batch.accept outcome with
      | error e =>
          rw [ha] at h
          obtain rfl := Option.some.inj h
          exact .writeFailed batch outcome e hp ha
      | ok batch' =>
          rw [ha] at h
          obtain rfl := Option.some.inj h
          obtain ⟨n, rfl, rfl⟩ := Batch.took_of_accept ha
          exact .write batch n hp
  | flush failure =>
      cases hp : b.phase <;> simp only [step, hp] at h <;> try contradiction
      cases failure with
      | none =>
          obtain rfl := Option.some.inj h
          exact .flush hp
      | some e =>
          obtain rfl := Option.some.inj h
          exact .flushFailed e hp
  | leave =>
      cases hp : b.phase <;> simp only [step, hp] at h <;> try contradiction
      simp only [Option.ite_none_right_eq_some, Option.some.injEq] at h
      obtain ⟨hf, rfl⟩ := h
      exact .leave hp hf
  | abandon =>
      cases hp : b.phase <;> simp only [step, hp] at h <;> try contradiction
      all_goals
        simp only [Option.ite_none_right_eq_some, Option.some.injEq] at h
        obtain ⟨hf, rfl⟩ := h
        exact .abandon hf
  | shutdown =>
      cases hp : b.phase <;> simp only [step, hp] at h <;> try contradiction
      obtain rfl := Option.some.inj h
      exact .shutdown hp

/-- The task takes frames out of the queue and puts none in. -/
theorem sent_of_turn (h : Turn fired held b m c) : c.queue.sent = b.queue.sent := by
  cases h with
  | take f queue _ _ hq => exact Channel.sent_of_take? hq
  | gather frames f queue _ hq => exact Channel.sent_of_take? hq
  | _ => rfl

theorem delivered_record (b : Outbox) (call : SinkCall) :
    (b.record call).delivered = b.delivered ++ call.taken := by
  simp [delivered, record]

/-- What the sink has taken stays taken. -/
theorem delivered_of_turn (h : Turn fired held b m c) : b.delivered <+: c.delivered := by
  have hrecord : ∀ call, b.delivered <+: (b.record call).delivered := by
    intro call
    rw [delivered_record]
    exact List.prefix_append ..
  cases h with
  | write batch n hp => exact hrecord _
  | writeFailed batch outcome e _ _ => exact hrecord _
  | flush _ => exact hrecord _
  | flushFailed _ _ => exact hrecord _
  | shutdown _ => exact hrecord _
  | _ => exact List.prefix_rfl

/-! ## Accounts -/

/-- The bytes in hand that the sink has not taken. -/
def Phase.pending : Phase → Bytes
  | .gathering frames => frames.flatten
  | .writing batch => batch.offered.flatten
  | _ => []

/-- The frames that have left the queue. -/
def collected (b : Outbox) : List Bytes :=
  b.queue.sent.take b.queue.taken

/-- The bytes of all frames that have left the queue have been taken by the sink or are in hand; only a task
that has ended may have given some of them up. -/
structure Sound (b : Outbox) : Prop where
  taken : b.queue.taken ≤ b.queue.sent.length
  bytes : ∃ lost, b.delivered ++ b.phase.pending ++ lost = b.collected.flatten ∧
    (b.isEnded = false → lost = [])
  busy : ∀ batch, b.phase = .writing batch → batch.isWritten = false

namespace Sound

theorem start (capacity : Nat) : (Outbox.start capacity).Sound where
  taken := Nat.le_refl 0
  bytes := ⟨[], rfl, fun _ => rfl⟩
  busy := by
    intro batch h
    simp [Outbox.start] at h

/-- A frame that is queued has not left the queue. -/
theorem collected_offer {f : Bytes} {queue : Channel Bytes} (h : b.Sound) (hc : b.queue.closed = false)
    (ho : b.queue.offer? f = some queue) : ({ b with queue } : Outbox).collected = b.collected := by
  rcases Channel.offer?_eq_some_iff.1 ho with ⟨hc', -⟩ | ⟨-, -, rfl⟩
  · simp [hc] at hc'
  · simp only [collected, Channel.sent_put, Channel.taken_put]
    exact List.take_append_of_le_length h.taken

theorem offer {f : Bytes} {queue : Channel Bytes} (h : b.Sound) (hc : b.queue.closed = false)
    (ho : b.queue.offer? f = some queue) : ({ b with queue } : Outbox).Sound := by
  have hcollected := h.collected_offer hc ho
  rcases Channel.offer?_eq_some_iff.1 ho with ⟨hc', -⟩ | ⟨-, -, rfl⟩
  · simp [hc] at hc'
  · refine ⟨?_, ?_, h.busy⟩
    · simp only [Channel.sent_put, Channel.taken_put, List.length_append]
      have htaken := h.taken
      omega
    · rw [hcollected]
      exact h.bytes

/-- A frame that leaves the queue is the next one. -/
theorem collected_take {f : Bytes} {queue : Channel Bytes} (hq : b.queue.take? = some (f, queue)) :
    queue.taken ≤ queue.sent.length ∧
      queue.sent.take queue.taken = b.collected ++ [f] := by
  obtain ⟨hhead, rfl⟩ := Channel.take?_eq_some_iff.1 hq
  have hget : b.queue.sent[b.queue.taken]? = some f := by
    rw [← hhead, Channel.queue, List.head?_drop]
  obtain ⟨hlt, hf⟩ := List.getElem?_eq_some_iff.1 hget
  refine ⟨hlt, ?_⟩
  show b.queue.sent.take (b.queue.taken + 1) = _
  rw [List.take_add_one, hget]
  rfl

/-- A task that ends gives up what it has in hand. -/
theorem finish (h : b.Sound) (failure : Option IoError) : (b.finish failure).Sound := by
  obtain ⟨lost, hbytes, -⟩ := h.bytes
  refine ⟨h.taken, ⟨b.phase.pending ++ lost, ?_, ?_⟩, ?_⟩
  · rw [← List.append_assoc]
    show b.delivered ++ [] ++ b.phase.pending ++ lost = _
    rw [List.append_nil, hbytes]
    rfl
  · intro hended
    simp [isEnded, Outbox.finish] at hended
  · intro batch hp
    simp [Outbox.finish] at hp

/-- A call on the sink that moves no byte changes nothing. -/
theorem record {call : SinkCall} (h : b.Sound) (hc : call.taken = []) : (b.record call).Sound := by
  have hdelivered : (b.record call).delivered = b.delivered := by
    rw [delivered_record, hc, List.append_nil]
  exact ⟨h.taken, by rw [hdelivered]; exact h.bytes, h.busy⟩

/-- The task is in another phase with the same bytes in hand. -/
theorem phase {p : Phase} (h : b.Sound) (hb : b.isEnded = false) (hp : p.pending = b.phase.pending)
    (hbusy : ∀ batch, p = .writing batch → batch.isWritten = false) :
    ({ b with phase := p } : Outbox).Sound := by
  obtain ⟨lost, hbytes, hlost⟩ := h.bytes
  refine ⟨h.taken, ⟨lost, ?_, fun _ => hlost hb⟩, hbusy⟩
  show b.delivered ++ p.pending ++ lost = _
  rw [hp, hbytes]
  rfl

/-- A task that has not ended has lost nothing. -/
theorem delivered_pending (h : b.Sound) (hb : b.isEnded = false) :
    b.delivered ++ b.phase.pending = b.collected.flatten := by
  obtain ⟨lost, hbytes, hlost⟩ := h.bytes
  obtain rfl := hlost hb
  rw [← hbytes, List.append_nil]

/-- A frame that leaves the queue comes behind what is in hand. -/
theorem collect {f : Bytes} {queue : Channel Bytes} {p : Phase} (h : b.Sound) (hb : b.isEnded = false)
    (hq : b.queue.take? = some (f, queue)) (hp : p.pending = b.phase.pending ++ f)
    (hbusy : ∀ batch, p ≠ .writing batch) : ({ b with queue, phase := p } : Outbox).Sound := by
  obtain ⟨htaken, hcollected⟩ := collected_take hq
  refine ⟨htaken, ⟨[], ?_, fun _ => rfl⟩, fun batch hp => absurd hp (hbusy batch)⟩
  show b.delivered ++ p.pending ++ [] = (queue.sent.take queue.taken).flatten
  rw [hcollected, hp, List.flatten_append, ← h.delivered_pending hb]
  simp

end Sound

theorem isEnded_of_phase {p : Phase} (hp : b.phase = p) (hne : ∀ f, p ≠ .ended f) :
    b.isEnded = false := by
  unfold isEnded
  rw [hp]
  cases p with
  | ended f => exact absurd rfl (hne f)
  | _ => rfl

/-- A batch in its next phase: written, or still to be written. -/
theorem pending_of_batch (batch : Batch) :
    Phase.pending (if batch.isWritten then .flushing else .writing batch) = batch.offered.flatten ∧
      ∀ batch', (if batch.isWritten then Phase.flushing else .writing batch) = .writing batch' →
        batch'.isWritten = false := by
  by_cases hw : batch.isWritten = true
  · rw [if_pos hw, Batch.offered_of_isWritten hw]
    exact ⟨rfl, fun _ h => by simp at h⟩
  · rw [if_neg hw]
    refine ⟨rfl, fun batch' h => ?_⟩
    obtain rfl : batch = batch' := by simpa using h
    simpa using hw

theorem sound_of_turn (h : Turn fired held b m c) (hs : b.Sound) : c.Sound := by
  cases h with
  | take f queue hp _ hq =>
      exact hs.collect (isEnded_of_phase hp (by simp)) hq (by simp [hp, Phase.pending]) (by simp)
  | gather frames f queue hp hq =>
      exact hs.collect (isEnded_of_phase hp (by simp)) hq (by simp [hp, Phase.pending]) (by simp)
  | complete frames hp =>
      obtain ⟨hpending, hbusy⟩ := pending_of_batch { frames }
      refine hs.phase (isEnded_of_phase hp (by simp)) ?_ hbusy
      rw [hpending, hp, Batch.flatten_offered]
      rfl
  | write batch n hp =>
      obtain ⟨hpending, hbusy⟩ := pending_of_batch { batch with written := batch.written + (n + 1) }
      have hbytes := hs.delivered_pending (isEnded_of_phase hp (by simp))
      rw [hp] at hbytes
      refine ⟨hs.taken, ⟨[], ?_, fun _ => rfl⟩, hbusy⟩
      have htake := Batch.taken_append_offered batch (n + 1)
      -- what the sink has taken moves from what is pending to what is delivered
      calc (b.record (.write batch.offered (.took (n + 1)))).delivered ++
            Phase.pending (if ({ batch with written := batch.written + (n + 1) } : Batch).isWritten
              then .flushing else .writing { batch with written := batch.written + (n + 1) }) ++ []
          = b.delivered ++ (batch.offered.flatten.take (n + 1) ++
              ({ batch with written := batch.written + (n + 1) } : Batch).offered.flatten) := by
            rw [delivered_record, hpending, List.append_nil, List.append_assoc]
            rfl
        _ = b.delivered ++ batch.offered.flatten := by rw [htake]
        _ = b.collected.flatten := hbytes
  | writeFailed batch outcome e _ he => exact (hs.record (Batch.taken_of_accept_error he)).finish _
  | flush hp =>
      have hrecord : (b.record .flush).Sound := hs.record rfl
      refine hrecord.phase ?_ ?_ (by simp)
      · exact isEnded_of_phase (p := .flushing) hp (by simp)
      · show _ = b.phase.pending
        rw [hp]
        rfl
  | flushFailed e _ =>
      have hrecord : (b.record .flush).Sound := hs.record rfl
      exact hrecord.finish _
  | leave hp _ =>
      refine hs.phase (isEnded_of_phase hp (by simp)) ?_ (by simp)
      rw [hp]
      rfl
  | abandon _ => exact hs.finish _
  | shutdown _ =>
      have hrecord : (b.record .shutdown).Sound := hs.record rfl
      exact hrecord.finish _

/-- The sink has taken nothing but bytes of queued frames, in order. -/
theorem Sound.delivered_front (h : b.Sound) : b.delivered <+: b.queue.sent.flatten := by
  obtain ⟨lost, hbytes, -⟩ := h.bytes
  have hsplit : b.queue.sent.flatten =
      b.collected.flatten ++ (b.queue.sent.drop b.queue.taken).flatten := by
    rw [← List.flatten_append, collected, List.take_append_drop]
  refine ⟨b.phase.pending ++ lost ++ (b.queue.sent.drop b.queue.taken).flatten, ?_⟩
  rw [hsplit, ← hbytes]
  simp

/-! ## Quiet tasks -/

/-- Not a failure of the sink.  A sink that takes nothing of a write fails as well. -/
def Move.isSmooth : Move → Bool
  | .write (.took 0) | .write (.failed _) | .flush (some _) => false
  | _ => true

/-- Whether the task is in its loop. -/
def isWorking (b : Outbox) : Bool :=
  match b.phase with
  | .closing | .ended _ => false
  | _ => true

/-- Unless the sink fails or the token has fired, the task stays in its loop. -/
theorem working_of_turn (h : Turn false true b m c) (hm : m.isSmooth = true) (hb : b.isWorking = true) :
    c.isWorking = true := by
  cases h with
  | take _ _ _ _ _ => rfl
  | gather _ _ _ _ _ => rfl
  | complete frames _ =>
      unfold isWorking
      by_cases hw : ({ frames } : Batch).isWritten = true <;> simp [hw]
  | write batch n _ =>
      unfold isWorking
      by_cases hw : ({ batch with written := batch.written + (n + 1) } : Batch).isWritten = true <;>
        simp [hw]
  | writeFailed batch outcome e _ he =>
      rcases Batch.failed_of_accept he with rfl | ⟨rfl, -⟩ <;> simp [Move.isSmooth] at hm
  | flush _ => rfl
  | flushFailed _ _ => simp [Move.isSmooth] at hm
  | leave _ hf => simp at hf
  | abandon hf => simp at hf
  | shutdown hp =>
      unfold isWorking at hb
      rw [hp] at hb
      simp at hb

theorem isEmpty_of_take? {α : Type} {q : Channel α} (h : q.take? = none) : q.isEmpty = true := by
  have hqueue : q.sent.drop q.taken = [] := (Channel.take?_eq_none_iff q).1 h
  simpa [Channel.isEmpty] using hqueue

/-- A task that collects a batch takes a further frame or else finds the batch complete. -/
theorem seal_of_gathering {fired held : Bool} {frames : List Bytes} (hp : b.phase = .gathering frames)
    (hgather : b.step fired held .gather = none) : b.step fired held .seal ≠ none := by
  intro hseal
  simp only [step, hp, ite_eq_left_iff, reduceCtorEq, imp_false, Decidable.not_not, Bool.and_eq_true,
    decide_eq_true_eq] at hseal
  simp only [step, hp, if_pos hseal.1, Option.map_eq_none_iff] at hgather
  simp [isEmpty_of_take? hgather] at hseal

/-- A task in its loop that can do nothing waits for a frame, and there is none. -/
theorem idle_of_quiet (hs : b.Sound) (hb : b.isWorking = true)
    (hq : ∀ m, m.isSmooth = true → b.step false true m = none) :
    b.phase = .waiting ∧ b.queue.isEmpty = true := by
  cases hp : b.phase with
  | waiting =>
      have htake := hq .take rfl
      simp only [step, hp, Bool.false_eq_true, if_false, Option.map_eq_none_iff] at htake
      exact ⟨rfl, isEmpty_of_take? htake⟩
  | gathering frames => exact absurd (hq .seal rfl) (seal_of_gathering hp (hq .gather rfl))
  | writing batch =>
      have hbusy := hs.busy batch hp
      have hleft : 1 ≤ batch.size - batch.written := by
        simp only [Batch.isWritten, decide_eq_false_iff_not] at hbusy
        omega
      have hwrite := hq (.write (.took 1)) rfl
      simp [step, hp, Batch.admits, hleft, Batch.accept] at hwrite
  | flushing =>
      have hflush := hq (.flush none) rfl
      simp [step, hp] at hflush
  | closing | ended failure =>
      unfold isWorking at hb
      simp [hp] at hb

/-- A task that has not ended, with nothing queued and nothing in hand, has delivered every frame. -/
theorem Sound.delivered_of_isEmpty (hs : b.Sound) (hb : b.isEnded = false) (hp : b.phase.pending = [])
    (hempty : b.queue.isEmpty = true) : b.collected = b.queue.sent ∧ b.delivered = b.queue.sent.flatten := by
  have hall : b.collected = b.queue.sent := by
    simp only [Channel.isEmpty, decide_eq_true_eq] at hempty
    exact List.take_of_length_le hempty
  have hbytes := hs.delivered_pending hb
  rw [hp, hall, List.append_nil] at hbytes
  exact ⟨hall, hbytes⟩

/-- A task in its loop that can do nothing has delivered every frame. -/
theorem delivered_of_quiet (hs : b.Sound) (hb : b.isWorking = true)
    (hq : ∀ m, m.isSmooth = true → b.step false true m = none) :
    b.delivered = b.queue.sent.flatten := by
  obtain ⟨hp, hempty⟩ := idle_of_quiet hs hb hq
  exact (hs.delivered_of_isEmpty (isEnded_of_phase hp (by simp)) (by simp [hp, Phase.pending]) hempty).2

end Outbox
end Courier
