import Courier.Proofs.Attendant.Loop

/-!
# Inbound — from the stream to the events

What an attendant publishes when the peer sends a stream and ends it, and nobody stops the attendant.

1. `Attendant.still_of_finished` — nothing comes after the end has been reported,
2. `Attendant.finished_of_rest` — a read loop that can do nothing more and lacks neither input nor room is over,
3. `Attendant.inbound_of_course` — the events are what the stream carries, unless the line limit does not fit a
   64-bit word, in which case every stream seems to be empty.
-/

namespace Courier
namespace Attendant

variable {id : AttendantId} {now : Nat} {a b : Attendant Codec} {p q : Ports} {m : Move} {codec : Codec}

/-! ## After the end -/

/-- The read loop is over and has published what is given. -/
def Still (id : AttendantId) (ds : List Delivery) (fs : List Deferral) (a : Attendant Codec) (p : Ports) :
    Prop :=
  a.Staged ∧ a.reader = .finished ∧ p.deliveries id = ds ∧ p.deferrals id = fs

theorem still_of_access {ds : List Delivery} {fs : List Deferral} (h : Access id now a p m b q)
    (hi : Still id ds fs a p) : Still id ds fs b q := by
  obtain ⟨hs, hr, hd, hf⟩ := hi
  refine ⟨staged_of_access h hs, ?_⟩
  cases h with
  | hand _ _ hc => simp [hs.absent_of_handing hc] at hr
  | readError _ _ _ _ _ hr' _ _ => simp [hr'] at hr
  | readOn _ _ _ _ hr' _ _ => simp [hr'] at hr
  | pollError _ _ _ hr' _ => simp [hr'] at hr
  | pollMessage _ _ _ hr' _ => simp [hr'] at hr
  | classify _ hr' => simp [hr'] at hr
  | judge _ _ hr' => simp [hr'] at hr
  | deliver _ _ _ hr' _ _ => simp [hr'] at hr
  | defer _ _ _ _ _ hr' _ _ => simp [hr'] at hr
  | settleWon _ hr' _ => simp [hr'] at hr
  | settleLost _ hr' _ => simp [hr'] at hr
  | fireReader _ hr' => simp [hr'] at hr
  | release _ hr' => simp [hr'] at hr
  | report _ _ hr' _ => simp [hr'] at hr
  | quit hr' _ => simp [hr, Reader.mindsToken] at hr'
  | _ => exact ⟨hr, hd, hf⟩

/-- Once the read loop is over, nothing is published any more. -/
theorem still_of_finished {ms : List Move} (h : Course id a p ms b q) (hs : a.Staged)
    (hr : a.reader = .finished) :
    q.deliveries id = p.deliveries id ∧ q.deferrals id = p.deferrals id := by
  have hstill : Still id (p.deliveries id) (p.deferrals id) b q := by
    refine Course.preserves still_of_access (fun hf hi => ?_) h ⟨hs, hr, rfl, rfl⟩
    obtain ⟨hs, hr, hd, ht⟩ := hi
    exact ⟨hs, hr, hf.deliveries_eq.trans hd, hf.deferrals_eq.trans ht⟩
  exact hstill.2.2

/-! ## At rest -/

/-- The read loop can do nothing by itself, although it has room, and does not wait for the stream. -/
structure Rests (id : AttendantId) (a : Attendant Codec) (p : Ports) : Prop where
  proceed : ∀ now, a.proceed id now p = none
  read : a.read .ended = none
  lifecycle : p.lifecycle.isFull = false
  messages : p.messages.isFull = false
  throttled : p.throttled.isFull = false

theorem offer_of_room {α : Type} {c : Channel α} (x : α) (h : c.isFull = false) :
    ∃ d, c.offer? x = some d := by
  cases ho : c.offer? x with
  | some d => exact ⟨d, rfl⟩
  | none =>
      have hfull : c.isFull = true := (Channel.offer?_eq_none_iff.1 ho).2
      simp [h] at hfull

theorem finished_of_rest (h : Rests id a p) (hs : a.Staged) (hh : a.halts = [])
    (ha : a.reader ≠ .absent) : a.reader = .finished := by
  have hs' : Stage a.status a.launches [] a.pending a.fired a.reader := hh ▸ hs
  have hproceed := h.proceed 0
  -- in each state but the last there is a move: the reader has room, and the stream has ended
  cases hr : a.reader with
  | absent => exact absurd hr ha
  | finished => rfl
  | receiving r =>
      rcases hp : r.poll with ⟨_ | result, r'⟩
      · have hread := h.read
        simp [Attendant.read, hr, hp, Receiver.absorb, Prod.map] at hread
      · cases result with
        | error e => simp [Attendant.proceed, hr, hp] at hproceed
        | ok msg => simp [Attendant.proceed, hr, hp] at hproceed
  | failed e => simp [Attendant.proceed, hr] at hproceed
  | judging r msg => simp [Attendant.proceed, hr] at hproceed
  | publishing r msg refusal =>
      have hf : a.fired = false := hs'.not_fired (by rw [hr]; rfl)
      cases refusal with
      | none =>
          obtain ⟨c, hc⟩ := offer_of_room ⟨id, msg⟩ h.messages
          simp [Attendant.proceed, hr, hf, hc] at hproceed
      | some refused =>
          obtain ⟨c, hc⟩ := offer_of_room ⟨id, msg, refused.1, refused.2⟩ h.throttled
          simp [Attendant.proceed, hr, hf, hc] at hproceed
  | left ending =>
      cases hstatus : a.status <;> simp [Attendant.proceed, hr, hstatus] at hproceed
  | firing ending => simp [Attendant.proceed, hr] at hproceed
  | releasing ending => simp [Attendant.proceed, hr] at hproceed
  | announcing ending =>
      obtain ⟨c, hc⟩ := offer_of_room (.stopped id ending) h.lifecycle
      simp [Attendant.proceed, hr, hc] at hproceed

/-- Once a start has succeeded, no other operation has claimed the attendant. -/
theorem Staged.of_startedWell (hs : a.Staged) (hh : a.halts = [])
    (hc : ∃ c ∈ a.calls, c.startedWell = true) :
    a.launches = [.started (.ok ())] ∧
      Stage a.status [.started (.ok ())] [] a.pending a.fired a.reader := by
  have hl := hs.launches_of_startedWell hc
  refine ⟨hl, ?_⟩
  rw [← hl, ← hh]
  exact hs

/-- A started attendant whose read loop rests has reported its end. -/
theorem stopped_of_rest (h : Rests id a p) (hs : a.Staged) (hh : a.halts = [])
    (hp : a.Reported id p) (ho : p.lifecycle.closed = false)
    (hc : ∃ c ∈ a.calls, c.startedWell = true) : ∃ e, .stopped id e ∈ p.notices id := by
  obtain ⟨hl, hs'⟩ := hs.of_startedWell hh hc
  have hr : a.reader = .finished := finished_of_rest h hs hh hs'.not_absent
  obtain ⟨e, hmem, -⟩ := hp.mem_stopped hl hr ho
  exact ⟨e, hmem⟩

/-! ## What is published -/

/-- The ending that a reading of the stream leads to. -/
def endingOf : Option Error → Ending
  | none => .closedByPeer
  | some e => .failed e

theorem ofError_getD {c : Codec} {S : Bytes} {ms : List Message} {v : Option Error}
    (h : c.Reads S ms v) : Ending.ofError (v.getD .connectionClosed) = endingOf v := by
  cases v with
  | none => rfl
  | some e =>
      unfold Ending.ofError
      rw [Option.getD_some, h.isGraceful]
      rfl

/-- What reading ends with, once the whole stream is known. -/
theorem reads_of_ends {c : Codec} {g : Intake} {S : Bytes} {ms : List Message} {e : Error}
    (h : Receiver.Ends c g.bytes g.ended ms e) (hS : g.bytes <+: S)
    (hend : g.ended = true → g.bytes = S) :
    ∃ v, c.Reads S ms v ∧ Ending.ofError e = endingOf v := by
  rcases h with h | ⟨hended, v, hv, rfl⟩
  · obtain ⟨rest, rfl⟩ := hS
    exact ⟨some e, h rest, ofError_getD (h rest)⟩
  · rw [hend hended] at hv
    exact ⟨v, hv, ofError_getD hv⟩

/-- What a fresh attendant publishes of a stream `S` that ends, without a stop on this side, however the stream
is cut into reads, whatever is done to the throttle, and as long as the receiving ends are there.

Once its end is reported, the messages on the two channels are, in the order in which they were received, those
that the stream carries up to its first fault.  The end is a clean one exactly if the stream is a concatenation
of accepted lines or frames, and otherwise carries the error of the first fault.  Nothing is published
afterwards, and the end is reported by the time the read loop rests.  The exception is a line limit that does
not fit a 64-bit word: then nothing is published, and the end is a clean one, whatever the stream is. -/
theorem inbound_of_course (codec : Codec) (throttle writer : Nat) {ms : List Move} {S : Bytes}
    (hn : p.notices id = []) (hd : p.deliveries id = []) (ht : p.deferrals id = [])
    (h : Course id (create codec throttle writer) p ms b q) (hms : ∀ m ∈ ms, m.isPlain = true)
    (hS : (Intake.ofMoves ms).bytes <+: S)
    (hend : (Intake.ofMoves ms).ended = true → (Intake.ofMoves ms).bytes = S)
    (hlifecycle : q.lifecycle.closed = false) (hmessages : q.messages.closed = false)
    (hthrottled : q.throttled.closed = false) :
    (∀ ending, .stopped id ending ∈ q.notices id →
      (codec.overflows = false →
        (∃ msgs v, codec.Reads S msgs v ∧ ending = endingOf v ∧
          Shuffle ((q.deliveries id).map (·.message)) ((q.deferrals id).map (·.message)) msgs) ∧
        (∀ msgs msgs' v v', codec.Reads S msgs v → codec.Reads S msgs' v' → msgs = msgs' ∧ v = v') ∧
        (ending = .closedByPeer ↔ ∃ msgs, codec.Carries S msgs)) ∧
      (codec.overflows = true →
        ending = .closedByPeer ∧ q.deliveries id = [] ∧ q.deferrals id = []) ∧
      (∀ ms' b' q', Course id b q ms' b' q' →
        q'.deliveries id = q.deliveries id ∧ q'.deferrals id = q.deferrals id)) ∧
    (Rests id b q → (∃ c ∈ b.calls, c.startedWell = true) →
      ∃ ending, .stopped id ending ∈ q.notices id) := by
  have hcreate : (create codec throttle writer).Staged := staged_create codec throttle writer
  have hstaged : b.Staged := staged_of_course h hcreate
  have hreported : b.Reported id q := reported_of_course h hcreate (reported_create _ _ _ _ hn)
  refine ⟨fun ending hm => ⟨fun hfits => ?_, fun hover => ?_, fun ms' b' q' h' => ?_⟩, fun hrest hc => ?_⟩
  · obtain ⟨-, published, verdict, hl⟩ :=
      loop_of_course (Receiver.account hfits) hn hd ht h hms
    generalize Intake.ofMoves ms = g at hl hS hend
    obtain ⟨hr, hv⟩ := hl.reported ending hm
    have hphase := hl.phase
    rw [hr] at hphase
    cases hphase with
    | leaving _ hr' => simp [Reader.ending?] at hr'
    | finished he =>
        obtain ⟨v, hreads, hending⟩ := reads_of_ends he hS hend
        obtain rfl : endingOf v = ending := by simpa [hending] using hv
        refine ⟨⟨_, v, hreads, rfl, hl.published hmessages hthrottled⟩,
          fun _ _ _ _ h h' => h.unique h' rfl, fun hclosed => ?_, fun hcarries => ?_⟩
        · cases hreads with
          | clean hx => exact ⟨_, hx⟩
          | faulty _ _ => simp [endingOf] at hclosed
        · obtain ⟨msgs, hmsgs⟩ := hcarries
          obtain ⟨-, rfl⟩ := hreads.unique (.clean hmsgs) rfl
          rfl
  · obtain ⟨-, published, verdict, hl⟩ :=
      loop_of_course (Receiver.account_of_overflows hover) hn hd ht h hms
    generalize Intake.ofMoves ms = g at hl hS hend
    obtain ⟨hr, hv⟩ := hl.reported ending hm
    have hphase := hl.phase
    rw [hr] at hphase
    cases hphase with
    | leaving _ hr' => simp [Reader.ending?] at hr'
    | finished he =>
        obtain ⟨hnone, rfl⟩ := he
        obtain ⟨hdel, hdef⟩ := (hl.published hmessages hthrottled).eq_nil hnone
        refine ⟨by simpa [Ending.ofError, Error.isGraceful] using hv.symm, ?_, ?_⟩
        · simpa using hdel
        · simpa using hdef
  · have hr : b.reader = .finished := by
      unfold Reported at hreported
      cases hf : b.reader with
      | finished => rfl
      | _ =>
          rw [hf] at hreported
          exact absurd hm hreported.not_mem_stopped
    exact still_of_finished h' hstaged hr
  · have hh : b.halts = [] := by
      cases hover : codec.overflows with
      | false => exact (loop_of_course (Receiver.account hover) hn hd ht h hms).1
      | true => exact (loop_of_course (Receiver.account_of_overflows hover) hn hd ht h hms).1
    exact stopped_of_rest hrest hstaged hh hreported hlifecycle hc

/-- A stream of one message and a line that is cut off, in reads that do not respect the lines. -/
theorem inbound_of_cut_line :
    ∃ b q, after 0 0 (create (Codec.lines 80) 0 8) (.ofCapacities 4 4)
        [.start, .advance 0, .advance 0, .advance 0, .read (.data [91, 34]),
          .read (.data [65, 34, 93, 10, 123]), .proceed, .proceed, .proceed, .read .ended, .proceed,
          .proceed, .proceed, .proceed, .proceed] = some (b, q) ∧
      q.notices 0 = [.started 0, .stopped 0 (.failed (.protocol .endedInLine))] ∧
      ∃ msgs v, (Codec.lines 80).Reads [91, 34, 65, 34, 93, 10, 123] msgs v ∧
        Ending.failed (.protocol .endedInLine) = endingOf v ∧
        Shuffle ((q.deliveries 0).map (·.message)) ((q.deferrals 0).map (·.message)) msgs := by
  obtain ⟨b, q, h, hn, hc⟩ : ∃ b q, after 0 0 (create (Codec.lines 80) 0 8) (.ofCapacities 4 4)
      [.start, .advance 0, .advance 0, .advance 0, .read (.data [91, 34]),
        .read (.data [65, 34, 93, 10, 123]), .proceed, .proceed, .proceed, .read .ended, .proceed,
        .proceed, .proceed, .proceed, .proceed] = some (b, q) ∧
      q.notices 0 = [.started 0, .stopped 0 (.failed (.protocol .endedInLine))] ∧
      q.lifecycle.closed = false ∧ q.messages.closed = false ∧ q.throttled.closed = false :=
    ⟨_, _, rfl, rfl, rfl, rfl, rfl⟩
  have hinbound := inbound_of_course (Codec.lines 80) 0 8 (S := [91, 34, 65, 34, 93, 10, 123]) rfl rfl rfl
    (Course.of_after h) (by simp [Move.isPlain]) (by simp [Intake.ofMoves, Intake.take])
    (by simp [Intake.ofMoves, Intake.take]) hc.1 hc.2.1 hc.2.2
  exact ⟨b, q, h, hn, ((hinbound.1 _ (by rw [hn]; simp)).1 rfl).1⟩

/-- With the largest maximum a line that cannot be decoded passes for a clean end. -/
theorem clean_end_of_bad_line :
    ∃ b q, after 0 0 (create (Codec.lines 18446744073709551615) 0 8) (.ofCapacities 4 4)
        [.start, .advance 0, .advance 0, .advance 0, .proceed, .proceed, .proceed, .proceed, .proceed,
          .proceed] = some (b, q) ∧
      q.notices 0 = [.started 0, .stopped 0 .closedByPeer] ∧
      (Codec.lines 18446744073709551615).Reads [120, 10] []
        (some (.json ⟨.expectedValue, 1, 1⟩)) := by
  refine ⟨_, _, rfl, rfl, ?_⟩
  exact .faulty .nil (@Codec.Fault.badLine _ [120] _ [] (by decide) (by decide) (by decide) rfl)

end Attendant
end Courier
