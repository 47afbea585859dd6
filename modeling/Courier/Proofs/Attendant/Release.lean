import Courier.Proofs.Attendant.Outcome
import Courier.Proofs.Attendant.Quiet
import Courier.Proofs.Outbox.Ending
import Courier.Proofs.Revision

/-!
# Release — stopping against back-pressure

A stop comes while the consumer makes no room, the peer takes nothing and senders wait for the queue.  Each of these
waits minds the token or the end of the queue, so that nothing is left waiting but, at most, the last report.

1. `Call.Becomes`, `Attendant.becomes_of_course` — what an operation can come to,
2. `Attendant.closed_of_course` — a writing task that has ended has given its queue up,
3. `Attendant.result_of_quiet` — after a start and a stop that came out well, no operation stays under way,
4. `Attendant.release_of_stop` puts them together.
-/

namespace Courier

variable {μ : Type} [Marshaler μ]

/-! ## Operations under way -/

namespace Call

variable {c d e : Call μ} {frame : Bytes}

/-- What an operation may come to.  One that has come out stays as it is, and a message that has been encoded goes
into the queue or misses it. -/
inductive Becomes (c d : Call μ) : Prop where
  | same (h : d = c)
  | queued (frame : Bytes) (hc : c = .queueing frame) (hd : d = .sent (.ok ()))
  | missed (frame : Bytes) (hc : c = .queueing frame) (hd : d = .sent (.error .connectionClosed))
  | other (hr : c.result? = none) (hc : ∀ frame, c ≠ .queueing frame)

theorem Becomes.eq_of_result (h : c.Becomes d) (hr : c.result? ≠ none) : d = c := by
  cases h with
  | same h => exact h
  | queued frame hc _ | missed frame hc _ => simp [hc, result?] at hr
  | other hn _ => exact absurd hn hr

theorem Becomes.trans (h : c.Becomes d) (h' : d.Becomes e) : c.Becomes e := by
  cases h with
  | same h =>
      obtain rfl := h
      exact h'
  | queued frame hc hd =>
      obtain rfl : e = d := h'.eq_of_result (by simp [hd, result?])
      exact .queued frame hc hd
  | missed frame hc hd =>
      obtain rfl : e = d := h'.eq_of_result (by simp [hd, result?])
      exact .missed frame hc hd
  | other hr hc => exact .other hr hc

theorem Becomes.of_queueing (h : (Call.queueing frame).Becomes d) (hr : d.result? ≠ none) :
    d = .sent (.ok ()) ∨ d = .sent (.error .connectionClosed) := by
  cases h with
  | same h => simp [h, result?] at hr
  | queued _ _ hd => exact .inl hd
  | missed _ _ hd => exact .inr hd
  | other _ hc => exact absurd rfl (hc frame)

end Call

namespace Attendant

variable {id : AttendantId} {now : Nat} {a b : Attendant μ} {p q : Ports} {m : Move} {ms : List Move} {c : Call μ}
  {i : Nat}

/-- An access begins one operation or lets one go on, if it touches any. -/
theorem calls_of_access (h : Access id now a p m b q) :
    Revises (fun _ => True) (fun _ => Call.Becomes) a.calls b.calls := by
  cases h with
  | claim _ | refuseStart _ | halt _ | refuseStop _ | refuseSend _ _ _ _ | encode _ _ _ _ _ => exact .added trivial rfl
  | takeReceiver i r hc _ => exact .changed hc (.other rfl (by simp)) rfl
  | missReceiver i hc _ => exact .changed hc (.other rfl (by simp)) rfl
  | announce i r _ hc _ => exact .changed hc (.other rfl (by simp)) rfl
  | hand i r hc => exact .changed hc (.other rfl (by simp)) rfl
  | fire i wasNew hc => exact .changed hc (.other rfl (by simp)) rfl
  | dropReceiver i hc => exact .changed hc (.other rfl (by simp)) rfl
  | missQueue i frame hc _ => exact .changed hc (.missed frame rfl rfl) rfl
  | queue i frame _ hc _ _ => exact .changed hc (.queued frame rfl rfl) rfl
  | _ => exact .same rfl

/-- What has become of an operation. -/
theorem becomes_of_course (h : Course id a p ms b q) (hc : a.calls[i]? = some c) :
    ∃ d, b.calls[i]? = some d ∧ c.Becomes d := by
  refine Course.preserves (I := fun b _ => ∃ d, b.calls[i]? = some d ∧ c.Becomes d) ?_ (fun _ hi => hi) h
    ⟨c, hc, .same rfl⟩
  rintro now m a b p q haccess ⟨d, hd, hbecomes⟩
  obtain ⟨e, he, hnext⟩ := (calls_of_access haccess).get_to hd
  refine ⟨e, he, ?_⟩
  rcases hnext with rfl | hnext
  · exact hbecomes
  · exact hbecomes.trans hnext

theorem getElem?_record (c : Call μ) : (a.record c).calls[a.calls.length]? = some c := by
  simp [record]

/-! ## The queue of a task that has ended -/

theorem closed_of_access (h : Access id now a p m b q)
    (ha : a.outbox.isEnded = true → a.outbox.queue.closed = true) :
    b.outbox.isEnded = true → b.outbox.queue.closed = true := by
  cases h with
  | queue i frame queue _ hopen _ =>
      intro hended
      have hclosed : a.outbox.queue.closed = true := ha hended
      simp [hopen] at hclosed
  | write m outbox ho => exact Outbox.closed_of_turn (Outbox.turn_of_step ho)
  | _ => exact ha

theorem closed_of_course {codec : μ} {throttle writer : Nat}
    (h : Course id (create codec throttle writer) p ms b q) (hended : b.outbox.isEnded = true) :
    b.outbox.queue.closed = true := by
  refine Course.preserves (I := fun a _ => a.outbox.isEnded = true → a.outbox.queue.closed = true)
    closed_of_access (fun _ hi => hi) h ?_ hended
  intro habsurd
  simp [create, Outbox.start, Outbox.isEnded] at habsurd

/-! ## After a stop -/

/-- A stop that has come out well is the only one that has made the status final. -/
theorem Staged.halts_of_stoppedWell (hs : a.Staged) (hc : ∃ c ∈ a.calls, c.stoppedWell = true) :
    a.halts = [.stopped (.ok ())] := by
  obtain ⟨c, hc, hw⟩ := hc
  obtain rfl : c = .stopped (.ok ()) := by
    cases c with
    | stopped result => cases result <;> simp_all [Call.stoppedWell]
    | _ => simp [Call.stoppedWell] at hw
  obtain ⟨i, hi⟩ := List.mem_iff_getElem?.1 hc
  exact (hs.halt_unique hi rfl .claimed).1

/-- Starts and stops that claimed the attendant have come out, and the queue keeps no sender waiting. -/
theorem result_of_quiet (hl : a.launches = [.started (.ok ())]) (hh : a.halts = [.stopped (.ok ())])
    (hclosed : a.outbox.queue.closed = true) (hq : Quiet id now a p) (hc : c ∈ a.calls) : c.result? ≠ none := by
  have hlaunch : c.launches = true → c = .started (.ok ()) := by
    intro h
    have hmem : c ∈ a.launches := List.mem_filter.2 ⟨hc, h⟩
    rwa [hl, List.mem_singleton] at hmem
  have hhalt : c.halts = true → c = .stopped (.ok ()) := by
    intro h
    have hmem : c ∈ a.halts := List.mem_filter.2 ⟨hc, h⟩
    rwa [hh, List.mem_singleton] at hmem
  obtain ⟨i, hi⟩ := List.mem_iff_getElem?.1 hc
  have hadvance := hq.advance_eq_none hi
  cases c with
  | claimed | announcing r | handing r => exact absurd (hlaunch rfl) (by simp)
  | firing wasNew | dropping => exact absurd (hhalt rfl) (by simp)
  | queueing frame =>
      -- a queue that has been given up turns a sender away whether it is full or not
      simp [advance, hclosed] at hadvance
  | started _ | stopped _ | sent _ => simp [Call.result?]

/-- Whatever the consumer, the peer and other callers do, once a start and a stop of an attendant have come out well and
nothing can go on by itself:

- both halves of the connection have been released,
- no operation is under way; a message that was encoded before the stop has gone into the queue or has been told that
  the connection is closed, and a send that came after it has been told that the attendant has stopped,
- the end has been reported as a requested one, unless the channel of reports is full or nobody receives them. -/
theorem release_of_stop (codec : μ) (throttle writer : Nat) (hp : p.notices id = [])
    (h : Course id (create codec throttle writer) p ms b q) (hstart : ∃ c ∈ b.calls, c.startedWell = true)
    (hstop : ∃ c ∈ b.calls, c.stoppedWell = true) (hq : Quiet id now b q) :
    (b.readReleased = true ∧ b.writeReleased = true) ∧
    (∀ c ∈ b.calls, c.result? ≠ none) ∧
    (∀ u r ms₁ ms₂ command args kwargs, Course id (create codec throttle writer) p ms₁ u r →
      Course id (u.beginSend command args kwargs) r ms₂ b q →
      (∀ frame, u.status ≠ .stopped → Marshaler.encodeParts u.codec command args kwargs = .ok frame →
        b.calls[u.calls.length]? = some (.sent (.ok ())) ∨
          b.calls[u.calls.length]? = some (.sent (.error .connectionClosed))) ∧
      ((∃ c ∈ u.calls, c.halts = true) →
        b.calls[u.calls.length]? = some (.sent (.error .attendantStopped)))) ∧
    (.stopped id .requested ∈ q.notices id ∨ q.lifecycle.isFull = true ∨ q.lifecycle.closed = true) := by
  have hcreate : (create codec throttle writer).Staged := staged_create codec throttle writer
  have hstaged : b.Staged := staged_of_course h hcreate
  have hl := hstaged.launches_of_startedWell hstart
  have hh := hstaged.halts_of_stoppedWell hstop
  have hst : b.status = .stopped := Stage.stopped_of_halts hstaged (by simp [hh])
  have hreleased := released_of_launched hstaged hl hst hq
  have hresult : ∀ c ∈ b.calls, c.result? ≠ none :=
    fun c hc => result_of_quiet hl hh (closed_of_course h hreleased.2) hq hc
  refine ⟨hreleased, hresult, fun u r ms₁ ms₂ command args kwargs h₁ h₂ => ⟨fun frame hopen hencode => ?_, ?_⟩, ?_⟩
  · -- Encoded before the stop: the message is on its way to the queue, where no operation stays.
    have hbegun : (u.beginSend command args kwargs).calls[u.calls.length]? = some (.queueing frame) := by
      cases hs : u.status with
      | stopped => exact absurd hs hopen
      | _ => simp only [beginSend, hs, hencode, getElem?_record]
    obtain ⟨d, hd, hbecomes⟩ := becomes_of_course h₂ hbegun
    rcases hbecomes.of_queueing (hresult d (List.mem_of_getElem? hd)) with rfl | rfl
    · exact .inl hd
    · exact .inr hd
  · -- Sent after the stop: it is refused where it begins.
    rintro ⟨c, hc, hhalts⟩
    have hmem : c ∈ u.halts := List.mem_filter.2 ⟨hc, hhalts⟩
    have hs : u.status = .stopped :=
      Stage.stopped_of_halts (staged_of_course h₁ hcreate) (List.ne_nil_of_mem hmem)
    have hbegun : (u.beginSend command args kwargs).calls[u.calls.length]? =
        some (.sent (.error .attendantStopped)) := by
      simp only [beginSend, hs, getElem?_record]
    obtain ⟨d, hd, hbecomes⟩ := becomes_of_course h₂ hbegun
    obtain rfl := hbecomes.eq_of_result (by simp [Call.result?])
    exact hd
  · cases hfull : q.lifecycle.isFull with
    | true => exact .inr (.inl rfl)
    | false =>
      cases hclosed : q.lifecycle.closed with
      | true => exact .inr (.inr rfl)
      | false =>
          have hreader := reader_of_quiet hstaged hl hst hfull hq
          have hreported : b.Reported id q := reported_of_course h hcreate (reported_create _ _ _ _ hp)
          obtain ⟨e, hmem, hrequested⟩ := hreported.mem_stopped hl hreader hclosed
          obtain rfl : e = .requested := hrequested.2 (by simp [isHalted, hh])
          exact .inl hmem

/-- Channels with room for one message. -/
def narrowPorts : Ports :=
  ⟨{ capacity := 3 }, { capacity := 1 }, { capacity := 1 }⟩

/-- The consumer leaves the second message waiting, and the peer takes one byte of what is sent. -/
def untilStalled : List Move :=
  [.start, .advance 0, .advance 0, .advance 0, .read (.data [91, 34, 65, 34, 93, 10, 91, 34, 66, 34, 93, 10]),
    .proceed, .proceed, .proceed, .proceed, .proceed, .send "A" [] [], .advance 1, .writer .take, .writer .seal,
    .writer (.write (.took 1)), .send "B" [] [], .advance 2]

/-- A stop, and what goes on by itself then. -/
def untilReleased : List Move :=
  [.stop, .send "D" [] [], .advance 4, .quit, .proceed, .proceed, .proceed, .proceed, .writer .abandon, .advance 3]

theorem release_of_stalled :
    ∃ u r b q, after 0 0 (create (Codec.lines 80) 0 1) narrowPorts untilStalled = some (u, r) ∧
      r.messages.isFull = true ∧ u.outbox.queue.isFull = true ∧
      after 0 0 (u.beginSend "C" [] []) r untilReleased = some (b, q) ∧
      b.readReleased = true ∧ b.writeReleased = true ∧ (∀ c ∈ b.calls, c.result? ≠ none) ∧
      .stopped 0 .requested ∈ q.notices 0 := by
  obtain ⟨⟨u, r⟩, h₁, hstalled⟩ := (Option.any_eq_true (fun s : Attendant Codec × Ports =>
    s.2.messages.isFull && s.1.outbox.queue.isFull &&
      (after 0 0 (s.1.beginSend "C" [] []) s.2 untilReleased).any fun t =>
        t.1.calls.any Call.startedWell && t.1.calls.any Call.stoppedWell && !t.2.lifecycle.isFull &&
          !t.2.lifecycle.closed && t.1.ownMoves.all fun m => (t.1.step 0 0 t.2 m).isNone)
    (after 0 0 (create (Codec.lines 80) 0 1) narrowPorts untilStalled)).1 (by decide +kernel)
  simp only [Bool.and_eq_true, Option.any_eq_true, List.any_eq_true, Bool.not_eq_true', List.all_eq_true,
    Option.isNone_iff_eq_none] at hstalled
  obtain ⟨⟨hmessages, hqueue⟩, ⟨b, q⟩, h₂, ⟨⟨⟨hstart, hstop⟩, hroom⟩, hopen⟩, hquiet⟩ := hstalled
  have hsend : u.step 0 0 r (.send "C" [] []) = some (u.beginSend "C" [] [], r) := rfl
  have hcourse : Course 0 (create (Codec.lines 80) 0 1) narrowPorts
      (untilStalled ++ .send "C" [] [] :: untilReleased) b q :=
    (Course.of_after h₁).trans (.move hsend (Course.of_after h₂))
  obtain ⟨⟨hread, hwrite⟩, hresult, -, hreport⟩ :=
    release_of_stop (Codec.lines 80) 0 1 rfl hcourse hstart hstop (quiet_of_ownMoves hquiet)
  refine ⟨u, r, b, q, h₁, hmessages, hqueue, h₂, hread, hwrite, hresult, ?_⟩
  rcases hreport with hreport | hfull | hclosed
  · exact hreport
  · cases hroom.symm.trans hfull
  · cases hopen.symm.trans hclosed

end Attendant
end Courier
