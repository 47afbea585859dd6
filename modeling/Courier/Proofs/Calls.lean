import Courier.Proofs.Receiver

/-!
# Calls — receiving again and again

Whoever has a receiver may call it again whatever the last call came to.  The stream behind it comes in reads that
cut it anywhere, and among them are reads that find nothing or fail.

1. `Yields` says which stream a sequence of reads yields,
2. `Codec.answer` is what the calls on a whole stream come to, and `Codec.Gives` takes the first of them off,
3. `Receiver.answered` does so for polling, and `Receiver.received` for one call,
4. `Receiver.results_of_yields` follows all calls; `Receiver.frames_of_calls` and `Receiver.lines_of_calls` say what it
   comes to in either format.
-/

namespace Courier

/-! ## Reads -/

namespace ReadEvent

/-- What a read takes from the stream. -/
def bytes : ReadEvent → Bytes
  | .data bytes => bytes
  | _ => []

/-- Whether a read finds the end of the stream. -/
def isEnd : ReadEvent → Bool
  | .data bytes => bytes.isEmpty
  | .ended => true
  | _ => false

/-- How a read fails. -/
def failure? : ReadEvent → Option IoError
  | .failed e => some e
  | _ => none

end ReadEvent

/-- The reads yield a stream.  Behind its end there is nothing to read, which they may find or not. -/
inductive Yields : Bytes → List ReadEvent → Prop where
  | spent {events : List ReadEvent} (h : ∀ event ∈ events, event.bytes = []) : Yields [] events
  | read {S : Bytes} {event : ReadEvent} {events : List ReadEvent} (he : event.isEnd = false) (h : Yields S events) :
      Yields (event.bytes ++ S) (event :: events)

namespace Yields

variable {S : Bytes} {event : ReadEvent} {events : List ReadEvent}

theorem eq_nil (h : Yields S []) : S = [] := by
  cases h with
  | spent _ => rfl

/-- A read takes the front of the stream, and one that finds the end finds all of it used up. -/
theorem tail (h : Yields S (event :: events)) :
    ∃ T, S = event.bytes ++ T ∧ Yields T events ∧ (event.isEnd = true → S = []) := by
  cases h with
  | spent hall =>
      refine ⟨[], ?_, .spent fun e he => hall e (List.mem_cons_of_mem _ he), fun _ => rfl⟩
      rw [hall event (List.mem_cons_self ..)]
      rfl
  | @read T _ _ he h => exact ⟨T, rfl, h, fun hend => by simp [he] at hend⟩

/-- Reads that do not find the end yield what they take. -/
theorem of_reads (h : ∀ event ∈ events, event.isEnd = false) :
    Yields (events.flatMap ReadEvent.bytes) (events ++ [.ended]) := by
  induction events with
  | nil => exact .spent (by simp [ReadEvent.bytes])
  | cons event events ih =>
      rw [List.flatMap_cons, List.cons_append]
      exact .read (h event (List.mem_cons_self ..)) (ih fun e he => h e (List.mem_cons_of_mem _ he))

end Yields

/-! ## Answers -/

namespace Codec

/-- What the `k`-th of the calls on a whole stream comes to. -/
def answer : Codec → Bytes → Nat → Except Error Message
  | .lines maximum, S, k => Lines.answer maximum.toNat S k
  | .frames maximum, S, k => Frames.answer maximum S k

/-- The first call comes to a result, and the others to what they come to on another stream. -/
def Gives (c : Codec) (S : Bytes) (result : Except Error Message) (T : Bytes) : Prop :=
  c.answer S 0 = result ∧ ∀ k, c.answer S (k + 1) = c.answer T k

/-- The failure of a read that a receiver reports. -/
def failure? : Codec → ReadEvent → Option IoError
  | .lines _, event => event.failure?.filter fun e => e.kind != .interrupted
  | .frames _, event => event.failure?

/-- No read fails in such a way that part of the stream is lost. -/
def Spares : Codec → List ReadEvent → Prop
  | .lines maximum, events => ∀ event ∈ events, (Codec.lines maximum).failure? event = none
  | .frames _, _ => True

variable {maximum : UInt64} {S T : Bytes} {result : Except Error Message} {c : Codec} {event : ReadEvent}
  {events : List ReadEvent}

theorem gives_of_outcomes (h : Lines.outcomes maximum.toNat S = result :: Lines.outcomes maximum.toNat T) :
    (Codec.lines maximum).Gives S result T := by
  refine ⟨?_, fun k => ?_⟩
  · simp only [answer, Lines.answer, h, List.getElem?_cons_zero, Option.getD_some]
  · simp only [answer, Lines.answer, h, List.getElem?_cons_succ]

theorem answer_of_outcomes (h : Lines.outcomes maximum.toNat S = Lines.outcomes maximum.toNat T) :
    (Codec.lines maximum).answer S = (Codec.lines maximum).answer T := by
  funext k
  simp only [answer, Lines.answer, h]

theorem gives_of_constant {e : Error} (h : ∀ k, c.answer S k = .error e) : c.Gives S (.error e) S :=
  ⟨h 0, fun k => (h (k + 1)).trans (h k).symm⟩

/-- A stream of lines that is used up stays so. -/
theorem gives_of_nil (maximum : UInt64) : (Codec.lines maximum).Gives [] (.error .connectionClosed) [] := by
  refine gives_of_constant fun k => ?_
  simp only [answer, Lines.answer, Lines.outcomes_nil, List.getElem?_nil, Option.getD_none]

theorem Gives.of_answer {U : Bytes} (h : c.Gives T result U) (hs : c.answer S = c.answer T) : c.Gives S result U := by
  unfold Gives
  rw [hs]
  exact h

theorem Spares.tail (h : c.Spares (event :: events)) : c.Spares events := by
  cases c with
  | lines maximum => exact fun e he => h e (List.mem_cons_of_mem _ he)
  | frames maximum => trivial

end Codec

/-! ## Polling -/

namespace Receiver

variable {c : Codec} {r r' : Receiver} {bytes S : Bytes} {events : List ReadEvent} {event : ReadEvent}
  {result : Option (Except Error Message)}

/-- What polling comes to, said of the calls on whatever stream the bytes at hand are the front of. -/
inductive Answered (c : Codec) (bytes : Bytes) : Option (Except Error Message) → Receiver → Prop where
  | result {x : Except Error Message} {r : Receiver} (hf : r.Fits c)
      (hg : ∀ more, c.Gives (bytes ++ more) x (r.held ++ more)) : Answered c bytes (some x) r
  /-- The receiver says what the end of the stream would come to here. -/
  | waiting {r : Receiver} (hf : r.Fits c) (hs : ∀ more, c.answer (bytes ++ more) = c.answer (r.held ++ more))
      (he : r.atEnd.2.Fits c) (hg : c.Gives r.held (.error r.atEnd.1) r.atEnd.2.held) : Answered c bytes none r

/-- What stands in front and comes to nothing does not matter. -/
theorem Answered.skip {bytes' : Bytes} (hs : ∀ more, c.answer (bytes' ++ more) = c.answer (bytes ++ more))
    (h : Answered c bytes result r) : Answered c bytes' result r := by
  cases h with
  | result hf hg => exact .result hf fun more => (hg more).of_answer (hs more)
  | waiting hf hs' he hg => exact .waiting hf (fun more => (hs more).trans (hs' more)) he hg

theorem answered_of_scanned {l m : LineReceiver} (hm : (Codec.lines l.maximum).overflows = false)
    (h : l.Scanned bytes result m) : Answered (.lines l.maximum) bytes result (.lines m) := by
  induction h with
  | @waiting line hn hl =>
      refine .waiting (fits_unfinished hm hn hl) (by simp [held_unfinished]) (fits_between hm []) ?_
      rw [held_unfinished]
      cases line with
      | nil => exact Codec.gives_of_nil l.maximum
      | cons b line =>
          -- the end of the stream makes a piece of the unfinished line, and the receiver forgets it
          refine Codec.gives_of_outcomes ((Lines.outcomes_cut hn hl (by simp)).trans ?_)
          exact congrArg (_ :: ·) (Lines.outcomes_nil _).symm
  | @overrun line rest hn hl =>
      refine .result (fits_between hm rest) fun more => Codec.gives_of_outcomes ?_
      rw [List.append_assoc]
      exact Lines.outcomes_long hn hl (rest ++ more)
  | @blank line rest result m hn hl hb _ ih =>
      refine ih.skip fun more => Codec.answer_of_outcomes ?_
      rw [List.append_assoc, List.cons_append, Lines.outcomes_newline hn hl, if_pos hb]
      rfl
  | @finished line rest hn hl hb =>
      refine .result (fits_between hm rest) fun more => Codec.gives_of_outcomes ?_
      rw [List.append_assoc, List.cons_append, Lines.outcomes_newline hn hl, if_neg (by simp [hb])]
      rfl

theorem answered_frames (r : FrameReceiver) (h : r.buffer.Regular) :
    Answered (.frames r.buffer.maximum) (Receiver.frames r).held r.poll.1 (.frames r.poll.2) := by
  -- what is held is kept behind any header that has been read, so the outcomes are told by what they hold
  have hextracted := FrameBuffer.extracted h
  unfold FrameReceiver.poll
  generalize r.buffer.extract = extract at hextracted
  change Answered _ r.buffer.held _ _
  cases hextracted with
  | @taken payload c hw hl hheld hc hm =>
      refine .result (hm ▸ .frames (r := ⟨c⟩) (FrameBuffer.regular_of_awaited_none hc)) fun more => ?_
      rw [hheld, List.append_assoc]
      change Codec.Gives _ _ _ (c.held ++ more)
      rw [FrameBuffer.held_of_awaited_none hc]
      exact Frames.answer_frame hw hl (c.bytes ++ more)
  | @short c hs hheld hc hm =>
      have hfits : (Receiver.frames ⟨c⟩).Fits (.frames r.buffer.maximum) := hm ▸ .frames (r := ⟨c⟩) hc
      refine .waiting hfits (fun more => ?_) hfits ?_
      · change Codec.answer _ (r.buffer.held ++ more) = Codec.answer _ (c.held ++ more)
        rw [hheld]
      · simp only [atEnd, FrameReceiver.atEnd_eq, Prod.map]
        change Codec.Gives _ c.held _ c.held
        rw [hheld]
        exact Codec.gives_of_constant (Frames.answer_partial hs)
  | @refused size rest hw hl hheld =>
      -- the header stays where it is, so that every further call meets it again
      refine .result (.frames (r := r) h) fun more => ?_
      change Codec.Gives _ (r.buffer.held ++ more) _ (r.buffer.held ++ more)
      rw [hheld, List.append_assoc]
      exact Codec.gives_of_constant (Frames.answer_large hw hl (rest ++ more))

/-- Polling comes to what the calls on the stream come to. -/
theorem answered (hf : r.Fits c) : Answered c r.held r.poll.1 r.poll.2 := by
  cases hf with
  | lines hm hn hc hl => exact answered_of_scanned hm (LineReceiver.scanned_poll hm hn hc hl)
  | @frames r ha => exact answered_frames r ha

/-! ## One call -/

/-- What a receiver that waits for the stream makes of a read. -/
inductive Absorbed (c : Codec) (r : Receiver) (event : ReadEvent) : Option Error × Receiver → Prop where
  | ended (hend : event.isEnd = true) (he : c.failure? event = none) : Absorbed c r event (some r.atEnd.1, r.atEnd.2)
  | failed {e : IoError} (hb : event.bytes = []) (he : c.failure? event = some e) :
      Absorbed c r event (some (.io e), r)
  | fed {r' : Receiver} (hf : r'.Fits c) (hh : r'.held = r.held ++ event.bytes) (he : c.failure? event = none) :
      Absorbed c r event (none, r')

theorem absorbed (hf : r.Fits c) (hs : c.Spares (event :: events)) : Absorbed c r event (r.absorb event) := by
  cases event with
  | data bytes =>
      cases bytes with
      | nil => exact .ended rfl (by cases c <;> rfl)
      | cons b bytes => exact .fed (hf.feed _) (held_feed _ _) (by cases c <;> rfl)
  | notReady => exact .fed hf (by simp [ReadEvent.bytes]) (by cases c <;> rfl)
  | ended => exact .ended rfl (by cases c <;> rfl)
  | failed e =>
      cases hf with
      | frames ha => exact .failed rfl rfl
      | @lines l hm hn hc hl =>
          -- only an interruption is left among the failures, and a line is read on after it
          have hspared := hs (.failed e) (List.mem_cons_self ..)
          have hkind : e.kind = .interrupted := by
            simpa [Codec.failure?, ReadEvent.failure?, Option.filter] using hspared
          have habsorb : (Receiver.lines l).absorb (.failed e) = (none, .lines l) := by
            simp [absorb, fail, hkind]
          rw [habsorb]
          exact .fed (.lines hm hn hc hl) (by simp [ReadEvent.bytes]) hspared

/-- What one call on a stream comes to: the first of the answers, or the failure of a read, which takes nothing away
from the answers. -/
inductive Received (c : Codec) (r : Receiver) (S : Bytes) (events : List ReadEvent) :
    Except Error Message × Receiver × List ReadEvent → Prop where
  | answered {x : Except Error Message} {r' : Receiver} {T : Bytes} {rest : List ReadEvent} (hf : r'.Fits c)
      (hy : Yields T rest) (hs : c.Spares rest) (hg : c.Gives (r.held ++ S) x (r'.held ++ T))
      (he : events.filterMap c.failure? = rest.filterMap c.failure?) : Received c r S events (x, r', rest)
  | failed {e : IoError} {r' : Receiver} {T : Bytes} {rest : List ReadEvent} (hf : r'.Fits c)
      (hy : Yields T rest) (hs : c.Spares rest) (ha : c.answer (r.held ++ S) = c.answer (r'.held ++ T))
      (he : events.filterMap c.failure? = e :: rest.filterMap c.failure?) :
      Received c r S events (.error (.io e), r', rest)

/-- A read that is passed over does not matter to the call. -/
theorem Received.skip {T : Bytes} {out : Except Error Message × Receiver × List ReadEvent}
    (hs : c.answer (r.held ++ S) = c.answer (r'.held ++ T)) (he : c.failure? event = none)
    (h : Received c r' T events out) : Received c r S (event :: events) out := by
  cases h with
  | answered hf hy hs' hg he' =>
      exact .answered hf hy hs' (hg.of_answer hs) (by rw [List.filterMap_cons_none he]; exact he')
  | failed hf hy hs' ha he' =>
      exact .failed hf hy hs' (hs.trans ha) (by rw [List.filterMap_cons_none he]; exact he')

/-- The induction is on the reads: a call goes on for as long as polling waits and a read feeds it. -/
theorem received (hf : r.Fits c) (hy : Yields S events) (hs : c.Spares events) :
    Received c r S events (r.receive events) := by
  induction events generalizing r S with
  | nil =>
      obtain rfl := hy.eq_nil
      have hanswered := answered hf
      unfold receive
      generalize r.poll = poll at hanswered
      obtain ⟨result, r'⟩ := poll
      cases hanswered with
      | result hf' hg => exact .answered hf' hy hs (hg []) rfl
      | waiting _ hsame hf' hg =>
          change Received _ _ _ _ (.error r'.atEnd.1, r'.atEnd.2, [])
          refine .answered hf' hy hs (Codec.Gives.of_answer ?_ (hsame [])) rfl
          simpa only [List.append_nil] using hg
  | cons event events ih =>
      obtain ⟨T, rfl, hy', hend⟩ := hy.tail
      have hanswered := answered hf
      unfold receive
      generalize r.poll = poll at hanswered
      obtain ⟨result, r'⟩ := poll
      cases hanswered with
      | result hf' hg => exact .answered hf' hy hs (hg _) rfl
      | waiting hf' hsame hfend hg =>
          have habsorbed := absorbed hf' hs
          dsimp only
          generalize r'.absorb event = absorb at habsorbed
          cases habsorbed with
          | ended he hnone =>
              -- the stream is used up, so that what is held is all there is
              refine .answered hfend hy' hs.tail ?_ (List.filterMap_cons_none hnone)
              obtain ⟨hb, rfl⟩ := List.append_eq_nil_iff.1 (hend he)
              rw [hb]
              refine Codec.Gives.of_answer ?_ (hsame [])
              simpa only [List.append_nil] using hg
          | failed hb he =>
              refine .failed hf' hy' hs.tail ?_ (List.filterMap_cons_some he)
              rw [hb]
              exact hsame T
          | @fed r'' hf'' hh hnone =>
              refine (ih hf'' hy' hs.tail).skip ?_ hnone
              rw [hsame, hh, List.append_assoc]

/-! ## All calls -/

/-- What given calls come to, each going on where the last one left off. -/
def results : Nat → Receiver → List ReadEvent → List (Except Error Message)
  | 0, _, _ => []
  | n + 1, r, events =>
    let (result, r, events) := r.receive events
    result :: results n r events

/-- The failure of a read that a call has come to. -/
def readError? : Except Error Message → Option IoError
  | .error (.io e) => some e
  | _ => none

theorem readError?_json (result : Except Json.Fault Message) : readError? (result.mapError .json) = none := by
  cases result <;> rfl

theorem readError?_pack (result : Except MsgPack.Fault Message) : readError? (result.mapError .pack) = none := by
  cases result <;> rfl

theorem readError?_outcome {maximum : Nat} {piece : Bytes} {x : Except Error Message}
    (h : Lines.outcome maximum piece = some x) : readError? x = none := by
  unfold Lines.outcome at h
  split at h
  · split at h
    · simp at h
    · obtain rfl := Option.some.inj h
      exact readError?_json _
  · split at h
    · obtain rfl := Option.some.inj h
      rfl
    · obtain rfl := Option.some.inj h
      rfl

theorem readError?_ending (maximum : Nat) (rest : Bytes) : readError? (.error (Frames.ending maximum rest)) = none := by
  unfold Frames.ending
  dsimp only
  split
  · rfl
  · split <;> rfl

/-- No answer is the failure of a read. -/
theorem readError?_answer (c : Codec) (S : Bytes) (k : Nat) : readError? (c.answer S k) = none := by
  cases c with
  | lines maximum =>
      change readError? (Lines.answer maximum.toNat S k) = none
      unfold Lines.answer
      cases hx : (Lines.outcomes maximum.toNat S)[k]? with
      | none => rfl
      | some x =>
          obtain ⟨piece, -, hpiece⟩ := List.mem_filterMap.1 (List.mem_of_getElem? hx)
          exact readError?_outcome hpiece
  | frames maximum =>
      change readError? (Frames.answer maximum S k) = none
      unfold Frames.answer
      split
      · exact readError?_pack _
      · exact readError?_ending _ _

/-- Among the results of all calls, the failures of reads set aside, stand the answers in their order. -/
theorem results_of_yields (hf : r.Fits c) (hy : Yields S events) (hs : c.Spares events) (n : Nat) :
    ∃ k, (r.results n events).filter (fun x => (readError? x).isNone) = (List.range k).map (c.answer (r.held ++ S)) ∧
      (r.results n events).filterMap readError? <+: events.filterMap c.failure? ∧
      k + ((r.results n events).filterMap readError?).length = n := by
  induction n generalizing r S events with
  | zero => exact ⟨0, rfl, List.nil_prefix, rfl⟩
  | succ n ih =>
      have hreceived := received hf hy hs
      unfold results
      generalize r.receive events = received at hreceived
      cases hreceived with
      | @answered x r' T rest hf' hy' hs' hg he =>
          -- the answers of what is left are those of the whole stream, one call later
          obtain ⟨k, hanswers, hfailures, hcount⟩ := ih hf' hy' hs'
          have hx : readError? x = none := by
            rw [← hg.1]
            exact readError?_answer c _ 0
          refine ⟨k + 1, ?_, ?_, ?_⟩
          · rw [List.filter_cons_of_pos (by simp [hx]), hanswers, List.range_succ_eq_map, List.map_cons, hg.1,
              List.map_map]
            exact congrArg (x :: ·) (List.map_congr_left fun k _ => (hg.2 k).symm)
          · rw [List.filterMap_cons_none hx, he]
            exact hfailures
          · rw [List.filterMap_cons_none hx]
            omega
      | @failed e r' T rest hf' hy' hs' ha he =>
          -- nothing of the stream is lost, and no answer has been given
          obtain ⟨k, hanswers, hfailures, hcount⟩ := ih hf' hy' hs'
          have hx : readError? (.error (.io e)) = some e := rfl
          refine ⟨k, ?_, ?_, ?_⟩
          · rw [List.filter_cons_of_neg (by simp [readError?]), hanswers, ha]
          · rw [List.filterMap_cons_some hx, he]
            exact (List.cons_prefix_cons).2 ⟨rfl, hfailures⟩
          · rw [List.filterMap_cons_some hx, List.length_cons]
            omega

/-- Where no call reports a failed read, the results are the answers. -/
theorem results_of_unfailed (hf : r.Fits c) (hy : Yields S events) (hnone : ∀ event ∈ events, c.failure? event = none)
    (n : Nat) : r.results n events = (List.range n).map (c.answer (r.held ++ S)) := by
  have hspares : c.Spares events := by
    cases c with
    | lines maximum => exact hnone
    | frames maximum => trivial
  obtain ⟨k, hanswers, hfailures, hcount⟩ := results_of_yields hf hy hspares n
  rw [List.filterMap_eq_nil_iff.2 hnone, List.prefix_nil] at hfailures
  rw [hfailures, List.length_nil, Nat.add_zero] at hcount
  subst hcount
  -- nothing is set aside
  rw [List.filter_eq_self.2] at hanswers
  · exact hanswers
  · intro x hx
    rw [List.filterMap_eq_nil_iff.1 hfailures x hx]
    rfl

/-- Of a stream of frames, however it is cut into reads and whatever reads find nothing or fail, every call comes to
what the stream alone says, apart from calls that report a failed read, one for each of them in their order.

The payloads are cut off at their lengths, and each call comes to the decoding of the next one by itself.  Behind
the last payload, every call comes to the same error. -/
theorem frames_of_calls (maximum n : Nat) (h : Yields S events) :
    (∃ k, ((start (.frames maximum)).results n events).filter (fun x => (readError? x).isNone) =
        (List.range k).map (Frames.answer maximum S) ∧
      ((start (.frames maximum)).results n events).filterMap readError? <+: events.filterMap ReadEvent.failure? ∧
      k + (((start (.frames maximum)).results n events).filterMap readError?).length = n) ∧
    ((Frames.parse maximum S).1.flatMap fun payload => Bytes.bigEndian headerSize payload.length ++ payload) ++
        (Frames.parse maximum S).2 = S ∧
    ∀ payload ∈ (Frames.parse maximum S).1, payload.length ≤ maximum := by
  refine ⟨?_, Frames.append_parse maximum S⟩
  have hresults := results_of_yields (fits_start (c := .frames maximum) rfl) h trivial n
  rwa [held_start, List.nil_append] at hresults

/-- A message, a payload that is none, and a length above the maximum; reads fail in the middle of frames. -/
def splitFrames : List ReadEvent :=
  [.data [0, 0], .notReady, .failed .resetByPeer, .data [0, 3, 145, 161], .data [65, 0, 0, 0, 1, 192, 0], .notReady,
    .failed .resetByPeer, .data [0, 0, 9]]

theorem frames_of_split_frames :
    ∃ k, 4 ≤ k ∧ ((start (.frames 3)).results 6 (splitFrames ++ [.ended])).filter (fun x => (readError? x).isNone) =
        (List.range k).map (Frames.answer 3 [0, 0, 0, 3, 145, 161, 65, 0, 0, 0, 1, 192, 0, 0, 0, 9]) := by
  have hyields : Yields (splitFrames.flatMap ReadEvent.bytes) (splitFrames ++ [.ended]) :=
    .of_reads (by simp [splitFrames, ReadEvent.isEnd])
  obtain ⟨k, hanswers, hfailures, hcount⟩ := (frames_of_calls 3 6 hyields).1
  have htwo : ((splitFrames ++ [ReadEvent.ended]).filterMap ReadEvent.failure?).length = 2 := rfl
  have hle := hfailures.length_le
  exact ⟨k, by omega, hanswers⟩

/-- Of a stream of lines, however it is cut into reads and whatever reads find nothing, every call comes to what the
stream alone says.  A line that is as long as the maximum is decoded, and one that is longer is not. -/
theorem lines_of_calls (maximum : UInt64) (hm : maximum.toNat < 2 ^ 64 - 1) (n : Nat) (h : Yields S events)
    (hi : ∀ e, .failed e ∈ events → e.kind = .interrupted) :
    (start (.lines maximum)).results n events = (List.range n).map (Lines.answer maximum.toNat S) ∧
    (∀ line rest, S = line ++ 10 :: rest → 10 ∉ line → line.length ≤ maximum.toNat →
      line.all LineReceiver.isBlank = false →
      Lines.answer maximum.toNat S 0 = (Json.readMessage (LineReceiver.content line.reverse)).mapError .json) ∧
    (∀ line rest, S = line ++ rest → 10 ∉ line → line.length = maximum.toNat + 1 →
      Lines.answer maximum.toNat S 0 = .error (.protocol (.lineTooLong maximum.toNat))) := by
  refine ⟨?_, ?_, ?_⟩
  · have hfits : (start (.lines maximum)).Fits (.lines maximum) := fits_start (Codec.not_overflows_of_lt hm)
    have hspares : (Codec.lines maximum).Spares events := by
      intro event hmem
      cases event with
      | failed e => simp [Codec.failure?, ReadEvent.failure?, Option.filter, hi e hmem]
      | _ => rfl
    have hnone : events.filterMap (Codec.lines maximum).failure? = [] := List.filterMap_eq_nil_iff.2 hspares
    obtain ⟨k, hanswers, hfailures, hcount⟩ := results_of_yields hfits h hspares n
    -- no call reports a failed read, so that nothing is set aside
    rw [hnone, List.prefix_nil] at hfailures
    rw [hfailures, List.length_nil, Nat.add_zero] at hcount
    subst hcount
    rw [held_start, List.nil_append, List.filter_eq_self.2] at hanswers
    · exact hanswers
    · intro x hx
      rw [List.filterMap_eq_nil_iff.1 hfailures x hx]
      rfl
  · rintro line rest rfl hn hl hb
    have houtcomes := Lines.outcomes_newline hn hl rest
    rw [Lines.all_isBlank_content, List.all_reverse, hb] at houtcomes
    exact (Codec.gives_of_outcomes houtcomes).1
  · rintro line rest rfl hn hl
    exact (Codec.gives_of_outcomes (Lines.outcomes_long hn hl rest)).1

/-- A blank line, a line as long as the maximum, one that is longer by a byte, and one that the end of the stream cuts
off. -/
def splitLines : List ReadEvent :=
  [.data [13, 10, 91], .notReady, .data [34, 65, 34], .data [93, 10, 91, 34, 65, 66, 34, 93, 10], .notReady, .data [91]]

theorem lines_of_split_lines :
    (start (.lines 5)).results 5 (splitLines ++ [.ended]) =
        (List.range 5).map (Lines.answer 5 [13, 10, 91, 34, 65, 34, 93, 10, 91, 34, 65, 66, 34, 93, 10, 91]) := by
  have hyields : Yields (splitLines.flatMap ReadEvent.bytes) (splitLines ++ [.ended]) :=
    .of_reads (by simp [splitLines, ReadEvent.isEnd])
  exact (lines_of_calls 5 (by decide) 5 hyields (by simp [splitLines])).1

end Receiver
end Courier
