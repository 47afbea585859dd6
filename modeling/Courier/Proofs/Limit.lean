import Courier.Proofs.Letters

/-!
# Limit — line limits over the whole range of a word

The largest line, its newline counted, is computed in 64-bit words.  Whether a line has used its room up, or the stream
has ended, is told by how many bytes there are of a line.

1. `Lines.outcomes_ended` — what a stream of whole lines comes to,
2. `Receiver.spent_of_closed` and `Receiver.spent_of_results` — the end of a stream is reported where nothing of the
   stream is left, in either format,
3. `Receiver.lines_of_limit` puts them together, for every maximum.
-/

namespace Courier

/-! ## Streams of whole lines -/

namespace Lines

variable {maximum : Nat} {lines : List Bytes}

/-- A stream of lines, each with its newline. -/
def ended (lines : List Bytes) : Bytes :=
  lines.flatMap (· ++ [10])

/-- What a line comes to by itself. -/
def decode (line : Bytes) : Except Error Message :=
  (Json.readMessage (LineReceiver.content line.reverse)).mapError .json

/-- What the lines come to that are not blank. -/
def decodeAll (lines : List Bytes) : List (Except Error Message) :=
  (lines.filter fun line => !line.all LineReceiver.isBlank).map decode

theorem ended_cons (line : Bytes) (lines : List Bytes) : ended (line :: lines) = line ++ 10 :: ended lines := by
  simp [ended]

/-- A line that is read is blamed for its text only. -/
theorem decode_cases (line : Bytes) : (∃ m, decode line = .ok m) ∨ ∃ f, decode line = .error (.json f) := by
  unfold decode
  cases Json.readMessage (LineReceiver.content line.reverse) with
  | ok m => exact .inl ⟨m, rfl⟩
  | error f => exact .inr ⟨f, rfl⟩

/-- The stream comes to its lines one by one. -/
theorem outcomes_ended (h : ∀ line ∈ lines, 10 ∉ line ∧ line.length ≤ maximum) :
    outcomes maximum (ended lines) = decodeAll lines := by
  induction lines with
  | nil => exact outcomes_nil maximum
  | cons line lines ih =>
      obtain ⟨hn, hl⟩ := h line (List.mem_cons_self ..)
      rw [ended_cons, outcomes_newline hn hl, ih fun line hline => h line (List.mem_cons_of_mem _ hline),
        all_isBlank_content, List.all_reverse]
      unfold decodeAll
      cases hblank : line.all LineReceiver.isBlank with
      | true => rw [if_pos rfl, List.filter_cons_of_neg (by simp [hblank]), List.nil_append]
      | false =>
          rw [if_neg Bool.false_ne_true, List.filter_cons_of_pos (by simp [hblank]), List.map_cons,
            List.singleton_append]
          rfl

/-- The calls on it come to its lines, and from then on to its end. -/
theorem answers_ended {maximum : UInt64} (h : ∀ line ∈ lines, 10 ∉ line ∧ line.length ≤ maximum.toNat) (n : Nat) :
    (List.range ((decodeAll lines).length + n)).map ((Codec.lines maximum).answer (ended lines)) =
      decodeAll lines ++ List.replicate n (.error .connectionClosed) := by
  have hanswer : (Codec.lines maximum).answer (ended lines) =
      fun k => (decodeAll lines)[k]?.getD (.error .connectionClosed) := by
    funext k
    rw [← outcomes_ended h]
    rfl
  refine List.ext_getElem? fun k => ?_
  rw [hanswer, List.getElem?_map, List.getElem?_append, List.getElem?_replicate]
  by_cases hk : k < (decodeAll lines).length + n
  · rw [List.getElem?_range hk, Option.map_some]
    by_cases hk' : k < (decodeAll lines).length
    · rw [if_pos hk', List.getElem?_eq_getElem hk', Option.getD_some]
    · rw [if_neg hk', if_pos (by omega), List.getElem?_eq_none (by omega), Option.getD_none]
  · rw [if_neg (by omega), if_neg (by omega), List.getElem?_eq_none (by simpa using hk), Option.map_none]

end Lines

/-! ## Where the end is reported -/

/-- The reads yield exactly what they take. -/
theorem Yields.eq_flatMap {S : Bytes} {events : List ReadEvent} (h : Yields S events) :
    S = events.flatMap ReadEvent.bytes := by
  induction h with
  | spent hall => exact (List.flatMap_eq_nil_iff.2 hall).symm
  | read _ _ ih => rw [List.flatMap_cons, ← ih]

namespace Receiver

variable {c : Codec} {r r' : Receiver} {S : Bytes} {events : List ReadEvent}

/-- Nothing of the stream is left, neither at hand nor to be read. -/
def Spent (r : Receiver) (events : List ReadEvent) : Prop :=
  r.held = [] ∧ events.flatMap ReadEvent.bytes = []

theorem held_atEnd (h : r.held = []) : r.atEnd.2.held = [] := by
  cases r with
  | lines l =>
      obtain ⟨-, hbuffered⟩ := List.append_eq_nil_iff.1 h
      simp [atEnd, LineReceiver.atEnd, LineReceiver.between, held, hbuffered]
  | frames r =>
      rw [atEnd, FrameReceiver.atEnd_eq]
      exact h

/-- A receiver that waits and takes the stream for ended holds nothing. -/
theorem Starved.spent (h : r.Starved c) (he : r.atEnd.1 = .connectionClosed) : r.atEnd.2.held = [] := by
  rcases h with ⟨hheld, -⟩ | hfault
  · exact held_atEnd hheld
  · have hgraceful := hfault.isGraceful
    rw [he] at hgraceful
    cases hgraceful

/-- What polling comes to of itself is not the end of the stream. -/
theorem Polled.ne_closed {bytes : Bytes} (h : Polled c bytes (some (.error .connectionClosed)) r) : False := by
  cases h with
  | refused _ _ _ hy => cases (hy []).isGraceful

/-- A call that reports the end of the stream leaves nothing of it behind.  The induction is on the reads, as a call
goes on for as long as polling waits and a read feeds it. -/
theorem spent_of_closed (hf : r.Fits c) (hy : Yields S events) (hs : c.Spares events)
    (h : (r.receive events).1 = .error .connectionClosed) : (r.receive events).2.1.Spent (r.receive events).2.2 := by
  induction events generalizing r S with
  | nil =>
      have hpolled := polled hf
      unfold receive at h ⊢
      generalize r.poll = poll at hpolled h ⊢
      obtain ⟨result, r'⟩ := poll
      cases result with
      | some result =>
          obtain rfl : result = .error .connectionClosed := h
          exact hpolled.ne_closed.elim
      | none =>
          cases hpolled with
          | starved _ _ _ hstarved => exact ⟨hstarved.spent (Except.error.inj h), rfl⟩
  | cons event events ih =>
      have hpolled := polled hf
      obtain ⟨T, rfl, hy', hend⟩ := hy.tail
      unfold receive at h ⊢
      generalize r.poll = poll at hpolled h ⊢
      obtain ⟨result, r'⟩ := poll
      cases result with
      | some result =>
          obtain rfl : result = .error .connectionClosed := h
          exact hpolled.ne_closed.elim
      | none =>
          cases hpolled with
          | starved _ _ hf' hstarved =>
              have habsorbed := absorbed hf' hs
              dsimp only at h ⊢
              generalize r'.absorb event = absorb at habsorbed h ⊢
              cases habsorbed with
              | ended he _ =>
                  -- a read that finds the end finds all of the stream used up
                  refine ⟨hstarved.spent (Except.error.inj h), ?_⟩
                  rw [← hy'.eq_flatMap]
                  exact (List.append_eq_nil_iff.1 (hend he)).2
              | failed _ _ => cases h
              | fed hf'' _ _ => exact ih hf'' hy' hs.tail h

/-- The receiver after given calls, with the reads that it has not come to. -/
def afterCalls : Nat → Receiver → List ReadEvent → Receiver × List ReadEvent
  | 0, r, events => (r, events)
  | n + 1, r, events =>
    let (_, r, events) := r.receive events
    afterCalls n r events

/-- Whichever call reports the end of the stream, nothing is left then. -/
theorem spent_of_results (hf : r.Fits c) (hy : Yields S events) (hs : c.Spares events) (k : Nat)
    (h : (r.results (k + 1) events)[k]? = some (.error .connectionClosed)) :
    (r.afterCalls (k + 1) events).1.Spent (r.afterCalls (k + 1) events).2 := by
  induction k generalizing r S events with
  | zero =>
      rw [results, List.getElem?_cons_zero, Option.some.injEq] at h
      exact spent_of_closed hf hy hs h
  | succ k ih =>
      rw [results, List.getElem?_cons_succ] at h
      rw [afterCalls]
      have hreceived := received hf hy hs
      generalize r.receive events = received at hreceived h ⊢
      cases hreceived with
      | answered hf' hy' hs' _ _ => exact ih hf' hy' hs' h
      | failed hf' hy' hs' _ _ => exact ih hf' hy' hs' h

/-! ## Every maximum -/

/-- Of whole lines that are not longer than the maximum, however they are cut into reads:

- with every maximum but the largest, the calls come to the lines that are not blank, in their order, and from then
  on to the end of the stream; no line is too long, and the end is reported only where nothing of the stream is
  left,
- with the largest maximum, whose line limit does not fit a 64-bit word, every call comes to the end of the stream. -/
theorem lines_of_limit (maximum : UInt64) (lines : List Bytes)
    (hl : ∀ line ∈ lines, 10 ∉ line ∧ line.length ≤ maximum.toNat) (hy : Yields (Lines.ended lines) events)
    (hi : ∀ e, .failed e ∈ events → e.kind = .interrupted) :
    (maximum.toNat < 2 ^ 64 - 1 →
      (∀ n, (start (.lines maximum)).results ((Lines.decodeAll lines).length + n) events =
        Lines.decodeAll lines ++ List.replicate n (.error .connectionClosed)) ∧
      (∀ n, .error (.protocol (.lineTooLong maximum.toNat)) ∉ (start (.lines maximum)).results n events) ∧
      (∀ line ∈ lines, Lines.decode line ≠ .error .connectionClosed) ∧
      ∀ k, ((start (.lines maximum)).results (k + 1) events)[k]? = some (.error .connectionClosed) →
        ((start (.lines maximum)).afterCalls (k + 1) events).1.Spent
          ((start (.lines maximum)).afterCalls (k + 1) events).2) ∧
    (¬ maximum.toNat < 2 ^ 64 - 1 →
      ∀ n, (start (.lines maximum)).results n events = List.replicate n (.error .connectionClosed)) := by
  constructor
  · intro hm
    have hfits : (start (.lines maximum)).Fits (.lines maximum) := fits_start (Codec.not_overflows_of_lt hm)
    have hnone : ∀ event ∈ events, (Codec.lines maximum).failure? event = none := Codec.unfailed_lines hi
    have hanswers := results_of_unfailed hfits hy hnone
    simp only [held_start, List.nil_append] at hanswers
    refine ⟨fun n => ?_, fun n hmem => ?_, fun line _ => ?_, fun k => spent_of_results hfits hy hnone k⟩
    · rw [hanswers]
      exact Lines.answers_ended hl n
    · -- all results are among those of enough calls, where the lines and the end are all there is
      rw [hanswers] at hmem
      have hmore : (List.range n).map ((Codec.lines maximum).answer (Lines.ended lines)) ⊆
          (List.range ((Lines.decodeAll lines).length + n)).map ((Codec.lines maximum).answer (Lines.ended lines)) :=
        List.map_subset _ (List.range_subset.2 (Nat.le_add_left _ _))
      have hall := hmore hmem
      rw [Lines.answers_ended hl n, List.mem_append] at hall
      rcases hall with hline | hclosed
      · obtain ⟨line, -, hline⟩ := List.mem_map.1 hline
        rcases Lines.decode_cases line with ⟨m, hdecode⟩ | ⟨f, hdecode⟩
        · cases hdecode.symm.trans hline
        · cases hdecode.symm.trans hline
      · cases (List.mem_replicate.1 hclosed).2
    · rcases Lines.decode_cases line with ⟨m, hdecode⟩ | ⟨f, hdecode⟩
      · simp [hdecode]
      · simp [hdecode]
  · intro hm n
    exact results_of_stunned (account_of_overflows (Codec.overflows_of_not_lt hm)).start n events

/-- A blank line, a message as long as the maximum, a line that is no message, and another message. -/
def exactLines : List Bytes :=
  [[32, 13], [91, 34, 65, 34, 93], [120], [91, 34, 66, 34, 93]]

theorem lines_of_exact_limit :
    (start (.lines 5)).results 4 (Letter.trickle (Lines.ended exactLines)) =
        Lines.decodeAll exactLines ++ [.error .connectionClosed] ∧
      ((start (.lines 5)).afterCalls 4 (Letter.trickle (Lines.ended exactLines))).1.Spent
        ((start (.lines 5)).afterCalls 4 (Letter.trickle (Lines.ended exactLines))).2 := by
  have hl : ∀ line ∈ exactLines, 10 ∉ line ∧ line.length ≤ UInt64.toNat 5 := by decide
  have hlength : (Lines.decodeAll exactLines).length = 3 := rfl
  obtain ⟨hresults, -, -, hspent⟩ :=
    (lines_of_limit 5 exactLines hl (Letter.yields_trickle _) (by simp [Letter.trickle])).1 (by decide)
  have hfour := hresults 1
  rw [hlength] at hfour
  exact ⟨hfour, hspent 3 (by rw [hfour]; rfl)⟩

/-- With the largest maximum the end of the stream is reported in front of a line that fits. -/
theorem closed_of_largest_maximum :
    (∀ line ∈ [([91, 34, 65, 34, 93] : Bytes)], 10 ∉ line ∧ line.length ≤ UInt64.toNat 18446744073709551615) ∧
    Lines.decodeAll [[91, 34, 65, 34, 93]] = [.ok ⟨"A", [], []⟩] ∧
    (start (.lines 18446744073709551615)).results 1 [.data (Lines.ended [[91, 34, 65, 34, 93]]), .ended] =
      [.error .connectionClosed] :=
  ⟨by decide, rfl, rfl⟩

end Receiver
end Courier
