import Courier.Proofs.Calls
import Courier.Proofs.Encoding

/-!
# Letters — whole sequences of messages

Messages are encoded one after the other, and what comes out is received as one stream, however it is cut.

1. `Codec.answers_of_carries` is what the calls on a stream of accepted units come to,
2. `Letter` is a message with an order of its named arguments, since an encoder comes upon them in any order,
3. `Letter.messages_of_frames` and `Letter.messages_of_lines` go from letters to the results of all calls.
-/

namespace Courier

/-! ## Streams of units -/

namespace Codec

variable {c : Codec} {u S : Bytes} {m : Message} {ms : List Message}

/-- The first call on a stream takes the message of the unit in front. -/
theorem gives_of_unit (h : c.Unit u (some m)) (S : Bytes) : c.Gives (u ++ S) (.ok m) S := by
  cases h with
  | line hn hl hb hm =>
      refine gives_of_outcomes ?_
      rw [List.append_assoc, List.singleton_append, Lines.outcomes_newline hn hl, hb, hm]
      rfl
  | frame hw hl hm =>
      have hframe := Frames.answer_frame hw hl S
      rw [hm] at hframe
      exact hframe

/-- A unit without a message is passed over. -/
theorem answer_of_blank (h : c.Unit u none) (S : Bytes) : c.answer (u ++ S) = c.answer S := by
  cases h with
  | blankLine hn hl hb =>
      refine answer_of_outcomes ?_
      rw [List.append_assoc, List.singleton_append, Lines.outcomes_newline hn hl, if_pos hb, List.nil_append]

theorem answer_nil (c : Codec) (k : Nat) : c.answer [] k = .error .connectionClosed := by
  cases c with
  | lines maximum => simp only [answer, Lines.answer, Lines.outcomes_nil, List.getElem?_nil, Option.getD_none]
  | frames maximum => exact Frames.answer_partial (.header (by simp [headerSize])) k

/-- The calls on a stream of units come to the messages in it, and from then on to its end. -/
theorem answers_of_carries (h : c.Carries S ms) (n : Nat) :
    (List.range (ms.length + n)).map (c.answer S) =
      ms.map .ok ++ List.replicate n (.error .connectionClosed) := by
  induction h with
  | nil =>
      refine List.eq_replicate_iff.2 ⟨by simp, fun x hx => ?_⟩
      obtain ⟨k, -, rfl⟩ := List.mem_map.1 hx
      exact answer_nil c k
  | @unit u S m ms hu _ ih =>
      cases m with
      | none =>
          rw [answer_of_blank hu]
          exact ih
      | some m =>
          obtain ⟨hfirst, hothers⟩ := gives_of_unit hu S
          have hlength : ((some m).toList ++ ms).length + n = ms.length + n + 1 := by
            simp only [Option.toList_some, List.singleton_append, List.length_cons]
            omega
          calc (List.range (((some m).toList ++ ms).length + n)).map (c.answer (u ++ S))
              = c.answer (u ++ S) 0 :: (List.range (ms.length + n)).map (fun k => c.answer (u ++ S) (k + 1)) := by
                rw [hlength, List.range_succ_eq_map, List.map_cons, List.map_map]
                rfl
            _ = .ok m :: (List.range (ms.length + n)).map (c.answer S) := by
                rw [hfirst, List.map_congr_left fun k _ => hothers k]
            _ = _ := by
                rw [ih]
                rfl

/-- Where no read fails, no failure is reported. -/
theorem unfailed_frames {maximum : Nat} {events : List ReadEvent} (h : ∀ e, .failed e ∉ events) :
    ∀ event ∈ events, (Codec.frames maximum).failure? event = none := by
  intro event hmem
  cases event with
  | failed e => exact absurd hmem (h e)
  | _ => rfl

/-- An interruption is not reported of a stream of lines. -/
theorem unfailed_lines {maximum : UInt64} {events : List ReadEvent}
    (h : ∀ e, .failed e ∈ events → e.kind = .interrupted) :
    ∀ event ∈ events, (Codec.lines maximum).failure? event = none := by
  intro event hmem
  cases event with
  | failed e => simp [failure?, ReadEvent.failure?, Option.filter, h e hmem]
  | _ => rfl

end Codec

namespace Receiver

variable {c : Codec} {S : Bytes} {ms : List Message} {events : List ReadEvent}

/-- Every message of a stream of units is received in its turn, and then the end of the stream. -/
theorem results_of_carries (ho : c.overflows = false) (h : c.Carries S ms) (hy : Yields S events)
    (hnone : ∀ event ∈ events, c.failure? event = none) (n : Nat) :
    (start c).results (ms.length + n) events = ms.map .ok ++ List.replicate n (.error .connectionClosed) := by
  rw [results_of_unfailed (fits_start ho) hy hnone, held_start, List.nil_append]
  exact Codec.answers_of_carries h n

/-- A receiver without room for a byte finds the end of the stream whenever it is called. -/
theorem results_of_stunned {r : Receiver} (h : Stunned [] r []) (n : Nat) (events : List ReadEvent) :
    r.results n events = List.replicate n (.error .connectionClosed) := by
  induction n generalizing r with
  | zero => rfl
  | succ n ih =>
      have hreceive : r.receive events = (.error .connectionClosed, r.poll.2, events) := by
        have hpoll : r.poll = (some (.error .connectionClosed), r.poll.2) := Prod.ext h.poll rfl
        cases events <;> rw [receive, hpoll]
      rw [results, hreceive, List.replicate_succ]
      exact congrArg _ (ih h.next)

end Receiver

/-! ## Letters -/

/-- A message with the order in which an encoder comes upon its named arguments. -/
structure Letter where
  message : Message
  order : List (String × Value)
  sorted : Entries.Ascending message.kwargs
  perm : order.Perm message.kwargs

namespace Letter

/-- A message whose named arguments come in order. -/
def ofMessage (m : Message) (h : Entries.Ascending m.kwargs) : Letter :=
  ⟨m, m.kwargs, h, .refl _⟩

/-- A message without named arguments. -/
def plain (command : String) (args : List Value) : Letter :=
  ofMessage ⟨command, args, []⟩ .nil

/-- The bytes that carry the message. -/
def encode (c : Codec) (l : Letter) : Except Error Bytes :=
  c.encodeParts l.message.command l.message.args l.order

/-- A receiver of the codec is able to read the message. -/
def Fits (c : Codec) (l : Letter) : Prop :=
  c.Accepts l.message.command l.message.args l.order

variable {c : Codec} {l : Letter} {letters : List Letter} {frame : Bytes}

theorem unit_of_fits (h : l.Fits c) (hf : l.encode c = .ok frame) : c.Unit frame (some l.message) := by
  have hunit := Codec.unit_of_accepts h hf
  rwa [Entries.ofList_of_perm l.sorted l.perm] at hunit

theorem fits_of_sendable (h : l.message.Sendable c.Legible c.levels)
    (hs : c.sizeOf l.message.command l.message.args l.order ≤ c.largest) : l.Fits c :=
  ⟨h.1, fun e he => h.2 e (l.perm.mem_iff.1 he), hs⟩

/-- Letters that can be read and encoded make a stream of units. -/
theorem carries_of_fits (h : ∀ l ∈ letters, l.Fits c) {frames : List Bytes}
    (hf : letters.map (encode c) = frames.map .ok) : c.Carries frames.flatten (letters.map (·.message)) := by
  induction letters generalizing frames with
  | nil =>
      obtain rfl : frames = [] := by simpa using hf.symm
      exact .nil
  | cons l letters ih =>
      cases frames with
      | nil => simp at hf
      | cons frame frames =>
          rw [List.map_cons, List.map_cons, List.cons.injEq] at hf
          have hunit := unit_of_fits (h l (List.mem_cons_self ..)) hf.1
          exact .unit hunit (ih (fun l hl => h l (List.mem_cons_of_mem _ hl)) hf.2)

/-- The bytes that a frame puts behind their length. -/
def payload (l : Letter) : Bytes :=
  MsgPack.writeMessage l.message.command l.message.args l.order

/-- A receiver with a 32-bit maximum reads no payload that is too long to be framed. -/
theorem encode_of_fits {maximum : UInt32} (h : l.Fits (.frames maximum.toNat)) :
    l.encode (.frames maximum.toNat) = .ok (Bytes.bigEndian headerSize l.payload.length ++ l.payload) ∧
      l.payload.length < 256 ^ headerSize := by
  have hsize : l.payload.length ≤ maximum.toNat := h.size
  have hbound : l.payload.length < 2 ^ 32 := Nat.lt_of_le_of_lt hsize maximum.toNat_lt
  exact ⟨if_pos hbound, by simpa [headerSize] using hbound⟩

/-! ### Round trips -/

/-- An array with an object in it. -/
def nest : Value :=
  .arr [.null, .obj [("\n", .bool true), ("\"", .str "\u00e9")]]

theorem nest_sendable (kind : Double → Prop) (n : Nat) : nest.Sendable kind (n + 2) := by
  refine .arr fun x hx => ?_
  simp only [List.mem_cons, List.not_mem_nil, or_false] at hx
  obtain rfl | rfl := hx
  · exact .null _
  · refine .obj (by decide) fun e he => ?_
    simp only [List.mem_cons, List.not_mem_nil, or_false] at he
    obtain rfl | rfl := he
    · exact .bool _ _
    · exact .str _ _

/-- Numbers at their limits and nested values. -/
def move : Message :=
  ⟨"move", [.int ⟨-2 ^ 63, by decide, by decide⟩, .int ⟨2 ^ 64 - 1, by decide, by decide⟩, nest],
    [("at", nest), ("by", .float (.zero true))]⟩

theorem move_sendable {kind : Double → Prop} (hz : kind (.zero true)) (n : Nat) : move.Sendable kind (n + 2) := by
  refine ⟨fun x hx => ?_, fun e he => ?_⟩
  · simp only [move, List.mem_cons, List.not_mem_nil, or_false] at hx
    obtain rfl | rfl | rfl := hx
    · exact .int _ _
    · exact .int _ _
    · exact nest_sendable kind n
  · simp only [move, List.mem_cons, List.not_mem_nil, or_false] at he
    obtain rfl | rfl := he
    · exact nest_sendable kind n
    · exact .float _ hz

/-- The named arguments come out of order. -/
def shuffled : Letter :=
  ⟨move, [("by", .float (.zero true)), ("at", nest)], by decide, .swap _ _ _⟩

/-- Two messages, the second one of nothing. -/
def parcel : List Letter :=
  [shuffled, plain "" []]

theorem parcel_fits {c : Codec} (hz : c.Legible (.zero true))
    (hs : ∀ l ∈ parcel, c.sizeOf l.message.command l.message.args l.order ≤ c.largest) : ∀ l ∈ parcel, l.Fits c := by
  obtain ⟨n, hn⟩ : ∃ n, c.levels = n + 2 := by cases c <;> exact ⟨_, rfl⟩
  intro l hl
  refine fits_of_sendable ?_ (hs l hl)
  rw [hn]
  simp only [parcel, List.mem_cons, List.not_mem_nil, or_false] at hl
  obtain rfl | rfl := hl
  · exact move_sendable hz n
  · exact ⟨by simp [plain, ofMessage], by simp [plain, ofMessage]⟩

/-- One byte at a time, with nothing ready in between. -/
def trickle (S : Bytes) : List ReadEvent :=
  (S.flatMap fun b => [.notReady, .data [b]]) ++ [.ended]

theorem yields_trickle (S : Bytes) : Yields S (trickle S) := by
  induction S with
  | nil => exact .spent (by simp [trickle, ReadEvent.bytes])
  | cons b S ih =>
      have hread : Yields ((ReadEvent.data [b]).bytes ++ S) (.data [b] :: trickle S) := .read rfl ih
      have hwait : Yields (ReadEvent.notReady.bytes ++ (b :: S)) (.notReady :: .data [b] :: trickle S) :=
        .read rfl hread
      exact hwait

/-- Of letters that fit, in whatever order their named arguments come, every message is received in its turn, however
the frames are cut into reads, and then the end of the stream.  In front of each payload stands its length. -/
theorem messages_of_frames (maximum : UInt32) (letters : List Letter)
    (h : ∀ l ∈ letters, l.Fits (.frames maximum.toNat)) :
    ∃ frames : List Bytes, letters.map (encode (.frames maximum.toNat)) = frames.map .ok ∧
      frames.map (·.drop headerSize) = letters.map payload ∧
      (∀ frame ∈ frames, (frame.take headerSize).length = headerSize ∧
        Bytes.toNat (frame.take headerSize) = (frame.drop headerSize).length) ∧
      ∀ events n, Yields frames.flatten events → (∀ e, .failed e ∉ events) →
        (Receiver.start (.frames maximum.toNat)).results (letters.length + n) events =
          letters.map (.ok ·.message) ++ List.replicate n (.error .connectionClosed) := by
  have hencode : letters.map (encode (.frames maximum.toNat)) =
      (letters.map fun l => Bytes.bigEndian headerSize l.payload.length ++ l.payload).map .ok := by
    rw [List.map_map]
    exact List.map_congr_left fun l hl => (encode_of_fits (h l hl)).1
  refine ⟨_, hencode, ?_, ?_, fun events n hy hfailed => ?_⟩
  · rw [List.map_map]
    exact List.map_congr_left fun l _ => Frames.drop_header _ _
  · intro frame hframe
    obtain ⟨l, hl, rfl⟩ := List.mem_map.1 hframe
    rw [Frames.take_header, Frames.drop_header, Bytes.toNat_bigEndian (encode_of_fits (h l hl)).2]
    exact ⟨Bytes.length_bigEndian _ _, rfl⟩
  · have hresults := Receiver.results_of_carries rfl (carries_of_fits h hencode) hy (Codec.unfailed_frames hfailed) n
    rwa [List.length_map, List.map_map] at hresults

theorem messages_of_parcel_in_frames :
    ∃ frames : List Bytes, parcel.map (encode (.frames 100)) = frames.map .ok ∧
      (Receiver.start (.frames 100)).results 4 (trickle frames.flatten) =
        parcel.map (.ok ·.message) ++ [.error .connectionClosed, .error .connectionClosed] := by
  obtain ⟨frames, hencode, -, -, hresults⟩ := messages_of_frames 100 parcel (parcel_fits trivial (by decide +kernel))
  exact ⟨frames, hencode, hresults _ 2 (yields_trickle _) (by simp [trickle])⟩

/-- Of letters that fit, in whatever order their named arguments come, every message is received in its turn, however
the lines are cut into reads, and then the end of the stream.  With the largest maximum, whose line limit does not fit a
64-bit word, nothing is received but the end of the stream. -/
theorem messages_of_lines (maximum : UInt64) (letters : List Letter) (h : ∀ l ∈ letters, l.Fits (.lines maximum)) :
    ∃ lines : List Bytes, letters.map (encode (.lines maximum)) = lines.map .ok ∧
      ∀ events n, Yields lines.flatten events → (∀ e, .failed e ∈ events → e.kind = .interrupted) →
        (Receiver.start (.lines maximum)).results (letters.length + n) events =
          if maximum.toNat < 2 ^ 64 - 1 then
            letters.map (.ok ·.message) ++ List.replicate n (.error .connectionClosed)
          else List.replicate (letters.length + n) (.error .connectionClosed) := by
  have hencode : letters.map (encode (.lines maximum)) =
      (letters.map fun l => Json.writeMessage l.message.command l.message.args l.order ++ [10]).map .ok := by
    rw [List.map_map]
    rfl
  refine ⟨_, hencode, fun events n hy hfailed => ?_⟩
  by_cases hm : maximum.toNat < 2 ^ 64 - 1
  · have hresults := Receiver.results_of_carries (Codec.not_overflows_of_lt hm) (carries_of_fits h hencode) hy
      (Codec.unfailed_lines hfailed) n
    rw [List.length_map, List.map_map] at hresults
    rw [if_pos hm]
    exact hresults
  · have hover := Codec.overflows_of_not_lt hm
    rw [if_neg hm]
    exact Receiver.results_of_stunned (Receiver.account_of_overflows hover).start _ events

theorem messages_of_parcel_in_lines :
    ∃ lines : List Bytes, parcel.map (encode (.lines 160)) = lines.map .ok ∧
      (Receiver.start (.lines 160)).results 4 (trickle lines.flatten) =
        parcel.map (.ok ·.message) ++ [.error .connectionClosed, .error .connectionClosed] := by
  have hz : Json.ReadsBack (.zero true) := by decide +kernel
  obtain ⟨lines, hencode, hresults⟩ := messages_of_lines 160 parcel (parcel_fits hz (by decide +kernel))
  exact ⟨lines, hencode, hresults _ 2 (yields_trickle _) (by simp [trickle])⟩

/-- With the largest maximum a line that fits is not received. -/
theorem no_message_of_largest_maximum :
    (plain "A" []).Fits (.lines 18446744073709551615) ∧
    ∃ line, (plain "A" []).encode (.lines 18446744073709551615) = .ok line ∧
      (Receiver.start (.lines 18446744073709551615)).results 2 [.data line, .ended] =
        [.error .connectionClosed, .error .connectionClosed] :=
  ⟨fits_of_sendable ⟨by simp [plain, ofMessage], by simp [plain, ofMessage]⟩ (by decide), _, rfl, rfl⟩

end Letter
end Courier
